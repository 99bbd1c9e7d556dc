import SafelinuxDbg.Minidump.OrderlyCalls
import SafelinuxDbg.MinidumpLog.StackNames

/-!
# Regions that are submitted one after the other

Most clients submit a list of regions and do not look at what becomes of them.  Each is added behind those that
are registered, or refused; it is refused if it is not well formed, or if its name is known.

* `registered_addAll`: so the registered regions are a fold over the list.
* `mem_names_foldl_submitTo`: the names that are known then.
* `getElem_mem_foldl_submitTo`: which of the regions are added.
-/

namespace SafelinuxDbg.MinidumpLog

open CMemory Minidump

/-- A region that is submitted is added at the end, or refused. -/
def submitTo (cfg : Config) (R : List MdRegion) (e : MdRegion) : List MdRegion :=
  if AddsTo cfg R e then R ++ [e] else R

/-- A region that the driver can take, but for its name. -/
def WellFormed (cfg : Config) (e : MdRegion) : Prop :=
  e.name.strlen ≤ cfg.maxNameLength ∧ e.virtAddr ≠ 0 ∧ e.size % 4 = 0

instance (cfg : Config) (e : MdRegion) : Decidable (WellFormed cfg e) :=
  inferInstanceAs (Decidable (_ ∧ _ ∧ _))

section Submitting

variable {cfg : Config} {R : List MdRegion} {e x : MdRegion}

theorem submitTo_of_new (he : WellFormed cfg e) (hnew : e.name ∉ R.map MdRegion.name) :
    submitTo cfg R e = R ++ [e] := if_pos ⟨he.1, he.2.1, he.2.2, hnew⟩

theorem submitTo_of_known (h : e.name ∈ R.map MdRegion.name) : submitTo cfg R e = R :=
  if_neg fun hadds => hadds.2.2.2 h

theorem submitTo_of_malformed (h : ¬ WellFormed cfg e) : submitTo cfg R e = R :=
  if_neg fun hadds => h ⟨hadds.1, hadds.2.1, hadds.2.2.1⟩

theorem mem_submitTo (h : x ∈ submitTo cfg R e) : x ∈ R ∨ x = e := by
  rw [submitTo] at h
  split at h
  · exact (List.mem_append.mp h).imp_right List.mem_singleton.mp
  · exact Or.inl h

/-- The names that are known then. -/
theorem mem_names_submitTo (name : CStr) : name ∈ (submitTo cfg R e).map MdRegion.name ↔
    name ∈ R.map MdRegion.name ∨ WellFormed cfg e ∧ e.name = name := by
  by_cases he : WellFormed cfg e
  · by_cases hknown : e.name ∈ R.map MdRegion.name
    · rw [submitTo_of_known hknown]
      constructor
      · exact Or.inl
      · rintro (h | ⟨-, rfl⟩)
        · exact h
        · exact hknown
    · rw [submitTo_of_new he hknown, List.map_append, List.mem_append, List.map_singleton, List.mem_singleton,
        and_iff_right he, eq_comm (a := name)]
  · rw [submitTo_of_malformed he]
    simp [he]

theorem prefix_submitTo (cfg : Config) (R : List MdRegion) (e : MdRegion) : R <+: submitTo cfg R e := by
  rw [submitTo]
  split
  · exact List.prefix_append _ _
  · exact List.prefix_rfl

theorem prefix_foldl_submitTo (cfg : Config) (es R : List MdRegion) : R <+: es.foldl (submitTo cfg) R := by
  induction es generalizing R with
  | nil => exact List.prefix_rfl
  | cons e es ih => exact (prefix_submitTo cfg R e).trans (ih _)

theorem mem_foldl_submitTo {es : List MdRegion} (h : x ∈ es.foldl (submitTo cfg) R) : x ∈ R ∨ x ∈ es := by
  induction es generalizing R with
  | nil => exact Or.inl h
  | cons e es ih =>
    rcases ih h with hadded | hlater
    · rcases mem_submitTo hadded with hold | rfl
      · exact Or.inl hold
      · exact Or.inr List.mem_cons_self
    · exact Or.inr (List.mem_cons_of_mem _ hlater)

theorem mem_names_foldl_submitTo {es : List MdRegion} (name : CStr) :
    name ∈ (es.foldl (submitTo cfg) R).map MdRegion.name ↔
      name ∈ R.map MdRegion.name ∨ ∃ e ∈ es, WellFormed cfg e ∧ e.name = name := by
  induction es generalizing R with
  | nil => simp
  | cons e es ih =>
    rw [List.foldl_cons, ih, mem_names_submitTo, or_assoc]
    simp only [List.mem_cons, exists_eq_or_imp]

/-- **Which of the regions that are submitted are added**: those with a name that is not known, and that
none before them has. -/
theorem getElem_mem_foldl_submitTo {es : List MdRegion} (hes : ∀ e ∈ es, WellFormed cfg e) (hnodup : es.Nodup)
    (hout : ∀ e ∈ es, e ∉ R) {i : Nat} (hi : i < es.length) : es[i] ∈ es.foldl (submitTo cfg) R ↔
      es[i].name ∉ R.map MdRegion.name ∧ ∀ j, ∀ hj : j < i, es[j].name ≠ es[i].name := by
  induction es generalizing R i with
  | nil => cases hi
  | cons e es ih =>
    have he := hes e List.mem_cons_self
    rw [List.nodup_cons] at hnodup
    rw [List.foldl_cons]
    cases i with
    | zero =>
      simp only [List.getElem_cons_zero, Nat.not_lt_zero, IsEmpty.forall_iff, implies_true, and_true]
      constructor
      · intro hmem hknown
        rw [submitTo_of_known hknown] at hmem
        rcases mem_foldl_submitTo hmem with hold | hlater
        · exact hout e List.mem_cons_self hold
        · exact hnodup.1 hlater
      · intro hnew
        refine (prefix_foldl_submitTo cfg es _).subset ?_
        rw [submitTo_of_new he hnew]
        exact List.mem_append_right _ (List.mem_singleton_self e)
    | succ i =>
      rw [List.length_cons, Nat.succ_lt_succ_iff] at hi
      have hrest := ih (R := submitTo cfg R e) (fun f hf => hes f (List.mem_cons_of_mem _ hf)) hnodup.2
        (fun f hf hmem => by
          rcases mem_submitTo hmem with hold | rfl
          · exact hout f (List.mem_cons_of_mem _ hf) hold
          · exact hnodup.1 hf) hi
      rw [List.getElem_cons_succ, hrest, mem_names_submitTo, and_iff_right he, not_or, and_assoc]
      refine and_congr_right fun _ => ⟨?_, ?_⟩
      · rintro ⟨hfirst, hothers⟩ j hj
        cases j with
        | zero => exact hfirst
        | succ j => exact hothers j (Nat.lt_of_succ_lt_succ hj)
      · intro hall
        exact ⟨hall 0 (Nat.succ_pos i), fun j hj => hall (j + 1) (Nat.succ_lt_succ hj)⟩

end Submitting

/-! ## The driver -/

section Adding

variable {cfg : Config} {p : Platform} {s : Client}

/-- One region more at most. -/
theorem numRegions_add_cases (cfg : Config) (alloc : Bool) (e : MdRegion) (d : Driver) :
    (msmMinidumpAddRegion cfg alloc e d).1.numRegions = d.numRegions ∨
      (msmMinidumpAddRegion cfg alloc e d).1.numRegions = d.numRegions + 1 := by
  rcases add_paths cfg alloc e d with ⟨err, hr⟩ | ⟨-, -, hpaths⟩
  · rw [hr]
    exact Or.inl rfl
  · rcases hpaths with ⟨-, -, -, -, hr⟩ | ⟨-, -, -, hr⟩ | ⟨-, -, -, hr⟩
    all_goals
      rw [hr]
      exact Or.inr rfl

theorem numRegions_add (cfg : Config) (alloc : Bool) (e : MdRegion) (d : Driver) :
    d.numRegions ≤ (msmMinidumpAddRegion cfg alloc e d).1.numRegions := by
  rcases numRegions_add_cases cfg alloc e d with h | h
  all_goals omega

theorem numRegions_add_le (cfg : Config) (alloc : Bool) (e : MdRegion) (d : Driver) :
    (msmMinidumpAddRegion cfg alloc e d).1.numRegions ≤ d.numRegions + 1 := by
  rcases numRegions_add_cases cfg alloc e d with h | h
  all_goals omega

theorem numRegions_addAll (cfg : Config) (es : List (Bool × MdRegion)) (d : Driver) :
    d.numRegions ≤ (addAll cfg es d).numRegions := by
  induction es generalizing d with
  | nil => exact Nat.le_refl _
  | cons e es ih => exact Nat.le_trans (numRegions_add cfg e.1 e.2 d) (ih _)

/-- **Regions that are submitted one after the other**, when there is room for those that are added. -/
theorem registered_addAll (h : Orderly cfg p s) {es : List (Bool × MdRegion)}
    (hroom : (addAll cfg es s.driver).numRegions ≤ 197) :
    Orderly cfg p { s with driver := addAll cfg es s.driver } ∧
      registered (addAll cfg es s.driver) = (es.map Prod.snd).foldl (submitTo cfg) (registered s.driver) := by
  induction es generalizing s with
  | nil => exact ⟨h, rfl⟩
  | cons e es ih =>
    obtain ⟨hkept, hadded⟩ := h.addRegion e.1 e.2 (Nat.le_trans (numRegions_addAll cfg es _) hroom)
    obtain ⟨horderly, hrest⟩ := ih hkept hroom
    refine ⟨horderly, ?_⟩
    rw [List.map_cons, List.foldl_cons, submitTo, ← hadded]
    exact hrest

end Adding

end SafelinuxDbg.MinidumpLog

import SafelinuxDbg.Minidump.Consistency
import SafelinuxDbg.Minidump.GetRegion

/-!
# What calls do to the registered regions

For code that is a client of the driver: in a state that clients have reached by their rules, what a
call does to the list of registered regions, and that the state stays one of these.

* `update_of_good`, `Orderly.move`: an update with a good number is accepted and moves the region.
* `Orderly.add`: an added region is refused, or comes last.
* `Orderly.addRegion`: which of the two, and when the number that is returned is not kept.
* `Orderly.remove`: a removable region is removed.
* `Orderly.effect`: what a call does to the list; `Orderly.mem_call`: the calls of others leave a region there.
-/

namespace SafelinuxDbg.Minidump

open CMemory

/-- What every call of the driver keeps. -/
structure Orderly (cfg : Config) (p : Platform) (s : Client) : Prop where
  registry : HoldsRegistry cfg p s
  numbered : Numbered s

section Calls

variable {cfg : Config} {p : Platform} {s : Client} {e x : MdRegion} {n : Nat}

/-- **A good number**: the update is accepted, whatever the allocation. -/
theorem update_of_good {addrs : HeaderAddrs} {d : Driver} {r : Registry cfg} (h : Refines addrs d r)
    (alloc : Bool) (hn : n < r.regions.length) (hname : r.regions[n].name = e.name)
    (hgood : n < d.firstRemovedEntry) (hv : validateRegion cfg e = .ok ()) :
    msmMinidumpUpdateRegion cfg alloc n e d = (updatedHeaders n e (updatedTables n e d), .ok ()) := by
  have hroom := r.room
  rcases update_cases cfg alloc e h.smem n with
    ⟨hwhy, -⟩ | ⟨-, -, hwhy, -⟩ | ⟨-, -, -, -, hr⟩
  · rcases hwhy with hbad | hlarge
    · exact absurd hv hbad
    · rw [maxNumEntries_eq] at hlarge
      omega
  · rcases hwhy with hstale | ⟨err, hunknown⟩
    · omega
    · rw [(h.tables.lookups_eq r.distinct hn hname 0).1] at hunknown
      cases hunknown
  · exact hr

/-- Moving a region to where `e` is. -/
theorem Orderly.move (h : Orderly cfg p s) (alloc : Bool) (hx : (registered s.driver)[n]? = some x)
    (hname : x.name = e.name) (hgood : n < s.driver.firstRemovedEntry)
    (hv : validateRegion cfg e = .ok ()) :
    Orderly cfg p { s with driver := (msmMinidumpUpdateRegion cfg alloc n e s.driver).1 } ∧
      registered (msmMinidumpUpdateRegion cfg alloc n e s.driver).1 =
        (registered s.driver).modify n (MdRegion.moveTo e) ∧
      (msmMinidumpUpdateRegion cfg alloc n e s.driver).1.firstRemovedEntry =
        s.driver.firstRemovedEntry := by
  obtain ⟨r, hr⟩ := h.registry
  rw [registered_eq hr.tables] at hx
  obtain ⟨hn, hget⟩ := List.getElem?_eq_some_iff.mp hx
  have hname' : r.regions[n].name = e.name := by rw [hget, hname]
  have hres := update_of_good hr alloc hn hname' hgood hv
  have htrue := update_of_good hr true hn hname' hgood hv
  have hnext := hr.update hn hv
  refine ⟨⟨⟨r.move n e hv, ?_⟩, ?_⟩, ?_, ?_⟩
  · rw [hres]
    exact hnext
  · have hnumbered : Numbered (s.step cfg (.update n e)) := numbered_update h.numbered n e
    rw [Client.step, Call.exec, htrue] at hnumbered
    rw [hres]
    exact hnumbered
  · rw [hres, registered_eq hr.tables, registered_eq hnext.tables]
    rfl
  · rw [hres]
    rfl

/-- Adding a region: it is refused, or it comes last. -/
theorem Orderly.add (h : Orderly cfg p s) (alloc : Bool) (e : MdRegion)
    (hroom : (s.step cfg (.add alloc e)).driver.numRegions ≤ 197) :
    Orderly cfg p (s.step cfg (.add alloc e)) ∧
      (s.step cfg (.add alloc e)).driver.firstRemovedEntry = s.driver.firstRemovedEntry ∧
      ((∃ err, (msmMinidumpAddRegion cfg alloc e s.driver).2 = .error err ∧
          registered (s.step cfg (.add alloc e)).driver = registered s.driver) ∨
        ((msmMinidumpAddRegion cfg alloc e s.driver).2 = .ok (registered s.driver).length ∧
          registered (s.step cfg (.add alloc e)).driver = registered s.driver ++ [e])) := by
  obtain ⟨r, hr⟩ := h.registry
  have hkept : Orderly cfg p (s.step cfg (.add alloc e)) :=
    ⟨holdsRegistry_step h.registry h.numbered ⟨⟨hroom, trivial⟩, trivial⟩, numbered_step h.numbered _⟩
  have hdriver : (s.step cfg (.add alloc e)).driver = (msmMinidumpAddRegion cfg alloc e s.driver).1 := rfl
  rcases add_cases cfg alloc e hr.smem with ⟨err, hres⟩ | ⟨hv, -, -, -, hres⟩
  · refine ⟨hkept, ?_, Or.inl ⟨err, ?_, ?_⟩⟩
    · rw [hdriver, hres]
    · rw [hres]
    · rw [hdriver, hres]
  · refine ⟨hkept, ?_, Or.inr ⟨?_, ?_⟩⟩
    · rw [hdriver, hres]
      rfl
    · rw [hres, registered, slice_length]
    · rw [hdriver, hres, registered_eq hr.tables, registered_eq (hr.tables.add hv)]

/-- What the driver asks of a region that is added to the regions `R`. -/
def AddsTo (cfg : Config) (R : List MdRegion) (e : MdRegion) : Prop :=
  e.name.strlen ≤ cfg.maxNameLength ∧ e.virtAddr ≠ 0 ∧ e.size % 4 = 0 ∧ e.name ∉ R.map MdRegion.name

instance (cfg : Config) (R : List MdRegion) (e : MdRegion) : Decidable (AddsTo cfg R e) :=
  inferInstanceAs (Decidable (_ ∧ _ ∧ _ ∧ _))

/-- **Adding a region whose number is thrown away.** -/
theorem Orderly.addRegion (h : Orderly cfg p s) (alloc : Bool) (e : MdRegion)
    (hroom : (msmMinidumpAddRegion cfg alloc e s.driver).1.numRegions ≤ 197) :
    Orderly cfg p { s with driver := (msmMinidumpAddRegion cfg alloc e s.driver).1 } ∧
      registered (msmMinidumpAddRegion cfg alloc e s.driver).1 =
        if AddsTo cfg (registered s.driver) e then registered s.driver ++ [e]
        else registered s.driver := by
  obtain ⟨hkept, -, hcases⟩ := h.add alloc e hroom
  obtain ⟨r, hr⟩ := h.registry
  have hdriver : (s.step cfg (.add alloc e)).driver = (msmMinidumpAddRegion cfg alloc e s.driver).1 := rfl
  have hnumbered := hkept.numbered
  refine ⟨⟨hkept.registry, hnumbered.smem, hnumbered.count, hnumbered.perm, hnumbered.aligned, ?_⟩, ?_⟩
  · -- the numbers that are known stay good
    intro name n hn hlt
    rcases add_cases cfg alloc e hr.smem with ⟨err, hres⟩ | ⟨hv, -, -, -, hres⟩
    · rw [hres] at hlt ⊢
      exact h.numbered.issued name n hn hlt
    · rw [hres] at hlt ⊢
      obtain ⟨hnum, hname⟩ := h.numbered.issued name n hn hlt
      refine ⟨Nat.lt_succ_of_lt hnum, ?_⟩
      dsimp only
      rw [addedRegion_entry hv, Function.update_of_ne (Nat.ne_of_lt hnum)]
      exact hname
  · by_cases haccepts : AddsTo cfg (registered s.driver) e
    · rw [if_pos haccepts]
      obtain ⟨hlength, hvirt, hsize, hfresh⟩ := haccepts
      rw [registered_eq hr.tables] at hfresh
      have hres := hr.addRegion_eq alloc (validateRegion_eq_ok.mpr ⟨hlength, hvirt, hsize⟩) hfresh
      rcases hcases with ⟨err, herr, -⟩ | ⟨-, hnew⟩
      · rw [hres] at herr
        cases herr
      · exact hnew
    · rw [if_neg haccepts]
      rcases hcases with ⟨-, -, hsame⟩ | ⟨hok, -⟩
      · exact hsame
      · rcases add_cases cfg alloc e hr.smem with ⟨err, hres⟩ | ⟨hv, -, -, hm, -⟩
        · rw [hres] at hok
          cases hok
        · obtain ⟨hlength, hvirt, hsize⟩ := validateRegion_eq_ok.mp hv
          obtain ⟨-, hnew⟩ := hr.tables.mdEntryNum_eq_error.mp hm
          rw [← registered_eq hr.tables] at hnew
          exact absurd ⟨hlength, hvirt, hsize, hnew⟩ haccepts

/-- Other calls. -/
theorem Orderly.call (h : Orderly cfg p s) {c : Call} (hc : RemovableCall cfg s c) : Orderly cfg p (s.step cfg c) :=
  ⟨holdsRegistry_step h.registry h.numbered hc, numbered_step h.numbered c⟩

/-! ## The list -/

theorem length_registered (d : Driver) : (registered d).length = d.numRegions := by rw [registered, slice_length]

theorem registered_getElem? {d : Driver} {n : Nat} (hn : n < d.numRegions) :
    (registered d)[n]? = some (d.minidumpTable.entry n) := by
  rw [registered, slice_getElem? _ _ hn, Nat.zero_add]

/-- **A registered region is described** by the tables and the headers. -/
theorem Orderly.describes (h : Orderly cfg p s) (hx : (registered s.driver)[n]? = some x) :
    Describes s.driver n x := by
  obtain ⟨r, hr⟩ := h.registry
  rw [registered_eq hr.tables] at hx
  obtain ⟨hn, hget⟩ := List.getElem?_eq_some_iff.mp hx
  rw [← hget]
  exact hr.describes hn

theorem Orderly.length_le (h : Orderly cfg p s) : (registered s.driver).length ≤ 197 := by
  obtain ⟨r, hr⟩ := h.registry
  rw [registered_eq hr.tables]
  exact r.room

/-- A removable region is removed. -/
theorem Orderly.remove (h : Orderly cfg p s) (hn : n < (registered s.driver).length)
    (he : e.SameRegion (registered s.driver)[n]) (hremovable : Removable (registered s.driver) n hn) :
    (msmMinidumpRemoveRegion true e s.driver).2 = .ok () ∧
      registered (msmMinidumpRemoveRegion true e s.driver).1 = (registered s.driver).eraseIdx n := by
  obtain ⟨r, hr⟩ := h.registry
  have hregistered := registered_eq hr.tables
  simp only [hregistered] at hn he hremovable ⊢
  obtain ⟨hres, hnext⟩ := hr.remove hn he hremovable
  rw [hres]
  exact ⟨rfl, registered_eq hnext.tables⟩

/-! ## The effects -/

/-- **What a call does** to the registered regions. -/
inductive CallEffect (R : List MdRegion) : Call → List MdRegion → Prop
  | refused {c : Call} : CallEffect R c R
  | added {alloc : Bool} {e : MdRegion} : CallEffect R (.add alloc e) (R ++ [e])
  | moved {e : MdRegion} {i : Nat} (hi : i < R.length) (hname : R[i].name = e.name) :
      CallEffect R (.update i e) (R.modify i (MdRegion.moveTo e))
  | removed {e : MdRegion} {i : Nat} (hi : i < R.length) (hname : R[i].name = e.name) :
      CallEffect R (.remove e) (R.eraseIdx i)

theorem Orderly.listed (h : Orderly cfg p s) : Listed s (registered s.driver) := by
  obtain ⟨r, hr⟩ := h.registry
  rw [registered_eq hr.tables]
  exact ⟨h.numbered, hr.tables, r.distinct⟩

theorem Orderly.names_nodup (h : Orderly cfg p s) : ((registered s.driver).map MdRegion.name).Nodup :=
  h.listed.distinct

/-- Calls of this kind are not refused half way. -/
theorem Orderly.wholeCall (h : Orderly cfg p s) {c : Call} (hc : RemovableCall cfg s c) : WholeCall cfg s c := by
  obtain ⟨⟨-, hrules⟩, -⟩ := hc
  cases c with
  | add alloc e => trivial
  | update n e =>
    intro hv hlt
    obtain ⟨hissued, hok⟩ := hrules
    rcases update_cases cfg true e h.numbered.smem n with
      ⟨-, hr⟩ | ⟨-, -, -, err, hr⟩ | ⟨-, -, hgood, -, -⟩
    · rw [hr] at hok
      cases hok
    · rw [hr] at hok
      cases hok
    · exact ⟨hissued, hgood⟩
  | remove e =>
    intro _
    have hok : (msmMinidumpRemoveRegion true e s.driver).2 = .ok () := hrules
    rcases remove_cases true e h.numbered.smem with
      ⟨⟨err, hr⟩, -⟩ | ⟨i, k, -, -, -, hr⟩ | ⟨i, k, pidx, shidx, -, -, hl, -⟩
    · rw [hr] at hok
      cases hok
    · rw [hr] at hok
      cases hok
    · rw [hl]
      rfl

theorem callEffect_of_client {R R' : List MdRegion} {c : Call} {d d' : Driver} (hR : (R.map MdRegion.name).Nodup)
    (h : ClientEffect cfg d R c d' R') : CallEffect R c R' := by
  cases h with
  | refused => exact .refused
  | added => exact .added
  | moved hi hname =>
    rw [moveNamed_eq hR hi hname]
    exact .moved hi hname
  | removed hi hname =>
    rw [dropNamed_eq hR hi hname]
    exact .removed hi hname

/-- **Every call** has one of the effects. -/
theorem Orderly.effect (h : Orderly cfg p s) {c : Call} (hc : RemovableCall cfg s c) :
    CallEffect (registered s.driver) c (registered (s.step cfg c).driver) := by
  have hlisted := h.listed
  have heffect := client_effect hlisted (h.wholeCall hc) s
  rw [registered_eq (heffect.tables hlisted.tables hlisted.distinct).1]
  exact callEffect_of_client hlisted.distinct heffect

/-- **A region stays** when other clients add regions, and update and remove regions of other names. -/
theorem Orderly.mem_call (h : Orderly cfg p s) {c : Call} (hc : RemovableCall cfg s c)
    (hmem : x ∈ registered s.driver)
    (hother : match c with
      | .add _ _ => True
      | .update _ e | .remove e => x.name ≠ e.name) : x ∈ registered (s.step cfg c).driver := by
  obtain ⟨j, hj⟩ := List.mem_iff_getElem?.mp hmem
  have heffect := h.effect hc
  generalize registered (s.step cfg c).driver = R' at heffect
  cases heffect with
  | refused => exact hmem
  | added => exact List.mem_append_left _ hmem
  | @moved e i hi hname =>
    have hne : i ≠ j := by
      rintro rfl
      rw [List.getElem?_eq_getElem hi, Option.some.injEq] at hj
      exact hother (hj ▸ hname)
    exact List.mem_of_getElem? (List.getElem?_modify_ne _ _ hne ▸ hj)
  | @removed e i hi hname =>
    refine List.mem_eraseIdx_iff_getElem?.mpr ⟨j, ?_, hj⟩
    rintro rfl
    rw [List.getElem?_eq_getElem hi, Option.some.injEq] at hj
    exact hother (hj ▸ hname)

theorem orderly_reach {s : Client} (hs : (smemClients cfg p (· = [])).Reach (RemovableCall cfg) s) :
    Orderly cfg p s := ⟨holdsRegistry_reach hs, numbered_reach hs⟩

end Calls

end SafelinuxDbg.Minidump

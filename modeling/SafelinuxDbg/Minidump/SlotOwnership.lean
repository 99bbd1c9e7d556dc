import SafelinuxDbg.Minidump.RmSystem

/-!
# Who owns a slot

Each entry of the resource manager's table records the slot it was registered under.  The worker
sets this to `0` before it calls the resource manager, and puts the new slot there afterwards.
`Owned` says that what is recorded, and what the worker has in hand, is live and was registered
for that entry; every run keeps it while slot numbers fit into the 16 bits of the deregister
call.

An update whose registration is refused leaves `0` behind.  The next update of that entry does not
look, and deregisters slot `0`.

* `deregister_own_slots`: without such an update, every deregister call is for the entry's own
  slot.
* `slot_zero_deregistered`: with one, it is not.
-/

namespace SafelinuxDbg.Minidump

/-- What the worker has in hand was registered for its entry, and the entry of an update or a
removal records nothing meanwhile. -/
def Worker.Owns (l : Ledger) : Worker → Prop
  | .addFinish _ i (some slotNum) => l.Holds i slotNum
  | .updateDeregister _ i slotNum | .removeDeregister _ i slotNum =>
    l.held[i]? = some 0 ∧ (slotNum = 0 ∨ l.Holds i slotNum)
  | .updateRegister _ i | .removeFinish _ i => l.held[i]? = some 0
  | .updateFinish _ i slotNum => l.held[i]? = some 0 ∧ l.Holds i slotNum
  | _ => True

/-- What is recorded and what is in hand is owned, and fits into the argument of the deregister
call. -/
structure Owned (l : Ledger) (w : Worker) : Prop where
  valid : l.Valid
  worker : w.Owns l
  fits : ∀ slotNum, l.owner slotNum ≠ none → slotNum < 2 ^ 16

/-- A slot that the resource manager returns to the worker fits into 16 bits. -/
def slotsFit : Action → Bool
  | .register (some slotNum) => slotNum < 2 ^ 16
  | _ => true

section Owned

variable {l : Ledger} {w : Worker} {i id slotNum : Nat}

theorem getElem?_push (h : l.held[i]? = some 0) : (l.push id).held[i]? = some 0 := by
  obtain ⟨hlt, -⟩ := List.getElem?_eq_some_iff.mp h
  rw [Ledger.push, List.getElem?_append_left hlt]
  exact h

theorem Worker.Owns.push (h : w.Owns l) : w.Owns (l.push id) := by
  cases w with
  | addFinish e i reply =>
    cases reply with
    | none => trivial
    | some slotNum => exact Ledger.Holds.push h
  | updateDeregister e i slotNum => exact ⟨getElem?_push h.1, h.2.imp_right Ledger.Holds.push⟩
  | removeDeregister e i slotNum => exact ⟨getElem?_push h.1, h.2.imp_right Ledger.Holds.push⟩
  | updateRegister e i => exact getElem?_push h
  | removeFinish e i => exact getElem?_push h
  | updateFinish e i slotNum => exact ⟨getElem?_push h.1, h.2.push⟩
  | _ => trivial

/-- What the worker is about to deregister, and where it took it from. -/
theorem Worker.Owns.deregisterFor (h : w.Owns l) (hsound : w.corrupt = false)
    (hfor : w.deregisterFor = some (i, slotNum)) :
    l.held[i]? = some 0 ∧ (slotNum = 0 ∨ l.Holds i slotNum) := by
  cases w <;> cases hfor
  case addDeregister.refl e => cases hsound
  case updateDeregister.refl e => exact h
  case removeDeregister.refl e => exact h

theorem Owned.slotArgument (ho : Owned l w) (h : slotNum = 0 ∨ l.Holds i slotNum) :
    System.slotArgument slotNum = slotNum := by
  rw [System.slotArgument]
  apply Nat.mod_eq_of_lt
  rcases h with rfl | ⟨-, id, -, hown⟩
  · decide
  · exact ho.fits slotNum (by rw [hown]; simp)

/-- A slot that is taken out of an entry is in hand. -/
theorem Owned.vacate (ho : Owned l w) (hheld : l.held[i]? = some slotNum) :
    (l.record i 0).Valid ∧ (l.record i 0).held[i]? = some 0 ∧
      (slotNum = 0 ∨ (l.record i 0).Holds i slotNum) := by
  obtain ⟨hlt, -⟩ := List.getElem?_eq_some_iff.mp hheld
  refine ⟨ho.valid.record (Or.inl rfl), List.getElem?_set_self hlt, ?_⟩
  by_cases h0 : slotNum = 0
  · exact Or.inl h0
  · exact Or.inr (ho.valid.holds i slotNum hheld h0)

/-- Giving back what is in hand touches no other entry. -/
theorem Owned.release (ho : Owned l w) (hvacant : l.held[i]? = some 0)
    (h : slotNum = 0 ∨ l.Holds i slotNum) (ok : Bool) :
    (l.release ok (System.slotArgument slotNum)).Valid ∧
      ∀ k, (l.release ok (System.slotArgument slotNum)).owner k ≠ none → k < 2 ^ 16 := by
  rw [ho.slotArgument h]
  constructor
  · apply ho.valid.release
    intro j hj
    rcases h with h0 | hh
    · exact h0
    · exact absurd hj (ho.valid.not_held hh hvacant j)
  · intro k hk
    by_cases hks : k = slotNum
    · subst hks
      simp only [Ledger.release, Function.update_self] at hk
      exact absurd rfl hk
    · simp only [Ledger.release, Function.update_of_ne hks] at hk
      exact ho.fits k hk

end Owned

section Steps

variable {s t : System} {a : Action}

theorem owned_granted (hf : RmFrame s) (ho : Owned s.ledger s.worker) {i slotNum : Nat}
    (hfit : slotNum < 2 ^ 16) (hfor : s.worker.registerFor = some i) (hpos : slotNum ≠ 0)
    (hnew : slotNum ∉ s.live) :
    Owned (s.ledger.acquire slotNum i) (s.worker.registered (some slotNum)) := by
  refine ⟨ho.valid.acquire hpos hnew, ?_, ?_⟩
  · have hi : ∀ e, s.worker.task = some (e, i) → i < s.ledger.ids.length := by
      intro e htask
      have hlt := (hf.named e i htask).1
      rw [← hf.idsLength] at hlt
      exact hlt
    cases hw : s.worker with
    | addRegister e k =>
      rw [hw] at hfor
      cases hfor
      exact Ledger.holds_acquire (hi e (by rw [hw]; rfl))
    | updateRegister e k =>
      have hown := ho.worker
      rw [hw] at hfor hown
      cases hfor
      exact ⟨hown, Ledger.holds_acquire (hi e (by rw [hw]; rfl))⟩
    | _ =>
      rw [hw] at hfor
      cases hfor
  · intro k hk
    by_cases hks : k = slotNum
    · rw [hks]
      exact hfit
    · simp only [Ledger.acquire, Function.update_of_ne hks] at hk
      exact ho.fits k hk

theorem owned_deregister (hf : RmFrame s) (ho : Owned s.ledger s.worker) {i slotNum : Nat}
    (hfor : s.worker.deregisterFor = some (i, slotNum)) (ok : Bool) :
    Owned (s.ledger.release ok (System.slotArgument slotNum)) (s.worker.deregistered ok) := by
  obtain ⟨hvacant, hslot⟩ := ho.worker.deregisterFor hf.sound hfor
  obtain ⟨hvalid, hfits⟩ := ho.release hvacant hslot ok
  refine ⟨hvalid, ?_, hfits⟩
  cases hw : s.worker <;> rw [hw] at hfor <;> cases hfor
  case addDeregister.refl e => trivial
  all_goals
    cases ok with
    | false => trivial
    | true => exact hvacant

/-- **One step** keeps the ownership. -/
theorem owned_step (hf : RmFrame s) (ho : Owned s.ledger s.worker) (hfit : slotsFit a = true)
    (h : RmEffect s a t) : Owned t.ledger t.worker := by
  have hown := ho.worker
  cases h with
  | quiet hledger hworker _ =>
    rw [hledger, hworker]
    exact ho
  | push hledger hworker _ =>
    rw [hledger, hworker]
    refine ⟨ho.valid.push ?_, hown.push, ho.fits⟩
    intro hmem
    exact Nat.lt_irrefl _ (hf.idsLt _ hmem)
  | header hlive _ hpos hledger hworker _ =>
    rw [hledger, hworker]
    refine ⟨ho.valid.grant hpos ?_, trivial, ho.fits⟩
    have hnone : s.ledger.live = [] := hlive
    rw [hnone]
    exact List.not_mem_nil
  | takeAdd _ _ hledger _ hworker _ =>
    rw [hledger, hworker]
    exact ⟨ho.valid, trivial, ho.fits⟩
  | takeUpdate _ _ hheld hledger _ hworker _ =>
    rw [hledger, hworker]
    obtain ⟨hvalid, hvacant, hslot⟩ := ho.vacate hheld
    exact ⟨hvalid, ⟨hvacant, hslot⟩, ho.fits⟩
  | takeRemove _ _ hheld _ hledger _ hworker _ =>
    rw [hledger, hworker]
    obtain ⟨hvalid, hvacant, hslot⟩ := ho.vacate hheld
    exact ⟨hvalid, ⟨hvacant, hslot⟩, ho.fits⟩
  | refused hfor hledger hworker _ =>
    rw [hledger, hworker]
    refine ⟨ho.valid, ?_, ho.fits⟩
    cases hw : s.worker <;> rw [hw] at hfor <;> cases hfor <;> trivial
  | granted hfor hpos hnew hledger hworker _ =>
    rw [hledger, hworker]
    exact owned_granted hf ho (of_decide_eq_true hfit) hfor hpos hnew
  | deregister hfor hledger hworker _ =>
    rw [hledger, hworker]
    exact owned_deregister hf ho hfor _
  | finishDrop _ hledger hworker _ =>
    rw [hledger, hworker]
    exact ⟨ho.valid.drop, trivial, ho.fits⟩
  | finishKeep _ hledger hworker _ =>
    rw [hledger, hworker]
    exact ⟨ho.valid, trivial, ho.fits⟩
  | finishRecord hfrom hledger hworker _ =>
    rw [hledger, hworker]
    refine ⟨ho.valid.record ?_, trivial, ho.fits⟩
    rcases hfrom with hw | hw
    · rw [hw] at hown
      exact Or.inr hown
    · rw [hw] at hown
      exact Or.inr hown.2

theorem owned_init : Owned System.initial.ledger System.initial.worker := by
  refine ⟨⟨rfl, List.nodup_nil, List.nodup_nil, ?_, ?_⟩, trivial, ?_⟩
  · intro h hh
    cases hh
  · intro i h hi
    cases hi
  · intro k hk
    exact absurd rfl hk

end Steps

/-! ## Deregister calls -/

/-- The deregister call the worker is about to make names a slot that is live and was registered
for the same entry.  The call ends the ownership, so no slot is deregistered twice. -/
structure DeregistersOwn (s : System) (i slotNum : Nat) : Prop where
  nonzero : System.slotArgument slotNum ≠ 0
  live : System.slotArgument slotNum ∈ s.live
  entry : ∃ id, s.history.ids[i]? = some id ∧
    s.history.owner (System.slotArgument slotNum) = some id

/-- The slots returned fit into 16 bits, and the entry of an update that is taken from the queue
has a slot. -/
def updatesHaveSlots (s : System) : Action → Bool
  | .dequeue =>
    match s.driver.minidumpRmTable.minidumpRmWq with
    | ⟨e, .minidumpUpdate⟩ :: _ =>
      match mdRmEntryNum s.driver e with
      | .ok i => (s.driver.minidumpRmTable.entry i).slotNum != 0
      | .error _ => true
    | _ => true
  | a => slotsFit a

theorem slotsFit_of_updatesHaveSlots {s : System} {a : Action} (h : updatesHaveSlots s a = true) :
    slotsFit a = true := by
  cases a <;> first | rfl | exact h

/-- The worker does not take slot `0` from an entry. -/
theorem nonzero_step {s t : System} {a : Action}
    (hnz : ∀ i, s.worker.deregisterFor ≠ some (i, 0)) (hok : updatesHaveSlots s a = true)
    (h : RmEffect s a t) : ∀ i, t.worker.deregisterFor ≠ some (i, 0) := by
  cases h with
  | quiet _ hworker _ =>
    rw [hworker]
    exact hnz
  | push _ hworker _ =>
    rw [hworker]
    exact hnz
  | takeUpdate hqueue hfound hheld _ _ hworker _ =>
    intro k hk
    rw [hworker] at hk
    cases hk
    have hslot := (heldSlots_getElem? (mdRmEntryNum_eq_ok hfound).1).symm.trans hheld
    rw [Option.some.injEq] at hslot
    simp only [updatesHaveSlots, hqueue, hfound, hslot] at hok
    cases hok
  | takeRemove _ _ _ hpos _ _ hworker _ =>
    intro k hk
    rw [hworker] at hk
    cases hk
    exact hpos rfl
  | refused hfor _ hworker _ =>
    intro k hk
    rw [hworker] at hk
    cases hw : s.worker <;> rw [hw] at hfor hk <;> cases hfor <;> cases hk
  | granted hfor _ _ _ hworker _ =>
    intro k hk
    rw [hworker] at hk
    cases hw : s.worker <;> rw [hw] at hfor hk <;> cases hfor <;> cases hk
  | @deregister ok _ _ _ hfor _ hworker _ =>
    intro k hk
    rw [hworker] at hk
    cases hw : s.worker <;> rw [hw] at hfor hk <;> cases hfor <;> cases ok <;> cases hk
  | header _ _ _ _ hworker _ | takeAdd _ _ _ _ hworker _ | finishDrop _ _ hworker _
  | finishKeep _ _ hworker _ | finishRecord _ _ hworker _ =>
    intro k hk
    rw [hworker] at hk
    cases hk

/-- **Only own slots are deregistered**, in every run in which no update is taken for an entry
without a slot.  The identities tell the entries apart. -/
theorem deregister_own_slots {cfg : Config} {p : Platform} (hp : p.rm = true) {s : System}
    (hs : (minidumpSystem cfg p).Reach (fun s a => updatesHaveSlots s a = true) s) :
    s.history.ids.Nodup ∧ ∀ i slotNum, s.worker.deregisterFor = some (i, slotNum) →
      DeregistersOwn s i slotNum := by
  have hinv : RmFrame s ∧ Owned s.ledger s.worker ∧ ∀ i, s.worker.deregisterFor ≠ some (i, 0) := by
    refine rm_invariant (I := fun s => Owned s.ledger s.worker ∧
      ∀ i, s.worker.deregisterFor ≠ some (i, 0)) hp ⟨owned_init, ?_⟩ ?_ hs
    · intro i h
      cases h
    · intro s a t hf hi hok h
      exact ⟨owned_step hf hi.1 (slotsFit_of_updatesHaveSlots hok) h, nonzero_step hi.2 hok h⟩
  obtain ⟨hf, ho, hnz⟩ := hinv
  refine ⟨ho.valid.nodup, ?_⟩
  intro i slotNum hfor
  obtain ⟨-, hslot⟩ := ho.worker.deregisterFor hf.sound hfor
  rcases hslot with rfl | hholds
  · exact absurd hfor (hnz i)
  · have harg := ho.slotArgument (Or.inr hholds)
    obtain ⟨hlive, hentry⟩ := hholds
    refine ⟨?_, ?_, ?_⟩
    · rw [harg]
      exact ho.valid.livePos slotNum hlive
    · rw [harg]
      exact hlive
    · rw [harg]
      exact hentry

/-- The probe in RM mode, with nothing waiting; the header buffer gets slot 9. -/
def rmProbe : List Action :=
  [.probeMode, .probeTables, .probeHeader (some 9), .probeDrain (fun _ => true), .probeDone]

/-- The system after a probe in RM mode and the given steps. -/
def rmRun (check : System → Action → Bool) (as : List Action) : Option System :=
  (minidumpSystem Config.plain (Platform.plain true)).run check System.initial (rmProbe ++ as)

theorem deregister_own_slots_kmsg :
    let kmsg : MdRegion := ⟨CMemory.CStr.ofString "KMSG", 0, 0x1000, 0x81000000, 64⟩
    ∃ s, rmRun updatesHaveSlots [.add true kmsg, .dequeue, .register (some 1), .finish,
        .update true 0 kmsg, .dequeue] = some s ∧ s.worker.deregisterFor = some (0, 1) ∧
      DeregistersOwn s 0 1 := by
  intro kmsg
  have hrun : (rmRun updatesHaveSlots [.add true kmsg, .dequeue, .register (some 1), .finish,
      .update true 0 kmsg, .dequeue]).any
      (fun s => s.worker.deregisterFor == some (0, 1)) = true := by decide +kernel
  obtain ⟨s, hs, hw⟩ := (Option.any_eq_true _ _).mp hrun
  refine ⟨s, hs, beq_iff_eq.mp hw, ?_⟩
  exact (deregister_own_slots rfl (.of_run (fun _ _ h => h) (.init rfl) hs)).2 0 1
    (beq_iff_eq.mp hw)

/-- **Slot 0 is deregistered** when the registration of an update was refused and the region is
updated again. -/
theorem slot_zero_deregistered :
    ¬ ∀ s, (minidumpSystem Config.plain (Platform.plain true)).Reach (fun _ _ => True) s →
      ∀ i slotNum, s.worker.deregisterFor = some (i, slotNum) → DeregistersOwn s i slotNum := by
  intro h
  let kmsg : MdRegion := ⟨CMemory.CStr.ofString "KMSG", 0, 0x1000, 0x81000000, 64⟩
  have hrun : (rmRun (fun _ _ => true) [.add true kmsg, .dequeue, .register (some 1), .finish,
      .update true 0 kmsg, .dequeue, .deregister true, .register none,
      .update true 0 kmsg, .dequeue]).any
      (fun s => s.worker.deregisterFor == some (0, 0)) = true := by decide +kernel
  obtain ⟨s, hs, hw⟩ := (Option.any_eq_true _ _).mp hrun
  have hown := h s (.of_run (fun _ _ _ => trivial) (.init rfl) hs) 0 0 (beq_iff_eq.mp hw)
  exact hown.nonzero rfl

end SafelinuxDbg.Minidump

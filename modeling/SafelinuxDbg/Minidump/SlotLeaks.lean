import SafelinuxDbg.Minidump.SlotOwnership

/-!
# Leaked slots

A slot that is live and recorded in no entry cannot be removed or updated any more.  There are two
ways to get there.  An update or a removal takes the slot out of the entry before it deregisters
it, and does not put it back when that fails.  And two pending regions of one name give two
requests for the first of their entries, where the second slot overwrites the first.

* `slots_recorded_once`: without these, every live slot is recorded exactly once whenever the
  worker is idle.
* `failed_deregistration_leaks`: a run in which a deregistration fails.
-/

namespace SafelinuxDbg.Minidump

/-- The slot the worker has in hand. -/
def Worker.inHand : Worker → Option Nat
  | .addFinish _ _ reply => reply
  | .addDeregister _ _ slotNum | .updateDeregister _ _ slotNum | .updateFinish _ _ slotNum
  | .removeDeregister _ _ slotNum => some slotNum
  | _ => none

/-- The entry for which the worker registers a new region records no slot. -/
def Worker.AddsFresh (l : Ledger) : Worker → Prop
  | .addRegister _ i | .addFinish _ i _ => l.held[i]? = some 0
  | _ => True

/-- A deregistration of a live slot does not fail, and the entry of a new region that is taken
from the queue has no slot yet. -/
def slotsKept (s : System) : Action → Bool
  | .dequeue =>
    match s.driver.minidumpRmTable.minidumpRmWq with
    | ⟨e, .minidumpAdd⟩ :: _ =>
      match mdRmEntryNum s.driver e with
      | .ok i => (s.driver.minidumpRmTable.entry i).slotNum == 0
      | .error _ => true
    | _ => true
  | .deregister false =>
    match s.worker.deregisterFor with
    | some (_, slotNum) => !s.live.contains (System.slotArgument slotNum)
    | none => true
  | a => slotsFit a

theorem slotsFit_of_slotsKept {s : System} {a : Action} (h : slotsKept s a = true) :
    slotsFit a = true := by
  cases a with
  | register reply => exact h
  | _ => rfl

/-- No slot is lost. -/
structure Kept (s : System) : Prop where
  owned : Owned s.ledger s.worker
  fresh : s.worker.AddsFresh s.ledger
  accounted : s.ledger.Accounted s.kelfSlot s.worker.inHand

section Steps

variable {s t : System} {a : Action}

theorem fresh_step (hk : Kept s) (hok : slotsKept s a = true) (h : RmEffect s a t) :
    t.worker.AddsFresh t.ledger := by
  have hfresh := hk.fresh
  cases h with
  | quiet hledger hworker _ =>
    rw [hledger, hworker]
    exact hfresh
  | push hledger hworker _ =>
    rw [hledger, hworker]
    cases hw : s.worker with
    | addRegister e i =>
      rw [hw] at hfresh
      exact getElem?_push hfresh
    | addFinish e i reply =>
      rw [hw] at hfresh
      exact getElem?_push hfresh
    | _ => trivial
  | takeAdd hqueue hfound hledger _ hworker _ =>
    rw [hledger, hworker]
    simp only [slotsKept, hqueue, hfound, beq_iff_eq] at hok
    have hheld := heldSlots_getElem? (mdRmEntryNum_eq_ok hfound).1
    rw [hok] at hheld
    exact hheld
  | refused hfor hledger hworker _ =>
    rw [hledger, hworker]
    cases hw : s.worker <;> rw [hw] at hfor hfresh <;> cases hfor
    · exact hfresh
    · trivial
  | granted hfor _ _ hledger hworker _ =>
    rw [hledger, hworker]
    cases hw : s.worker <;> rw [hw] at hfor hfresh <;> cases hfor
    · exact hfresh
    · trivial
  | @deregister ok _ _ _ hfor _ hworker _ =>
    rw [hworker]
    cases hw : s.worker <;> rw [hw] at hfor <;> cases hfor <;> cases ok <;> trivial
  | header _ _ _ _ hworker _ | takeUpdate _ _ _ _ _ hworker _ | takeRemove _ _ _ _ _ _ hworker _
  | finishDrop _ _ hworker _ | finishKeep _ _ hworker _ | finishRecord _ _ hworker _ =>
    rw [hworker]
    trivial

theorem accounted_deregister (hf : RmFrame s) (hk : Kept s) {ok : Bool} {i slotNum : Nat}
    (hok : slotsKept s (.deregister ok) = true)
    (hfor : s.worker.deregisterFor = some (i, slotNum)) :
    (s.ledger.release ok (System.slotArgument slotNum)).Accounted s.kelfSlot none := by
  obtain ⟨-, hslot⟩ := hk.owned.worker.deregisterFor hf.sound hfor
  have hhand : s.worker.inHand = some slotNum := by
    cases hw : s.worker <;> rw [hw] at hfor <;> cases hfor <;> rfl
  have hacc := hk.accounted
  have harg := hk.owned.slotArgument hslot
  rw [hhand] at hacc
  rw [harg]
  apply hacc.release hk.owned.valid
  cases ok with
  | true => exact Or.inl rfl
  | false =>
    simp only [slotsKept, hfor, harg, Bool.not_eq_true', List.contains_eq_mem,
      decide_eq_false_iff_not] at hok
    exact Or.inr hok

theorem accounted_step (hf : RmFrame s) (hk : Kept s) (hok : slotsKept s a = true)
    (h : RmEffect s a t) : t.ledger.Accounted t.kelfSlot t.worker.inHand := by
  have hacc := hk.accounted
  have hown := hk.owned.worker
  have hvalid := hk.owned.valid
  cases h with
  | quiet hledger hworker hkelf =>
    rw [hledger, hworker, hkelf]
    exact hacc
  | push hledger hworker hkelf =>
    rw [hledger, hworker, hkelf]
    exact hacc.push
  | header hlive _ _ hledger hworker hkelf =>
    rw [hledger, hworker, hkelf]
    intro slotNum hmem
    have hnone : s.ledger.live = [] := hlive
    rw [Ledger.grant, hnone, List.mem_singleton] at hmem
    exact Or.inl (by rw [hmem])
  | takeAdd _ _ hledger hidle hworker hkelf =>
    rw [hidle] at hacc
    rw [hledger, hworker, hkelf]
    exact hacc
  | takeUpdate _ _ hheld hledger hidle hworker hkelf =>
    rw [hidle] at hacc
    rw [hledger, hworker, hkelf]
    exact hacc.vacate hheld
  | takeRemove _ _ hheld _ hledger hidle hworker hkelf =>
    rw [hidle] at hacc
    rw [hledger, hworker, hkelf]
    exact hacc.vacate hheld
  | refused hfor hledger hworker hkelf =>
    rw [hledger, hworker, hkelf]
    cases hw : s.worker <;> rw [hw] at hfor hacc <;> cases hfor <;> exact hacc
  | granted hfor _ _ hledger hworker hkelf =>
    rw [hledger, hworker, hkelf]
    cases hw : s.worker <;> rw [hw] at hfor hacc <;> cases hfor <;> exact hacc.acquire
  | @deregister ok _ _ _ hfor hledger hworker hkelf =>
    have hrel := accounted_deregister hf hk hok hfor
    have hhand : (s.worker.deregistered ok).inHand = none := by
      cases hw : s.worker <;> rw [hw] at hfor <;> cases hfor <;> cases ok <;> rfl
    rw [hledger, hworker, hkelf, hhand]
    exact hrel
  | finishDrop hfrom hledger hworker hkelf =>
    rw [hledger, hworker, hkelf]
    have hfresh := hk.fresh
    rcases hfrom with hw | hw
    · rw [hw] at hfresh hacc
      exact hacc.drop hvalid hfresh
    · rw [hw] at hown hacc
      exact hacc.drop hvalid hown
  | finishKeep hfrom hledger hworker hkelf =>
    rw [hfrom] at hacc
    rw [hledger, hworker, hkelf]
    exact hacc
  | finishRecord hfrom hledger hworker hkelf =>
    rw [hledger, hworker, hkelf]
    have hfresh := hk.fresh
    rcases hfrom with hw | hw
    · rw [hw] at hfresh hacc
      exact hacc.record hvalid hfresh
    · rw [hw] at hown hacc
      exact hacc.record hvalid hown.1

/-- **One step** loses no slot. -/
theorem kept_step (hf : RmFrame s) (hk : Kept s) (hok : slotsKept s a = true)
    (h : RmEffect s a t) : Kept t :=
  ⟨owned_step hf hk.owned (slotsFit_of_slotsKept hok) h, fresh_step hk hok h,
    accounted_step hf hk hok h⟩

theorem kept_init : Kept System.initial := by
  refine ⟨owned_init, trivial, ?_⟩
  intro h hh
  cases hh

end Steps

/-- **Every live slot is recorded exactly once** while the worker is idle, in every run in which
no deregistration of a live slot fails and no new region is registered for an entry that has a
slot. -/
theorem slots_recorded_once {cfg : Config} {p : Platform} (hp : p.rm = true) {s : System}
    (hs : (minidumpSystem cfg p).Reach (fun s a => slotsKept s a = true) s)
    (hidle : s.worker = .idle) :
    ∀ slotNum ∈ s.live, s.kelfSlot ≠ some slotNum →
      ∃! i, (s.driver.minidumpRmTable.entry i).slotNum = slotNum := by
  obtain ⟨hf, hk⟩ := rm_invariant hp kept_init
    (fun s a t hf hi hok h => kept_step hf hi hok h) hs
  intro slotNum hlive hkelf
  have hacc := hk.accounted
  have hpos := hk.owned.valid.livePos slotNum hlive
  rw [hidle] at hacc
  obtain ⟨i, hi, hunique⟩ := hacc.existsUnique hk.owned.valid hlive hkelf
  -- a place of the table that records the slot is one of the entries
  have hheld : ∀ k, (s.driver.minidumpRmTable.entry k).slotNum = slotNum →
      s.ledger.held[k]? = some slotNum := by
    intro k hslot
    rcases Nat.lt_or_ge k s.driver.numRegions with hlt | hge
    · rw [← hslot]
      exact heldSlots_getElem? hlt
    · rw [hf.rest k hge] at hslot
      exact absurd hslot.symm hpos
  refine ⟨i, ?_, fun k hslot => hunique k (hheld k hslot)⟩
  obtain ⟨hlt, -⟩ := List.getElem?_eq_some_iff.mp hi
  have hnum : i < s.driver.numRegions := by
    rw [← heldSlots_length]
    exact hlt
  have hslot := (heldSlots_getElem? hnum).symm.trans hi
  rw [Option.some.injEq] at hslot
  exact hslot

theorem slots_recorded_once_kmsg :
    let kmsg : MdRegion := ⟨CMemory.CStr.ofString "KMSG", 0, 0x1000, 0x81000000, 64⟩
    ∃ s, rmRun slotsKept [.add true kmsg, .dequeue, .register (some 1), .finish,
        .update true 0 kmsg, .dequeue, .deregister true, .register (some 2), .finish] = some s ∧
      s.live = [2, 9] ∧ ∃! i, (s.driver.minidumpRmTable.entry i).slotNum = 2 := by
  intro kmsg
  have hrun : (rmRun slotsKept [.add true kmsg, .dequeue, .register (some 1), .finish,
      .update true 0 kmsg, .dequeue, .deregister true, .register (some 2), .finish]).any
      (fun s => s.live == [2, 9] && (s.worker == .idle && s.kelfSlot == some 9)) = true := by
    decide +kernel
  obtain ⟨s, hs, hw⟩ := (Option.any_eq_true _ _).mp hrun
  simp only [Bool.and_eq_true, beq_iff_eq] at hw
  obtain ⟨hlive, hidle, hkelf⟩ := hw
  refine ⟨s, hs, hlive, ?_⟩
  exact slots_recorded_once rfl (.of_run (fun _ _ h => h) (.init rfl) hs) hidle 2
    (by rw [hlive]; decide) (by rw [hkelf]; decide)

/-- **A leaked slot**: the deregistration of an update fails, and the entry has forgotten its
slot. -/
theorem failed_deregistration_leaks :
    ¬ ∀ s, (minidumpSystem Config.plain (Platform.plain true)).Reach (fun _ _ => True) s →
      s.driver.minidumpRmTable.minidumpRmWq = [] → s.worker = .idle →
      ∀ slotNum ∈ s.live, s.kelfSlot ≠ some slotNum →
        ∃! i, (s.driver.minidumpRmTable.entry i).slotNum = slotNum := by
  intro h
  let kmsg : MdRegion := ⟨CMemory.CStr.ofString "KMSG", 0, 0x1000, 0x81000000, 64⟩
  have hrun : (rmRun (fun _ _ => true) [.add true kmsg, .dequeue, .register (some 1), .finish,
      .update true 0 kmsg, .dequeue, .deregister false]).any
      (fun s => s.live == [1, 9] && (s.worker == .idle && (s.kelfSlot == some 9 &&
        (s.driver.minidumpRmTable.minidumpRmWq == [] && (s.driver.numRegions == 1 &&
          (s.driver.minidumpRmTable.entry 0).slotNum == 0))))) = true := by decide +kernel
  obtain ⟨s, hs, hw⟩ := (Option.any_eq_true _ _).mp hrun
  simp only [Bool.and_eq_true, beq_iff_eq] at hw
  obtain ⟨hlive, hidle, hkelf, hqueue, hnum, hslot⟩ := hw
  have hreach : (minidumpSystem Config.plain (Platform.plain true)).Reach (fun _ _ => True) s :=
    .of_run (fun _ _ _ => trivial) (.init rfl) hs
  obtain ⟨i, hi, -⟩ := h s hreach hqueue hidle 1 (by rw [hlive]; decide) (by rw [hkelf]; decide)
  -- the only entry has no slot, and past the entries the table is clear
  obtain ⟨hf, -⟩ := rm_invariant rfl (I := fun _ => True) trivial
    (fun _ _ _ _ _ _ _ => trivial) hreach
  rcases Nat.lt_or_ge i 1 with hlt | hge
  · obtain rfl : i = 0 := by omega
    rw [hslot] at hi
    cases hi
  · rw [hf.rest i (by omega)] at hi
    cases hi

end SafelinuxDbg.Minidump

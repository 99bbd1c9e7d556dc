import SafelinuxDbg.MemoryDump.RegisterTable

/-!
# The entries of the register table

A line written to `register_config` is checked in two places, by `register_config_store` and by
`config_cpuss_register`.  A `RegEntry` is what passes both.  It knows its words in the table and
the bytes of output it needs.

* `RegisterConfig.of_entry`: what the functions compute for a line that passes.
* `RegisterConfig.of_no_entry`: any other line is refused in one of the places.
-/

namespace SafelinuxDbg.MemoryDump

inductive RegCmd
  | read | repeatRead | delay | write
deriving DecidableEq

/-- The letter of a command. -/
def RegCmd.char : RegCmd → Char
  | .read => 'r'
  | .repeatRead => 'R'
  | .delay => 'd'
  | .write => 'w'

def RegCmd.ofChar (c : Char) : Option RegCmd :=
  if c = 'r' then some .read
  else if c = 'R' then some .repeatRead
  else if c = 'd' then some .delay
  else if c = 'w' then some .write
  else none

/-- The values a command takes. -/
def RegCmd.Takes : RegCmd → UInt32 → Prop
  | .read, val => val ≠ 0 ∧ val &&& 3 = 0
  | .repeatRead, val => val ≠ 0 ∧ val ≤ maxExtraValue
  | .delay, val => val ≤ maxExtraValue
  | .write, _ => True

instance (cmd : RegCmd) (val : UInt32) : Decidable (cmd.Takes val) := by
  cases cmd <;> unfold RegCmd.Takes <;> infer_instance

/-- An entry of the table. -/
structure RegEntry where
  cmd : RegCmd
  offset : UInt32
  val : UInt32
  aligned : offset &&& 3 = 0
  takes : cmd.Takes val
deriving DecidableEq

namespace RegEntry

/-- The words of an entry. -/
def words (e : RegEntry) : List UInt32 :=
  match e.cmd with
  | .read => if 4 < e.val then [e.offset, e.val] else [e.offset ||| cmdReadWord]
  | .repeatRead => [e.offset ||| cmdExtra, e.val ||| cmdRepeatRead]
  | .delay => [cmdExtra, e.val ||| cmdDelay]
  | .write => [e.offset ||| cmdWrite, e.val]

/-- The bytes of output an entry needs. -/
def reserve (e : RegEntry) : Nat :=
  match e.cmd with
  | .read => e.val.toNat
  | .repeatRead => 4 * e.val.toNat
  | .delay | .write => 4

theorem words_length (e : RegEntry) : e.words.length = 1 ∨ e.words.length = 2 := by
  rw [words]
  split
  · split <;> simp
  all_goals simp

theorem reserve_lt (e : RegEntry) : e.reserve < 2 ^ 32 := by
  have hval := e.val.toNat_lt
  have htakes := e.takes
  rw [reserve]
  split
  case h_1 => exact hval
  case h_2 hcmd =>
    rw [hcmd] at htakes
    have hle := UInt32.le_iff_toNat_le.mp htakes.2
    have hmax : maxExtraValue.toNat = 0xffffff := rfl
    omega
  all_goals decide

end RegEntry

/-- The entry a line asks for, when all of its fields are in order. -/
def RegisterConfig.entry (c : RegisterConfig) : Option RegEntry :=
  match RegCmd.ofChar c.cmd with
  | none => none
  | some cmd =>
    if h : c.perCore ≤ 1 ∧ c.registerOffset &&& 3 = 0 ∧ cmd.Takes c.val then
      some ⟨cmd, c.registerOffset, c.val, h.2.1, h.2.2⟩
    else none

section Entry

variable {c : RegisterConfig} {e : RegEntry}

theorem RegCmd.ofChar_eq_some {c : Char} {cmd : RegCmd} : RegCmd.ofChar c = some cmd ↔ c = cmd.char := by
  constructor
  · intro h
    simp only [RegCmd.ofChar] at h
    split at h
    · cases h
      assumption
    split at h
    · cases h
      assumption
    split at h
    · cases h
      assumption
    split at h
    · cases h
      assumption
    · cases h
  · rintro rfl
    cases cmd <;> rfl

theorem RegisterConfig.entry_eq_some (h : c.entry = some e) :
    c.cmd = e.cmd.char ∧ c.registerOffset = e.offset ∧ c.val = e.val ∧ c.perCore ≤ 1 := by
  rw [RegisterConfig.entry] at h
  split at h
  case h_1 => cases h
  case h_2 cmd hcmd =>
    split at h
    case isTrue hok =>
      cases h
      exact ⟨RegCmd.ofChar_eq_some.mp hcmd, rfl, rfl, hok.1⟩
    case isFalse => cases h

/-- A four-byte read is the only entry of one word. -/
theorem RegEntry.read_le (e : RegEntry) (hcmd : e.cmd = .read) : 4 < e.val ∨ e.val = 4 := by
  obtain ⟨hne, hmod⟩ : e.val ≠ 0 ∧ e.val &&& 3 = 0 := by
    have htakes := e.takes
    rw [hcmd] at htakes
    exact htakes
  have hand : e.val.toNat % 4 = 0 := by
    have hmask : (e.val &&& 3).toNat = e.val.toNat % 4 := by
      rw [UInt32.toNat_and]
      exact Nat.and_two_pow_sub_one_eq_mod e.val.toNat 2
    rw [← hmask, hmod]
    rfl
  have hpos : e.val.toNat ≠ 0 := by
    intro hzero
    exact hne (UInt32.toNat_inj.mp hzero)
  rcases Nat.lt_or_ge 4 e.val.toNat with hlt | hge
  · exact Or.inl (UInt32.lt_iff_toNat_lt.mpr hlt)
  · refine Or.inr (UInt32.toNat_inj.mp ?_)
    have hfour : (4 : UInt32).toNat = 4 := rfl
    omega

/-- What the handlers compute for a line that is in order. -/
theorem RegisterConfig.of_entry (h : c.entry = some e) :
    c.reserveSize = .ok (UInt32.ofNat e.reserve) ∧
      (∀ index, configCpussRegister index c.cmd c.registerOffset c.val =
        .ok (index.toNat, e.words)) ∧
      c.wordCount = UInt32.ofNat e.words.length := by
  obtain ⟨hcmd, hoffset, hval, hcore⟩ := c.entry_eq_some h
  have hnot : ¬ 1 < c.perCore := UInt32.not_lt.mpr hcore
  have haligned := e.aligned
  have htakes := e.takes
  rw [RegisterConfig.reserveSize, RegisterConfig.wordCount, if_neg hnot, hoffset, hval, hcmd,
    if_neg (not_not.mpr haligned), RegEntry.reserve, RegEntry.words]
  cases hk : e.cmd with
  | read =>
    rw [hk] at htakes
    obtain ⟨hne, hmod⟩ := htakes
    have hchar : ('r' = 'R') = False := by decide
    simp only [RegCmd.char, true_or, if_true, if_neg hne, true_and, if_neg (not_not.mpr hmod),
      configCpussRegister, hchar, if_false]
    refine ⟨?_, ?_, ?_⟩
    · rw [UInt32.ofNat_toNat]
    · intro index
      split <;> rfl
    · rcases e.read_le hk with hlt | heq
      · have hne' : e.val ≠ 4 := by
          intro heq
          rw [heq] at hlt
          exact absurd hlt (by decide)
        rw [if_neg hne', if_pos hlt]
        rfl
      · rw [if_pos heq, if_neg (by rw [heq]; decide)]
        rfl
  | repeatRead =>
    rw [hk] at htakes
    obtain ⟨hne, hle⟩ := htakes
    have hnot' : ¬ maxExtraValue < e.val := UInt32.not_lt.mpr hle
    have hchar : ('R' = 'r') = False := by decide
    simp only [RegCmd.char, hchar, false_or, if_true, if_neg hne, false_and, if_false,
      configCpussRegister, if_neg hnot', implies_true, true_and]
    refine ⟨?_, rfl⟩
    rw [Nat.mul_comm, UInt32.ofNat_mul, UInt32.ofNat_toNat]
    rfl
  | delay =>
    rw [hk] at htakes
    have hle : e.val ≤ maxExtraValue := htakes
    have hnot' : ¬ maxExtraValue < e.val := UInt32.not_lt.mpr hle
    have hchar : ('d' = 'r') = False ∧ ('d' = 'R') = False := by decide
    simp only [RegCmd.char, hchar.1, hchar.2, or_self, false_and, if_false, if_true,
      configCpussRegister, if_neg hnot', implies_true, true_and]
    exact ⟨rfl, rfl⟩
  | write =>
    have hchar : ('w' = 'r') = False ∧ ('w' = 'R') = False ∧ ('w' = 'd') = False := by decide
    simp only [RegCmd.char, hchar.1, hchar.2.1, hchar.2.2, or_self, false_and, if_false, if_true,
      configCpussRegister, implies_true, true_and]
    exact ⟨rfl, rfl⟩

/-- A command that is not known is refused. -/
theorem configCpussRegister_unknown {cmd : Char} (hcmd : RegCmd.ofChar cmd = none)
    (index registerOffset val : UInt32) :
    ∃ err, configCpussRegister index cmd registerOffset val = .error err := by
  have hne : ∀ known : RegCmd, cmd ≠ known.char := by
    intro known heq
    rw [RegCmd.ofChar_eq_some.mpr heq] at hcmd
    cases hcmd
  have hread : cmd ≠ 'r' := hne .read
  have hrepeat : cmd ≠ 'R' := hne .repeatRead
  have hdelay : cmd ≠ 'd' := hne .delay
  have hwrite : cmd ≠ 'w' := hne .write
  rw [configCpussRegister, if_neg hread, if_neg hrepeat, if_neg hdelay, if_neg hwrite]
  exact ⟨_, rfl⟩

/-- A value that the command does not take is refused. -/
theorem RegisterConfig.of_not_takes (hcore : c.perCore ≤ 1) (haligned : c.registerOffset &&& 3 = 0)
    {cmd : RegCmd} (hcmd : c.cmd = cmd.char) (htakes : ¬ cmd.Takes c.val) :
    (∃ err, c.reserveSize = .error err) ∨
      ∀ index, ∃ err, configCpussRegister index c.cmd c.registerOffset c.val = .error err := by
  rw [RegisterConfig.reserveSize, if_neg (UInt32.not_lt.mpr hcore), if_neg (not_not.mpr haligned),
    hcmd]
  cases cmd with
  | read =>
    left
    simp only [RegCmd.char, true_or, if_true, true_and]
    by_cases hzero : c.val = 0
    · rw [if_pos hzero]
      exact ⟨_, rfl⟩
    · rw [if_neg hzero, if_pos (fun hmod => htakes ⟨hzero, hmod⟩)]
      exact ⟨_, rfl⟩
  | repeatRead =>
    by_cases hzero : c.val = 0
    · left
      simp only [RegCmd.char, or_true, if_true]
      rw [if_pos hzero]
      exact ⟨_, rfl⟩
    · right
      intro index
      have hlt : maxExtraValue < c.val := UInt32.not_le.mp (fun hle => htakes ⟨hzero, hle⟩)
      simp only [configCpussRegister, RegCmd.char, if_true, if_pos hlt]
      exact ⟨_, rfl⟩
  | delay =>
    right
    intro index
    have hlt : maxExtraValue < c.val := UInt32.not_le.mp (fun hle => htakes hle)
    simp only [configCpussRegister, RegCmd.char, if_true, if_pos hlt]
    exact ⟨_, rfl⟩
  | write => exact absurd trivial htakes

/-- A line that is not in order is refused. -/
theorem RegisterConfig.of_no_entry (h : c.entry = none) :
    (∃ err, c.reserveSize = .error err) ∨
      ∀ index, ∃ err, configCpussRegister index c.cmd c.registerOffset c.val = .error err := by
  by_cases hcore : 1 < c.perCore
  · rw [RegisterConfig.reserveSize, if_pos hcore]
    exact Or.inl ⟨_, rfl⟩
  by_cases haligned : c.registerOffset &&& 3 ≠ 0
  · rw [RegisterConfig.reserveSize, if_neg hcore, if_pos haligned]
    exact Or.inl ⟨_, rfl⟩
  have hcore' : c.perCore ≤ 1 := UInt32.not_lt.mp hcore
  rw [not_not] at haligned
  rw [RegisterConfig.entry] at h
  split at h
  case h_1 hcmd => exact Or.inr fun index => configCpussRegister_unknown hcmd index _ _
  case h_2 cmd hcmd =>
    split at h
    case isTrue => cases h
    case isFalse hbad =>
      refine c.of_not_takes hcore' haligned (RegCmd.ofChar_eq_some.mp hcmd) ?_
      intro htakes
      exact hbad ⟨hcore', haligned, htakes⟩

end Entry

end SafelinuxDbg.MemoryDump

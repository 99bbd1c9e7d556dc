import SafelinuxDbg.Lib.LapBuffer
import SafelinuxDbg.Lib.Machine
import SafelinuxDbg.MinidumpLog.StackNames

/-!
# The trace buffer

While the kernel dumps its trace in an oops, hooks keep the text from the console and store it in a buffer of
2 MiB, which is a region of minidump.  A dump is skipped for good when one of the ring buffers of the trace is
too large.  The buffer starts over where a text does not fit any more.

* `minidumpAddTraceEvent_eq`: a text is stored as in any buffer that starts over.
* `trace_recent_kept`: of the texts that were kept from the console, the last ones are in the buffer, as many as
  fit in it beside the longest of them.
-/

namespace SafelinuxDbg.MinidumpLog

open CMemory

/-! ## The hooks -/

/-- `MD_FTRACE_BUF_SIZE`. -/
def mdFtraceBufSize : Nat := 0x200000

/-- The variables of the hooks. -/
structure Ftrace where
  /-- `md_ftrace_buf_addr` is set -/
  bufAddr : Bool
  /-- the memory there, and `md_ftrace_buf_current` -/
  buf : LapBuffer UInt8
  /-- `minidump_ftrace_in_oops` -/
  inOops : Bool
  /-- `minidump_ftrace_dump` -/
  dump : Bool

/-- `minidump_add_trace_event`. -/
def minidumpAddTraceEvent (text : List UInt8) (s : Ftrace) : Ftrace :=
  if !s.bufAddr || mdFtraceBufSize < text.length then s
  else
    let current := if mdFtraceBufSize < s.buf.pos + text.length then 0 else s.buf.pos
    { s with buf := ⟨storeAt s.buf.mem current text, current + text.length⟩ }

/-- `md_trace_oops_enter`, with `*enter_check`. -/
def mdTraceOopsEnter (s : Ftrace) : Ftrace × Bool :=
  if s.inOops then (s, true) else ({ s with inOops := true }, false)

/-- `md_trace_oops_exit`. -/
def mdTraceOopsExit (s : Ftrace) : Ftrace := { s with inOops := false }

/-- `md_buf_size_check`, with `*size_check` if it is set. -/
def mdBufSizeCheck (bufferSize : UInt64) (s : Ftrace) : Ftrace × Option Bool :=
  if !s.dump then (s, some true)
  else if 0x40000 + pageSize < bufferSize then ({ s with dump := false }, some true)
  else (s, none)

/-- `md_dump_trace_buf`, with `*printk_check` if it is set. -/
def mdDumpTraceBuf (text : List UInt8) (s : Ftrace) : Ftrace × Option Bool :=
  if s.inOops && s.dump then (minidumpAddTraceEvent text s, some false) else (s, none)

/-! ## Runs -/

inductive TraceEvent
  | oopsEnter
  | oopsExit
  | sizeCheck (bufferSize : UInt64)
  | dumpBuffer (text : List UInt8)

def Ftrace.step (s : Ftrace) : TraceEvent → Ftrace
  | .oopsEnter => (mdTraceOopsEnter s).1
  | .oopsExit => mdTraceOopsExit s
  | .sizeCheck bufferSize => (mdBufSizeCheck bufferSize s).1
  | .dumpBuffer text => (mdDumpTraceBuf text s).1

/-- The texts that are kept from the console. -/
def noteTaken (s : Ftrace) (event : TraceEvent) (_ : Ftrace) (log : List (List UInt8)) : List (List UInt8) :=
  match event with
  | .dumpBuffer text => if (mdDumpTraceBuf text s).2 = some false then log ++ [text] else log
  | _ => log

/-- The hooks, from the time the buffer was allocated, in any order; with the texts they took. -/
def ftraceHooks : Machine (Ftrace × List (List UInt8)) TraceEvent :=
  Machine.recording
    { init := fun s => s = ⟨true, ⟨fun _ => 0, 0⟩, false, true⟩
      step := fun s event => some (s.step event) }
    noteTaken []

/-! ## The buffer -/

section Buffer

variable {s : Ftrace} {text : List UInt8}

theorem minidumpAddTraceEvent_eq (hbuf : s.bufAddr = true) (text : List UInt8) :
    minidumpAddTraceEvent text s = { s with buf := s.buf.write mdFtraceBufSize text } := by
  rw [minidumpAddTraceEvent, LapBuffer.write]
  by_cases hlong : mdFtraceBufSize < text.length
  · rw [if_pos hlong, if_pos (by rw [hbuf, decide_eq_true hlong]; rfl)]
  · rw [if_neg hlong, if_neg (by rw [hbuf, decide_eq_false hlong]; exact Bool.false_ne_true)]

/-- What one hook does to the buffer: nothing, or it stores a text that it takes. -/
theorem Ftrace.step_cases (s : Ftrace) (hbuf : s.bufAddr = true) (event : TraceEvent) (log : List (List UInt8)) :
    (s.step event).bufAddr = true ∧
      ((s.step event).buf = s.buf ∧ noteTaken s event (s.step event) log = log ∨
        ∃ text, (s.step event).buf = s.buf.write mdFtraceBufSize text ∧
          noteTaken s event (s.step event) log = log ++ [text]) := by
  cases event with
  | oopsEnter =>
    refine ⟨?_, Or.inl ⟨?_, rfl⟩⟩
    · rw [Ftrace.step, mdTraceOopsEnter]
      split <;> exact hbuf
    · rw [Ftrace.step, mdTraceOopsEnter]
      split <;> rfl
  | oopsExit => exact ⟨hbuf, Or.inl ⟨rfl, rfl⟩⟩
  | sizeCheck bufferSize =>
    refine ⟨?_, Or.inl ⟨?_, rfl⟩⟩
    · rw [Ftrace.step, mdBufSizeCheck]
      split
      · exact hbuf
      · split <;> exact hbuf
    · rw [Ftrace.step, mdBufSizeCheck]
      split
      · rfl
      · split <;> rfl
  | dumpBuffer text =>
    rw [Ftrace.step, noteTaken, mdDumpTraceBuf]
    by_cases htaken : (s.inOops && s.dump) = true
    · rw [if_pos htaken, minidumpAddTraceEvent_eq hbuf]
      exact ⟨hbuf, Or.inr ⟨text, rfl, if_pos rfl⟩⟩
    · rw [if_neg htaken]
      exact ⟨hbuf, Or.inl ⟨rfl, if_neg (by simp)⟩⟩

/-- The texts that fit in the buffer at all. -/
def fitting (log : List (List UInt8)) : List (List UInt8) := log.filter fun text => text.length ≤ mdFtraceBufSize

/-- In every run the buffer has laps. -/
theorem ftrace_laps {x : Ftrace × List (List UInt8)} (hx : ftraceHooks.Reach (fun _ _ => True) x) :
    x.1.bufAddr = true ∧
      ∃ older prev cur, LapBuffer.Laps mdFtraceBufSize x.1.buf (fitting x.2) older prev cur := by
  refine hx.invariant (I := fun x => x.1.bufAddr = true ∧
    ∃ older prev cur, LapBuffer.Laps mdFtraceBufSize x.1.buf (fitting x.2) older prev cur) ?_ ?_
  · rintro ⟨s, log⟩ ⟨hs, hlog⟩
    cases hs
    cases hlog
    exact ⟨rfl, [], [], [], LapBuffer.laps_empty _ _⟩
  · rintro ⟨s, log⟩ event ⟨t, log'⟩ ⟨hbuf, older, prev, cur, hlaps⟩ - hstep
    obtain ⟨hstep, hnote⟩ := Machine.recording_step hstep
    have hnext : s.step event = t := Option.some.inj hstep
    subst hnext
    have hlog' : log' = noteTaken s event (s.step event) log := hnote
    subst hlog'
    obtain ⟨hbuf', ⟨hsame, hlog⟩ | ⟨text, hwrite, hlog⟩⟩ := s.step_cases hbuf event log
    · refine ⟨hbuf', older, prev, cur, ?_⟩
      show LapBuffer.Laps mdFtraceBufSize (s.step event).buf
        (fitting (noteTaken s event (s.step event) log)) older prev cur
      rw [hsame, hlog]
      exact hlaps
    · refine ⟨hbuf', ?_⟩
      show ∃ older prev cur, LapBuffer.Laps mdFtraceBufSize (s.step event).buf
        (fitting (noteTaken s event (s.step event) log)) older prev cur
      rw [hwrite, hlog, fitting, List.filter_append]
      by_cases hfits : text.length ≤ mdFtraceBufSize
      · rw [List.filter_cons_of_pos (by simpa using hfits), List.filter_nil]
        rcases hlaps.write hfits with hbehind | hover
        · exact ⟨_, _, _, hbehind⟩
        · exact ⟨_, _, _, hover⟩
      · rw [List.filter_cons_of_neg (by simpa using hfits), List.filter_nil, List.append_nil, LapBuffer.write,
          if_pos (by omega)]
        exact ⟨_, _, _, hlaps⟩

/-- **The last texts are in the buffer**, in the order in which they were taken from the console: the newer ones
up to the position at which the next one is stored, and the older ones behind it. -/
theorem trace_recent_kept {x : Ftrace × List (List UInt8)} (hx : ftraceHooks.Reach (fun _ _ => True) x)
    {before recent : List (List UInt8)} (hlog : x.2 = before ++ recent) {m : Nat}
    (hshort : ∀ text ∈ recent, text.length ≤ m) (hfit : recent.flatten.length + m ≤ mdFtraceBufSize) :
    ∃ a c p, recent = a ++ c ∧ c.flatten.length ≤ x.1.buf.pos ∧
      slice x.1.buf.mem (x.1.buf.pos - c.flatten.length) c.flatten.length = c.flatten ∧
      x.1.buf.pos ≤ p ∧ p + a.flatten.length ≤ mdFtraceBufSize ∧
      slice x.1.buf.mem p a.flatten.length = a.flatten ∧ (a ≠ [] → c.flatten.length = x.1.buf.pos) := by
  obtain ⟨-, older, prev, cur, hlaps⟩ := ftrace_laps hx
  have hrecent : fitting recent = recent := List.filter_eq_self.mpr fun text htext => by
    have := hshort text htext
    exact decide_eq_true (by omega)
  have hsplit : fitting x.2 = fitting before ++ recent := by
    rw [hlog, fitting, List.filter_append]
    exact congrArg (_ ++ ·) hrecent
  exact hlaps.recent_kept hsplit hshort hfit

end Buffer

/-- Two texts in an oops: both are there, one behind the other. -/
theorem trace_recent_kept_oops :
    let s := (((⟨true, ⟨fun _ => 0, 0⟩, false, true⟩ : Ftrace).step .oopsEnter).step
      (.dumpBuffer [97, 98])).step (.dumpBuffer [99])
    ∃ a c p, [[97, 98], [99]] = a ++ c ∧ c.flatten.length ≤ s.buf.pos ∧
      slice s.buf.mem (s.buf.pos - c.flatten.length) c.flatten.length = c.flatten ∧
      s.buf.pos ≤ p ∧ p + a.flatten.length ≤ mdFtraceBufSize ∧
      slice s.buf.mem p a.flatten.length = a.flatten ∧ (a ≠ [] → c.flatten.length = s.buf.pos) := by
  intro s
  have hinit : ftraceHooks.init (⟨true, ⟨fun _ => 0, 0⟩, false, true⟩, []) := ⟨rfl, rfl⟩
  have hreach : ftraceHooks.Reach (fun _ _ => True) (s, [[97, 98], [99]]) :=
    .step (.step (.step (.init hinit) (a := .oopsEnter) (by exact trivial) rfl) (a := .dumpBuffer [97, 98])
      (by exact trivial) rfl) (a := .dumpBuffer [99]) (by exact trivial) rfl
  exact trace_recent_kept hreach (List.nil_append _).symm (m := 2) (by decide) (by decide)

end SafelinuxDbg.MinidumpLog

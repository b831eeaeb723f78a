import Mjlib.Micro.CommandManager
import Mjlib.Micro.Equiv.AsyncExclusive

/-!
# How many reads a command manager has outstanding

`MaybeStartRead` is called by the response of a command, and by the read handler when it has
dispatched one.  A function that responds before it returns takes both ways, and starts two reads
into one line buffer.

- `inv_step`: what every other step keeps.  The manager reads, waits for the write stream or waits
  for a function to respond, and does one of them at a time.
- `singleRead_iff`: a run has a single read throughout exactly when no function that the read handler
  calls responds before it returns.
-/

namespace Mjlib.Micro.CommandManager

open Base

variable {κ : Type*} {config : Config κ}

/-! ### The phases -/

/-- No command waits or runs. -/
structure Quiet (s : State κ) : Prop where
  writeOutstanding : s.writeOutstanding = false
  currentCommand : s.currentCommand = none
  running : s.running = false
  waiting : .command ∉ s.writeStream.waiting

/-- What is called when a read comes to its end. -/
def Read.callback : Read → Callback
  | .until _ => .handleRead
  | .ignore => .maybeStartRead

/-- One read is outstanding. -/
structure Reading (s : State κ) (read : Read) : Prop extends Quiet s where
  reads : s.reads = [read]
  callback : s.callback = some read.callback
  started : s.started = true

/-- A command waits for the write stream. -/
structure Waiting (s : State κ) : Prop where
  reads : s.reads = []
  writeOutstanding : s.writeOutstanding = true
  currentCommand : s.currentCommand.isSome
  running : s.running = false
  owned : s.writeStream.outstanding = true
  waiting : s.writeStream.waiting.count .command = 1
  started : s.started = true

/-- A function has been called and has not responded. -/
structure Running (s : State κ) : Prop where
  reads : s.reads = []
  writeOutstanding : s.writeOutstanding = true
  currentCommand : s.currentCommand = none
  running : s.running = true
  owned : s.writeStream.outstanding = true
  waiting : .command ∉ s.writeStream.waiting
  started : s.started = true

/-- What a command manager does. -/
inductive Phase (s : State κ) : Prop
  | fresh (hquiet : Quiet s) (hreads : s.reads = []) (hstarted : s.started = false)
  | reading (read : Read) (h : Reading s read)
  | waiting (h : Waiting s)
  | running (h : Running s)

/-- The invariant: a phase, and nothing waits for a write stream that is free. -/
structure Inv (s : State κ) : Prop where
  phase : Phase s
  free : s.writeStream.outstanding = false → s.writeStream.waiting = []

theorem inv_init (lineBuffer : Bytes) : Inv (init lineBuffer : State κ) where
  phase := .fresh ⟨rfl, rfl, rfl, by
    simp [init, AsyncExclusive.init, AsyncExclusive.waiting]⟩ rfl rfl
  free _ := List.reduceOption_replicate_none

/-! ### What the functions do -/

theorem maybeStartRead_of_quiet {s s' : State κ} (hs : s.writeOutstanding = false)
    (h : maybeStartRead config s = some s') :
    s' = { s with callback := some .handleRead, reads := s.reads ++ [.until 0] } := by
  rw [maybeStartRead, if_neg (by simp [hs]), asyncReadUntil] at h
  split at h
  · exact (Option.some.inj h).symm
  · exact nomatch h

theorem maybeStartRead_of_outstanding {s : State κ} (hs : s.writeOutstanding = true) :
    maybeStartRead config s = some s := by
  simp [maybeStartRead, hs]

@[simp] theorem call_none (s : State κ) : call none s = s := rfl

@[simp] theorem call_other (s : State κ) : call (some .other) s = s := rfl

theorem start_none (respondsNow : Bool) (s : State κ) :
    start config respondsNow none s = some s := by
  simp [start]

theorem start_other (respondsNow : Bool) (s : State κ) :
    start config respondsNow (some .other) s = some s := by
  simp [start]

/-- The write stream that a release leaves, when the command is not among those that wait. -/
theorem release_of_not_waiting {e : AsyncExclusive Operation}
    {result : AsyncExclusive Operation × Option Operation} (hwaiting : .command ∉ e.waiting)
    (h : e.release = some result) :
    (∀ s : State κ, call result.2 s = s) ∧ result.2 ≠ some .command ∧
      .command ∉ result.1.waiting ∧ (result.1.outstanding = false → result.1.waiting = []) := by
  obtain ⟨hnone, rfl⟩ | ⟨operation, hresult, houtstanding, hsplit⟩ :=
    AsyncExclusive.release_eq_some h
  · have hw : AsyncExclusive.waiting { e with outstanding := false } = [] := hnone
    refine ⟨fun s => rfl, nofun, ?_, fun _ => hw⟩
    rw [hw]
    exact List.not_mem_nil
  · rw [hsplit, List.mem_cons, not_or] at hwaiting
    cases operation with
    | command => exact absurd rfl hwaiting.1
    | other =>
      rw [hresult]
      refine ⟨fun s => rfl, nofun, hwaiting.2, fun hfree => ?_⟩
      exact absurd (houtstanding.symm.trans hfree) (by decide)

/-- **A response** ends the command and starts a read. -/
theorem respond_eq_some {s s' : State κ} (hs : .command ∉ s.writeStream.waiting)
    (h : respond config s = some s') :
    ∃ writeStream : AsyncExclusive Operation, .command ∉ writeStream.waiting ∧
      (writeStream.outstanding = false → writeStream.waiting = []) ∧
      s' = { s with
        writeOutstanding := false
        running := false
        writeStream := writeStream
        callback := some .handleRead
        reads := s.reads ++ [.until 0] } := by
  obtain ⟨result, hrelease, hread⟩ := Option.bind_eq_some_iff.mp h
  obtain ⟨hcall, -, hwaiting, hfree⟩ := release_of_not_waiting hs hrelease
  dsimp only at hread
  rw [hcall] at hread
  exact ⟨result.1, hwaiting, hfree, maybeStartRead_of_quiet rfl hread⟩

/-- The state in which the command of a line is handed to the write stream. -/
def accepted (config : Config κ) (line : Bytes) (writeStream : AsyncExclusive Operation)
    (s : State κ) : State κ :=
  { s with
    currentCommand := some (find config (split line).1)
    groupArguments := (split line).2
    lineBuffer := List.replicate config.maxLineLength 0
    writeOutstanding := true
    writeStream := writeStream }

theorem split_nil : split [] = ([], []) := rfl

/-- **A line** without a first token changes nothing; the command of any other is handed to the
write stream. -/
theorem handleCommand_eq_some {s s' : State κ} {size : ℕ} {respondsNow : Bool}
    (h : handleCommand config size respondsNow s = some s') :
    s.writeOutstanding = false ∧
    (((split (s.lineBuffer.take (size - 1))).1 = [] ∧ s' = s) ∨
    ((split (s.lineBuffer.take (size - 1))).1 ≠ [] ∧ ∃ result,
      s.writeStream.asyncStart .command = some result ∧
      start config respondsNow result.2
        (accepted config (s.lineBuffer.take (size - 1)) result.1 s) = some s')) := by
  unfold handleCommand at h
  split at h
  · exact nomatch h
  · rename_i hw
    refine ⟨by simpa using hw, ?_⟩
    split at h
    · split at h
      · exact Or.inl ⟨by simp [split_nil], (Option.some.inj h).symm⟩
      · exact nomatch h
    · rename_i size
      simp only at h
      split at h
      · rename_i hcmd
        exact Or.inl ⟨hcmd, (Option.some.inj h).symm⟩
      · rename_i hcmd
        obtain ⟨result, hresult, hstart⟩ := Option.bind_eq_some_iff.mp h
        exact Or.inr ⟨hcmd, result, hresult, hstart⟩

/-- The ways of the handler of `AsyncReadUntilHelper`. -/
theorem readUntilHandler_cases {s s' : State κ} {position size : ℕ} {error respondsNow : Bool}
    (hcallback : s.callback = some .handleRead)
    (h : readUntilHandler config position error size respondsNow s = some s') :
    (error = true ∧ s' = asyncIgnoreUntil { s with callback := some .maybeStartRead }) ∨
    (error = false ∧ ∃ c, s.lineBuffer[position]? = some c ∧
      ((isDelimiter delimiters c = true ∧ ∃ mid,
          handleCommand config (position + size) respondsNow s = some mid ∧
          maybeStartRead config mid = some s') ∨
        (isDelimiter delimiters c = false ∧ position + 1 = config.maxLineLength ∧
          s' = asyncIgnoreUntil { s with callback := some .maybeStartRead }) ∨
        (isDelimiter delimiters c = false ∧ position + 1 ≠ config.maxLineLength ∧
          s' = { s with reads := s.reads ++ [.until (position + 1)] }))) := by
  unfold readUntilHandler at h
  split at h
  · rename_i herror
    simp only [callBack, hcallback, handleRead, if_true] at h
    exact Or.inl ⟨herror, (Option.some.inj h).symm⟩
  · rename_i herror
    refine Or.inr ⟨by simpa using herror, ?_⟩
    split at h
    · exact nomatch h
    · rename_i c hc
      refine ⟨c, hc, ?_⟩
      split at h
      · rename_i hdelimiter
        simp only [callBack, hcallback, handleRead, Bool.false_eq_true, if_false] at h
        exact Or.inl ⟨hdelimiter, Option.bind_eq_some_iff.mp h⟩
      · rename_i hdelimiter
        have hdelimiter' : isDelimiter delimiters c = false := by simpa using hdelimiter
        split at h
        · rename_i hfull
          simp only [callBack, hcallback, handleRead, if_true] at h
          exact Or.inr (Or.inl ⟨hdelimiter', hfull, (Option.some.inj h).symm⟩)
        · rename_i hfull
          exact Or.inr (Or.inr ⟨hdelimiter', hfull, (Option.some.inj h).symm⟩)

/-- The ways of the handler of `AsyncIgnoreUntil`. -/
theorem ignoreUntilHandler_cases {s s' : State κ} {error respondsNow : Bool}
    (hcallback : s.callback = some .maybeStartRead) (hs : s.writeOutstanding = false)
    (h : ignoreUntilHandler config error respondsNow s = some s') :
    ((error = true ∨ ∃ c, s.lineBuffer[0]? = some c ∧ isDelimiter delimiters c = true) ∧
      s' = { s with callback := some .handleRead, reads := s.reads ++ [.until 0] }) ∨
    (error = false ∧ (∃ c, s.lineBuffer[0]? = some c ∧ isDelimiter delimiters c = false) ∧
      s' = asyncIgnoreUntil s) := by
  unfold ignoreUntilHandler at h
  split at h
  · rename_i herror
    simp only [callBack, hcallback] at h
    exact Or.inl ⟨Or.inl herror, maybeStartRead_of_quiet hs h⟩
  · rename_i herror
    split at h
    · exact nomatch h
    · rename_i c hc
      split at h
      · rename_i hdelimiter
        simp only [callBack, hcallback] at h
        exact Or.inl ⟨Or.inr ⟨c, hc, hdelimiter⟩, maybeStartRead_of_quiet hs h⟩
      · rename_i hdelimiter
        refine Or.inr ⟨by simpa using herror, ⟨c, hc, by simpa using hdelimiter⟩, ?_⟩
        exact (Option.some.inj h).symm

/-! ### The command and the write stream -/

/-- A command that is handed to the write stream runs at once, and its function responds or does
not, or it waits for the stream. -/
theorem start_accepted {s s' : State κ} {line : Bytes} {respondsNow : Bool}
    {result : AsyncExclusive Operation × Option Operation} (hs : Quiet s) (hreads : s.reads = [])
    (hstarted : s.started = true)
    (hfree : s.writeStream.outstanding = false → s.writeStream.waiting = [])
    (hresult : s.writeStream.asyncStart .command = some result)
    (h : start config respondsNow result.2 (accepted config line result.1 s) = some s') :
    (s.writeStream.outstanding = true ∧ s' = accepted config line result.1 s ∧ Waiting s') ∨
    (s.writeStream.outstanding = false ∧ respondsNow = false ∧
      s' = call (some .command) (accepted config line result.1 s) ∧ Running s' ∧
      (s'.writeStream.outstanding = false → s'.writeStream.waiting = [])) ∨
    (s.writeStream.outstanding = false ∧ respondsNow = true ∧ Reading s' (.until 0) ∧
      (s'.writeStream.outstanding = false → s'.writeStream.waiting = [])) := by
  obtain ⟨ho, rfl⟩ | ⟨ho, hnone, houtstanding, hperm⟩ := AsyncExclusive.asyncStart_cases hresult
  · right
    have hw : AsyncExclusive.waiting { s.writeStream with outstanding := true } = [] := hfree ho
    have hrunning : Running (call (some .command)
        (accepted config line { s.writeStream with outstanding := true } s)) := by
      refine ⟨hreads, rfl, rfl, rfl, rfl, ?_, hstarted⟩
      show Operation.command ∉ AsyncExclusive.waiting { s.writeStream with outstanding := true }
      rw [hw]
      exact List.not_mem_nil
    cases respondsNow with
    | false =>
      left
      simp only [start, Bool.false_eq_true, and_false, if_false] at h
      obtain rfl := Option.some.inj h
      exact ⟨ho, rfl, rfl, hrunning, fun _ => hw⟩
    | true =>
      right
      simp only [start, and_self, if_true] at h
      obtain ⟨writeStream, hwaiting, hfree', rfl⟩ := respond_eq_some hrunning.waiting h
      refine ⟨ho, rfl, ⟨⟨rfl, rfl, rfl, hwaiting⟩, ?_, rfl, hstarted⟩, hfree'⟩
      show s.reads ++ [.until 0] = [.until 0]
      rw [hreads]
      rfl
  · left
    rw [hnone, start_none] at h
    obtain rfl := Option.some.inj h
    refine ⟨ho, rfl, hreads, rfl, rfl, hs.running, houtstanding, ?_, hstarted⟩
    rw [show (accepted config line result.1 s).writeStream = result.1 from rfl, hperm.count_eq,
      List.count_cons_self, List.count_eq_zero.mpr hs.waiting]

/-- One of the others starts an operation, or waits. -/
theorem step_lock {s s' : State κ} (h : step config s .lock = some s') :
    ∃ writeStream : AsyncExclusive Operation, writeStream.outstanding = true ∧
      (s.writeStream.outstanding = false → writeStream.waiting = s.writeStream.waiting) ∧
      writeStream.waiting.count .command = s.writeStream.waiting.count .command ∧
      s' = { s with writeStream := writeStream } := by
  obtain ⟨result, hresult, hstart⟩ := Option.bind_eq_some_iff.mp h
  dsimp only at hstart
  obtain ⟨-, rfl⟩ | ⟨ho, hnone, houtstanding, hperm⟩ := AsyncExclusive.asyncStart_cases hresult
  · rw [start_other] at hstart
    exact ⟨{ s.writeStream with outstanding := true }, rfl, fun _ => rfl, rfl,
      (Option.some.inj hstart).symm⟩
  · rw [hnone, start_none] at hstart
    refine ⟨result.1, houtstanding, fun hfree => ?_, ?_, (Option.some.inj hstart).symm⟩
    · exact absurd (ho.symm.trans hfree) (by decide)
    · rw [hperm.count_eq, List.count_cons_of_ne (by decide)]

/-- One of the others gives the write stream up: the command that waited is called, or it is not
the next one. -/
theorem step_unlock {s s' : State κ} {respondsNow : Bool}
    (h : step config s (.unlock respondsNow) = some s') :
    s.running = false ∧ s.writeStream.outstanding = true ∧
    ∃ result, s.writeStream.release = some result ∧
      start config respondsNow result.2 { s with writeStream := result.1 } = some s' := by
  simp only [step] at h
  split at h
  · rename_i howner
    obtain ⟨result, hresult, hstart⟩ := Option.bind_eq_some_iff.mp h
    exact ⟨by simpa using howner.2, howner.1, result, hresult, hstart⟩
  · exact nomatch h

/-! ### Every step -/

/-- The completion of a read ends a line, and the function of its command is called at once. -/
def calls (s : State κ) (index : ℕ) (byte : Option UInt8) : Bool :=
  match s.reads[index]? with
  | some (.until position) =>
    let lineBuffer := (completed index (.until position) byte s).lineBuffer
    let line := lineBuffer.take (position + byte.toList.length - 1)
    (lineBuffer[position]?.any (isDelimiter delimiters)) && (split line).1 != [] &&
      !s.writeStream.outstanding
  | _ => false

/-- No function that the read handler calls responds before it returns. -/
def RespondsLater (s : State κ) (event : Event) : Prop :=
  match event with
  | .readDone index false byte true => calls s index byte = false
  | _ => True

instance RespondsLater.decidable (s : State κ) : (event : Event) → Decidable (RespondsLater s event)
  | .asyncStart => isTrue trivial
  | .readDone index false byte true => inferInstanceAs (Decidable (calls s index byte = false))
  | .readDone _ true _ _ => isTrue trivial
  | .readDone _ false _ false => isTrue trivial
  | .respond => isTrue trivial
  | .lock => isTrue trivial
  | .unlock _ => isTrue trivial

theorem Reading.eq_of_getElem? {s : State κ} {read read' : Read} {index : ℕ} (hs : Reading s read)
    (h : s.reads[index]? = some read') : index = 0 ∧ read' = read := by
  rw [hs.reads] at h
  cases index with
  | zero => exact ⟨rfl, (Option.some.inj h).symm⟩
  | succ index => exact nomatch h

/-- A read can only complete while the manager reads. -/
theorem Inv.reading_of_getElem? {s : State κ} {read : Read} {index : ℕ} (hs : Inv s)
    (h : s.reads[index]? = some read) : index = 0 ∧ Reading s read := by
  have hnil : s.reads ≠ [] := by
    intro hnil
    rw [hnil] at h
    exact nomatch h
  cases hs.phase with
  | fresh hquiet hreads hstarted => exact absurd hreads hnil
  | reading read' hreading =>
    obtain ⟨hindex, rfl⟩ := hreading.eq_of_getElem? h
    exact ⟨hindex, hreading⟩
  | waiting hwaiting => exact absurd hwaiting.reads hnil
  | running hrunning => exact absurd hrunning.reads hnil

theorem Inv.running_of_running {s : State κ} (hs : Inv s) (h : s.running = true) : Running s := by
  cases hs.phase with
  | fresh hquiet => exact absurd (hquiet.running.symm.trans h) (by decide)
  | reading read hreading => exact absurd (hreading.running.symm.trans h) (by decide)
  | waiting hwaiting => exact absurd (hwaiting.running.symm.trans h) (by decide)
  | running hrunning => exact hrunning

theorem Inv.waiting_of_mem {s : State κ} (hs : Inv s) (h : .command ∈ s.writeStream.waiting) :
    Waiting s := by
  cases hs.phase with
  | fresh hquiet => exact absurd h hquiet.waiting
  | reading read hreading => exact absurd h hreading.waiting
  | waiting hwaiting => exact hwaiting
  | running hrunning => exact absurd h hrunning.waiting

/-- The state in which the handler of the only read is called. -/
theorem Reading.completed {s : State κ} {read : Read} (hs : Reading s read) (byte : Option UInt8) :
    Quiet (completed 0 read byte s) ∧ (completed 0 read byte s).reads = [] ∧
      (completed 0 read byte s).callback = some read.callback ∧
      (completed 0 read byte s).started = true := by
  refine ⟨⟨hs.writeOutstanding, hs.currentCommand, hs.running, hs.waiting⟩, ?_, hs.callback,
    hs.started⟩
  show s.reads.eraseIdx 0 = []
  rw [hs.reads]
  rfl

/-- **The end of a line**: the manager reads the next one, or its command waits, or its command
runs; where the command has responded already there are two reads. -/
theorem line_cases {s mid s' : State κ} {size : ℕ} {respondsNow : Bool} (hs : Quiet s)
    (hreads : s.reads = []) (hstarted : s.started = true)
    (hfree : s.writeStream.outstanding = false → s.writeStream.waiting = [])
    (hmid : handleCommand config size respondsNow s = some mid)
    (h : maybeStartRead config mid = some s') :
    ((split (s.lineBuffer.take (size - 1))).1 = [] ∧
      s' = { s with callback := some .handleRead, reads := [.until 0] }) ∨
    ((split (s.lineBuffer.take (size - 1))).1 ≠ [] ∧ ∃ result,
      s.writeStream.asyncStart .command = some result ∧
      ((s.writeStream.outstanding = true ∧
          s' = accepted config (s.lineBuffer.take (size - 1)) result.1 s ∧ Waiting s') ∨
        (s.writeStream.outstanding = false ∧ respondsNow = false ∧
          s' = call (some .command) (accepted config (s.lineBuffer.take (size - 1)) result.1 s) ∧
          Running s' ∧ (s'.writeStream.outstanding = false → s'.writeStream.waiting = [])) ∨
        (s.writeStream.outstanding = false ∧ respondsNow = true ∧
          s'.reads = [.until 0, .until 0]))) := by
  obtain ⟨-, ⟨hsplit, rfl⟩ | ⟨hsplit, result, hresult, hstart⟩⟩ := handleCommand_eq_some hmid
  · left
    have hs' := maybeStartRead_of_quiet hs.writeOutstanding h
    rw [hreads] at hs'
    exact ⟨hsplit, hs'⟩
  · refine Or.inr ⟨hsplit, result, hresult, ?_⟩
    obtain ⟨ho, hmid', hwaiting⟩ | ⟨ho, hlater, hmid', hrunning, hfree'⟩ | ⟨ho, hnow, hreading, -⟩ :=
      start_accepted hs hreads hstarted hfree hresult hstart
    · rw [maybeStartRead_of_outstanding hwaiting.writeOutstanding] at h
      obtain rfl := Option.some.inj h
      exact Or.inl ⟨ho, hmid', hwaiting⟩
    · rw [maybeStartRead_of_outstanding hrunning.writeOutstanding] at h
      obtain rfl := Option.some.inj h
      exact Or.inr (Or.inl ⟨ho, hlater, hmid', hrunning, hfree'⟩)
    · refine Or.inr (Or.inr ⟨ho, hnow, ?_⟩)
      rw [maybeStartRead_of_quiet hreading.writeOutstanding h]
      show mid.reads ++ [.until 0] = _
      rw [hreading.reads]
      rfl

theorem step_readDone {s s' : State κ} {index : ℕ} {error respondsNow : Bool}
    {byte : Option UInt8} (hs : Inv s)
    (h : step config s (.readDone index error byte respondsNow) = some s') :
    index = 0 ∧ ∃ read, Reading s read ∧
      handler config read error byte.toList.length respondsNow (completed 0 read byte s) =
        some s' := by
  simp only [step] at h
  split at h
  · exact nomatch h
  · rename_i read hread
    obtain ⟨rfl, hreading⟩ := hs.reading_of_getElem? hread
    exact ⟨rfl, read, hreading, h⟩

theorem inv_readDone {s s' : State κ} {index : ℕ} {error respondsNow : Bool}
    {byte : Option UInt8} (hs : Inv s)
    (hlater : RespondsLater s (.readDone index error byte respondsNow))
    (h : step config s (.readDone index error byte respondsNow) = some s') : Inv s' := by
  obtain ⟨rfl, read, hreading, h⟩ := step_readDone hs h
  obtain ⟨hquiet, hreads, hcallback, hstarted⟩ := hreading.completed byte
  cases read with
  | ignore =>
    obtain ⟨-, rfl⟩ | ⟨-, -, rfl⟩ :=
      ignoreUntilHandler_cases hcallback hquiet.writeOutstanding h
    · refine ⟨.reading (.until 0) ⟨⟨hquiet.1, hquiet.2, hquiet.3, hquiet.4⟩, ?_, rfl, hstarted⟩,
        hs.free⟩
      show (completed 0 Read.ignore byte s).reads ++ [.until 0] = _
      rw [hreads]
      rfl
    · refine ⟨.reading .ignore ⟨⟨hquiet.1, hquiet.2, hquiet.3, hquiet.4⟩, ?_, hcallback, hstarted⟩,
        hs.free⟩
      show (completed 0 Read.ignore byte s).reads ++ [.ignore] = _
      rw [hreads]
      rfl
  | «until» position =>
    -- what becomes of the state when the rest of the line is ignored
    have hignore : Inv (asyncIgnoreUntil { completed 0 (Read.until position) byte s with
        callback := some .maybeStartRead }) := by
      refine ⟨.reading .ignore ⟨⟨hquiet.1, hquiet.2, hquiet.3, hquiet.4⟩, ?_, rfl, hstarted⟩,
        hs.free⟩
      show (completed 0 (Read.until position) byte s).reads ++ [.ignore] = _
      rw [hreads]
      rfl
    obtain ⟨-, rfl⟩ | ⟨rfl, c, hc, ⟨hdelimiter, mid, hmid, hread⟩ | ⟨-, -, rfl⟩ | ⟨-, -, rfl⟩⟩ :=
      readUntilHandler_cases hcallback h
    · exact hignore
    · obtain ⟨-, rfl⟩ | ⟨hsplit, result, hresult, ⟨ho, -, hwaiting⟩ | ⟨-, -, -, hrunning, hfree⟩ |
          ⟨ho, rfl, -⟩⟩ := line_cases hquiet hreads hstarted hs.free hmid hread
      · exact ⟨.reading (.until 0) ⟨⟨hquiet.1, hquiet.2, hquiet.3, hquiet.4⟩, rfl, rfl, hstarted⟩,
          hs.free⟩
      · refine ⟨.waiting hwaiting, fun hfree => ?_⟩
        exact absurd (hwaiting.owned.symm.trans hfree) (by decide)
      · exact ⟨.running hrunning, hfree⟩
      · have hcalls : calls s 0 byte = true := by
          simp only [calls, hreading.reads, List.getElem?_cons_zero, Bool.and_eq_true]
          have hfree : s.writeStream.outstanding = false := ho
          refine ⟨⟨?_, by simpa using hsplit⟩, by simp [hfree]⟩
          rw [hc]
          exact hdelimiter
        exact absurd (hcalls.symm.trans hlater) (by decide)
    · exact hignore
    · refine ⟨.reading (.until (position + 1))
        ⟨⟨hquiet.1, hquiet.2, hquiet.3, hquiet.4⟩, ?_, hcallback, hstarted⟩, hs.free⟩
      show (completed 0 (Read.until position) byte s).reads ++ [.until (position + 1)] = _
      rw [hreads]
      rfl

theorem inv_respond {s s' : State κ} (hs : Inv s) (h : step config s .respond = some s') :
    Inv s' := by
  simp only [step] at h
  split at h
  · rename_i hr
    have hrunning := hs.running_of_running hr
    obtain ⟨writeStream, hwaiting, hfree, rfl⟩ := respond_eq_some hrunning.waiting h
    refine ⟨.reading (.until 0)
      ⟨⟨rfl, hrunning.currentCommand, rfl, hwaiting⟩, ?_, rfl, hrunning.started⟩, hfree⟩
    show s.reads ++ [.until 0] = _
    rw [hrunning.reads]
    rfl
  · exact nomatch h

theorem inv_lock {s s' : State κ} (hs : Inv s) (h : step config s .lock = some s') : Inv s' := by
  obtain ⟨writeStream, houtstanding, -, hcount, rfl⟩ := step_lock h
  have hmem : .command ∈ writeStream.waiting ↔ .command ∈ s.writeStream.waiting := by
    rw [← List.count_pos_iff, ← List.count_pos_iff, hcount]
  refine ⟨?_, fun hfree => absurd (houtstanding.symm.trans hfree) (by decide)⟩
  cases hs.phase with
  | fresh hquiet hreads hstarted =>
    exact .fresh ⟨hquiet.1, hquiet.2, hquiet.3, fun h => hquiet.4 (hmem.mp h)⟩ hreads hstarted
  | reading read hr =>
    exact .reading read ⟨⟨hr.1.1, hr.1.2, hr.1.3, fun h => hr.1.4 (hmem.mp h)⟩, hr.reads,
      hr.callback, hr.started⟩
  | waiting hw =>
    exact .waiting { hw with owned := houtstanding, waiting := hcount.trans hw.waiting }
  | running hr =>
    exact .running { hr with owned := houtstanding, waiting := fun h => hr.waiting (hmem.mp h) }

theorem inv_unlock {s s' : State κ} {respondsNow : Bool} (hs : Inv s)
    (h : step config s (.unlock respondsNow) = some s') : Inv s' := by
  obtain ⟨hrunning, -, result, hresult, hstart⟩ := step_unlock h
  -- without a command that waits, only the write stream changes
  have hother : .command ∉ s.writeStream.waiting →
      (result.1.outstanding = false → result.1.waiting = []) ∧ .command ∉ result.1.waiting ∧
        s' = { s with writeStream := result.1 } := by
    intro hwaiting
    obtain ⟨hcall, hne, hmem, hfree⟩ := release_of_not_waiting (κ := κ) hwaiting hresult
    rw [start, hcall, if_neg (fun h => hne h.1)] at hstart
    exact ⟨hfree, hmem, (Option.some.inj hstart).symm⟩
  cases hs.phase with
  | fresh hquiet hreads hstarted =>
    obtain ⟨hfree, hmem, rfl⟩ := hother hquiet.waiting
    exact ⟨.fresh ⟨hquiet.1, hquiet.2, hquiet.3, hmem⟩ hreads hstarted, hfree⟩
  | reading read hr =>
    obtain ⟨hfree, hmem, rfl⟩ := hother hr.waiting
    exact ⟨.reading read ⟨⟨hr.1.1, hr.1.2, hr.1.3, hmem⟩, hr.reads, hr.callback, hr.started⟩, hfree⟩
  | running hr => exact absurd (hrunning.symm.trans hr.running) (by decide)
  | waiting hw =>
    obtain ⟨hnone, -⟩ | ⟨operation, hoperation, houtstanding, hsplit⟩ :=
      AsyncExclusive.release_eq_some hresult
    · have hcount := hw.waiting
      rw [hnone] at hcount
      exact absurd hcount (by decide)
    · have hcount := hw.waiting
      rw [hsplit] at hcount
      have hfree : result.1.outstanding = false → result.1.waiting = [] :=
        fun hfree => absurd (houtstanding.symm.trans hfree) (by decide)
      rw [hoperation] at hstart
      cases operation with
      | other =>
        rw [start_other] at hstart
        obtain rfl := Option.some.inj hstart
        rw [List.count_cons_of_ne (by decide)] at hcount
        exact ⟨.waiting { hw with owned := houtstanding, waiting := hcount }, hfree⟩
      | command =>
        rw [List.count_cons_self] at hcount
        have hmem : Operation.command ∉ result.1.waiting :=
          List.count_eq_zero.mp (Nat.succ.inj hcount)
        have hrun : Running (call (some .command) { s with writeStream := result.1 }) :=
          ⟨hw.reads, hw.writeOutstanding, rfl, rfl, houtstanding, hmem, hw.started⟩
        cases respondsNow with
        | false =>
          simp only [start, Bool.false_eq_true, and_false, if_false] at hstart
          obtain rfl := Option.some.inj hstart
          exact ⟨.running hrun, hfree⟩
        | true =>
          simp only [start, and_self, if_true] at hstart
          obtain ⟨writeStream, hwaiting, hfree', rfl⟩ := respond_eq_some hmem hstart
          refine ⟨.reading (.until 0) ⟨⟨rfl, rfl, rfl, hwaiting⟩, ?_, rfl, hw.started⟩, hfree'⟩
          show s.reads ++ [.until 0] = _
          rw [hw.reads]
          rfl

theorem inv_asyncStart {s s' : State κ} (hs : Inv s) (h : step config s .asyncStart = some s') :
    Inv s' := by
  simp only [step] at h
  split at h
  · exact nomatch h
  · rename_i hnew
    cases hs.phase with
    | fresh hquiet hreads hstarted =>
      obtain rfl := maybeStartRead_of_quiet
        (s := { s with started := true }) hquiet.writeOutstanding h
      refine ⟨.reading (.until 0)
        ⟨⟨hquiet.1, hquiet.2, hquiet.3, hquiet.4⟩, ?_, rfl, rfl⟩, hs.free⟩
      show s.reads ++ [.until 0] = _
      rw [hreads]
      rfl
    | reading read hr => exact absurd hr.started hnew
    | waiting hw => exact absurd hw.started hnew
    | running hr => exact absurd hr.started hnew

/-- **Every step** in which no function responds inside the read handler keeps the invariant. -/
theorem inv_step (s : State κ) (event : Event) (s' : State κ) (hs : Inv s)
    (hlater : RespondsLater s event) (h : step config s event = some s') : Inv s' := by
  cases event with
  | asyncStart => exact inv_asyncStart hs h
  | readDone index error byte respondsNow => exact inv_readDone hs hlater h
  | respond => exact inv_respond hs h
  | lock => exact inv_lock hs h
  | unlock respondsNow => exact inv_unlock hs h

/-! ### Every run -/

/-- At most one read is outstanding, and none while a command waits or runs. -/
def SingleRead (s : State κ) : Prop :=
  s.reads.length ≤ 1 ∧ (s.currentCommand.isSome ∨ s.running = true → s.reads = [])

theorem Inv.singleRead {s : State κ} (hs : Inv s) : SingleRead s := by
  cases hs.phase with
  | fresh hquiet hreads => exact ⟨by simp [hreads], fun _ => hreads⟩
  | reading read hr =>
    refine ⟨by simp [hr.reads], ?_⟩
    rintro (h | h)
    · rw [hr.currentCommand] at h
      exact absurd h Bool.false_ne_true
    · exact absurd (hr.running.symm.trans h) (by decide)
  | waiting hw => exact ⟨by simp [hw.reads], fun _ => hw.reads⟩
  | running hr => exact ⟨by simp [hr.reads], fun _ => hr.reads⟩

/-- A response inside the read handler leaves two reads. -/
theorem not_singleRead_of_calls {s s' : State κ} {event : Event} (hs : Inv s)
    (hnow : ¬ RespondsLater s event) (h : step config s event = some s') : ¬ SingleRead s' := by
  rcases event with _ | ⟨index, error, byte, respondsNow⟩ | _ | _ | _
  · exact absurd trivial hnow
  · cases error <;> cases respondsNow
    · exact absurd trivial hnow
    · have hcalls : calls s index byte = true := by simpa [RespondsLater] using hnow
      obtain ⟨rfl, read, hreading, h⟩ := step_readDone hs h
      obtain ⟨hquiet, hreads, hcallback, hstarted⟩ := hreading.completed byte
      cases read with
      | ignore => simp [calls, hreading.reads] at hcalls
      | «until» position =>
        simp only [calls, hreading.reads, List.getElem?_cons_zero, Bool.and_eq_true] at hcalls
        obtain ⟨⟨hdelimiter, hsplit⟩, hfree⟩ := hcalls
        obtain ⟨herror, -⟩ | ⟨-, c, hc, ⟨-, mid, hmid, hread⟩ | ⟨hno, -⟩ | ⟨hno, -⟩⟩ :=
          readUntilHandler_cases hcallback h
        · exact absurd herror (by decide)
        · obtain ⟨hnil, -⟩ | ⟨-, result, hresult, ⟨ho, -⟩ | ⟨-, hlater, -⟩ | ⟨-, -, htwo⟩⟩ :=
            line_cases hquiet hreads hstarted hs.free hmid hread
          · exact absurd hnil (by simpa using hsplit)
          · exact absurd (show s.writeStream.outstanding = true from ho) (by simpa using hfree)
          · exact absurd hlater (by decide)
          · intro hsingle
            have hlength := hsingle.1
            rw [htwo] at hlength
            exact absurd hlength (by decide)
        · rw [hc, Option.any_some, hno] at hdelimiter
          exact absurd hdelimiter (by decide)
        · rw [hc, Option.any_some, hno] at hdelimiter
          exact absurd hdelimiter (by decide)
    · exact absurd trivial hnow
    · exact absurd trivial hnow
  · exact absurd trivial hnow
  · exact absurd trivial hnow
  · exact absurd trivial hnow

/-- **A single read.** In a run of a command manager at most one read is outstanding throughout, and
none while a command waits or runs, exactly when no function that the read handler calls responds
before it returns. -/
theorem singleRead_iff (config : Config κ) (lineBuffer : Bytes) (events : List Event)
    (t : State κ) (h : Run.run (step config) (init lineBuffer) events = some t) :
    Run.Always (step config) SingleRead (init lineBuffer) events ↔
      Run.Guarded (step config) RespondsLater (init lineBuffer) events :=
  Run.always_iff_guarded (fun _ hs => hs.singleRead) inv_step
    (fun _ _ _ hs hnow hstep => not_singleRead_of_calls hs hnow hstep) (inv_init lineBuffer) h

/-- The command `a` of a command manager with short lines. -/
def shortConfig : Config Unit := { maxLineLength := 8, registry := [([0x61], ())] }

/-- A command that responds after the read handler has returned. -/
theorem singleRead_later :
    Run.Always (step shortConfig) SingleRead (init (List.replicate 8 0))
      [.asyncStart, .readDone 0 false (some 0x61) false, .readDone 0 false (some 0x0a) false,
        .respond] :=
  (singleRead_iff shortConfig (List.replicate 8 0)
    [.asyncStart, .readDone 0 false (some 0x61) false, .readDone 0 false (some 0x0a) false,
      .respond] _ rfl).mpr (by decide)

/-- A command that responds before it returns: two reads into the line buffer. -/
theorem not_singleRead :
    ∃ t, Run.run (step shortConfig) (init (List.replicate 8 0))
        [.asyncStart, .readDone 0 false (some 0x61) false, .readDone 0 false (some 0x0a) true] =
          some t ∧
      t.reads = [.until 0, .until 0] ∧ ¬ SingleRead t := by
  refine ⟨_, rfl, rfl, ?_⟩
  intro hsingle
  exact absurd hsingle.1 (by decide)

end Mjlib.Micro.CommandManager

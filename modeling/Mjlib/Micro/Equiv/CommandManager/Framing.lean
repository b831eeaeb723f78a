import Mjlib.Micro.Equiv.CommandManager.SingleRead

/-!
# Which commands a command manager dispatches

The commands of a byte stream are its lines with a first token, those that are too long left out
(`commands`).  The manager dispatches them in order and one at a time (`dispatched_eq`), as long as
every read that is part of a line brings a byte, and no byte is zero: the helper looks into the
buffer where nothing has been read, and `strchr` takes the zero for a delimiter.
-/

namespace Mjlib.Micro.CommandManager

open Base

variable {κ : Type*} {config : Config κ}

/-! ### The lines of a stream -/

/-- The bytes that end a line. -/
def isLineEnd (c : UInt8) : Bool := c = 0x0d ∨ c = 0x0a

/-- The lines of a stream that have come to their end. -/
def lines (stream : Bytes) : List Bytes := (stream.splitOnP isLineEnd).dropLast

/-- What follows the last line. -/
def unfinished (stream : Bytes) : Bytes :=
  (stream.splitOnP isLineEnd).getLast (List.splitOnP_ne_nil isLineEnd stream)

/-- The first token of a line. -/
def firstToken (line : Bytes) : Bytes := line.takeWhile fun c => c ≠ 0x20

/-- The rest of a line: what follows the blank after the first token. -/
def argument (line : Bytes) : Bytes := line.drop ((firstToken line).length + 1)

/-- The command of a line: none if the line is too long, or has no first token. -/
def commandOf (config : Config κ) (line : Bytes) : Option (CommandFunction κ × Bytes) :=
  if line.length < config.maxLineLength ∧ firstToken line ≠ [] then
    some (find config (firstToken line), argument line)
  else none

/-- The commands of a stream. -/
def commands (config : Config κ) (stream : Bytes) : List (CommandFunction κ × Bytes) :=
  (lines stream).filterMap (commandOf config)

/-- A last element that is no separator joins the last part. -/
theorem splitOnP_concat_of_not {α : Type*} {p : α → Bool} {x : α} (h : p x = false)
    (xs : List α) :
    (xs ++ [x]).splitOnP p = (xs.splitOnP p).dropLast ++
      [(xs.splitOnP p).getLast (List.splitOnP_ne_nil p xs) ++ [x]] := by
  induction xs with
  | nil => simp [List.splitOnP_cons_eq_if_modifyHead, h]
  | cons y ys ih =>
    obtain ⟨part, parts, hparts⟩ := List.exists_cons_of_ne_nil (List.splitOnP_ne_nil p ys)
    cases hy : p y with
    | true => simp [List.splitOnP_cons_eq_if_modifyHead, hy, ih, hparts]
    | false =>
      cases parts with
      | nil => simp [List.splitOnP_cons_eq_if_modifyHead, hy, ih, hparts]
      | cons part' parts => simp [List.splitOnP_cons_eq_if_modifyHead, hy, ih, hparts]

theorem lines_concat_of_end {c : UInt8} (h : isLineEnd c = true) (stream : Bytes) :
    lines (stream ++ [c]) = lines stream ++ [unfinished stream] ∧
      unfinished (stream ++ [c]) = [] := by
  have hsplit : (stream ++ [c]).splitOnP isLineEnd = stream.splitOnP isLineEnd ++ [[]] := by
    rw [List.splitOnP_append_cons stream [] h, List.splitOnP_nil]
  refine ⟨?_, by simp [unfinished, hsplit]⟩
  rw [lines, hsplit, List.dropLast_concat, lines, unfinished, List.dropLast_concat_getLast]

theorem lines_concat_of_not {c : UInt8} (h : isLineEnd c = false) (stream : Bytes) :
    lines (stream ++ [c]) = lines stream ∧
      unfinished (stream ++ [c]) = unfinished stream ++ [c] := by
  have hsplit := splitOnP_concat_of_not h stream
  exact ⟨by simp [lines, hsplit], by simp [unfinished, hsplit]⟩

theorem commands_concat_of_end {c : UInt8} (h : isLineEnd c = true) (stream : Bytes) :
    commands config (stream ++ [c]) =
      commands config stream ++ (commandOf config (unfinished stream)).toList := by
  rw [commands, (lines_concat_of_end h stream).1, List.filterMap_append, commands]
  cases hcommand : commandOf config (unfinished stream) with
  | none => simp [hcommand]
  | some command => simp [hcommand]

theorem commands_concat_of_not {c : UInt8} (h : isLineEnd c = false) (stream : Bytes) :
    commands config (stream ++ [c]) = commands config stream := by
  rw [commands, (lines_concat_of_not h stream).1, commands]

/-! ### The tokenizer -/

theorem isDelimiter_eq {c : UInt8} (h : c ≠ 0) : isDelimiter delimiters c = isLineEnd c := by
  simp [isDelimiter, delimiters, isLineEnd, h]

theorem takeWhile_isDelimiter {line : Bytes} (h : ∀ c ∈ line, c ≠ 0) :
    (line.takeWhile fun c => !isDelimiter [0x20] c) = firstToken line := by
  induction line with
  | nil => rfl
  | cons c line ih =>
    obtain ⟨hc, hline⟩ := List.forall_mem_cons.mp h
    by_cases hblank : c = 0x20
    · simp [firstToken, isDelimiter, hblank]
    · simpa [firstToken, isDelimiter, hblank, hc] using ih hline

/-- Away from zero bytes the tokenizer splits a line at its first blank. -/
theorem split_eq {line : Bytes} (h : ∀ c ∈ line, c ≠ 0) :
    split line = (firstToken line, argument line) := by
  cases line with
  | nil => rfl
  | cons c line =>
    simp only [split, Tokenizer.next, reduceCtorEq, if_false, takeWhile_isDelimiter h,
      Option.getD_some]
    rfl

/-! ### The buffer and the stream -/

/-- The command that waits. -/
def pending (s : State κ) : List (CommandFunction κ × Bytes) :=
  s.currentCommand.toList.map fun function => (function, s.groupArguments)

/-- What a read means for the buffer: it holds the line up to the position of the read, or the line
is too long to be kept. -/
def Read.Holds (config : Config κ) (lineBuffer line : Bytes) : Read → Prop
  | .until position => position = line.length ∧ lineBuffer.take position = line
  | .ignore => config.maxLineLength ≤ line.length ∧
      ∀ c ∈ lineBuffer.head?, isDelimiter delimiters c = false

/-- The state of a command manager that has followed its stream. -/
structure Framed (config : Config κ) (s : State κ) : Prop where
  length : s.lineBuffer.length = config.maxLineLength
  clean : ∀ c ∈ unfinished s.received, isDelimiter delimiters c = false
  dispatched : s.dispatched ++ pending s = commands config s.received
  reads : ∀ read ∈ s.reads, read.Holds config s.lineBuffer (unfinished s.received)
  between : s.reads = [] → unfinished s.received = []

theorem framed_init (config : Config κ) {lineBuffer : Bytes}
    (h : lineBuffer.length = config.maxLineLength) : Framed config (init lineBuffer) where
  length := h
  clean := by simp [init, unfinished]
  dispatched := by simp [init, pending, commands, lines]
  reads := by simp [init]
  between _ := by simp [init, unfinished]

/-- An event of a stream that completes its reads without an error, for functions that respond at
a later time. -/
def Admitted : Event → Prop
  | .readDone _ error _ respondsNow => error = false ∧ respondsNow = false
  | _ => True

/-- A completion that is safe: the byte it brings is not zero; if it brings none then the read is
not part of a line, or is the first of a line and finds a zero in the buffer, which starts it
again. -/
def Readable (s : State κ) : Event → Prop
  | .readDone _ _ (some c) _ => c ≠ 0
  | .readDone index _ none _ =>
    match s.reads[index]? with
    | some (.until position) => position = 0 ∧ s.lineBuffer.head? = some 0
    | _ => True
  | _ => True

instance Admitted.decidable : (event : Event) → Decidable (Admitted event)
  | .readDone _ error _ respondsNow =>
    inferInstanceAs (Decidable (error = false ∧ respondsNow = false))
  | .asyncStart => isTrue trivial
  | .respond => isTrue trivial
  | .lock => isTrue trivial
  | .unlock _ => isTrue trivial

instance Readable.decidable (s : State κ) : (event : Event) → Decidable (Readable s event)
  | .readDone _ _ (some c) _ => inferInstanceAs (Decidable (c ≠ 0))
  | .readDone index _ none _ =>
    match h : s.reads[index]? with
    | some (.until position) =>
      decidable_of_iff (position = 0 ∧ s.lineBuffer.head? = some 0) (by simp [Readable, h])
    | some .ignore => isTrue (by simp [Readable, h])
    | none => isTrue (by simp [Readable, h])
  | .asyncStart => isTrue trivial
  | .respond => isTrue trivial
  | .lock => isTrue trivial
  | .unlock _ => isTrue trivial

theorem ne_zero_of_clean {line : Bytes} (h : ∀ c ∈ line, isDelimiter delimiters c = false) :
    ∀ c ∈ line, c ≠ 0 := by
  rintro c hc rfl
  exact absurd (h 0 hc) (by decide)

theorem take_set_succ {lineBuffer : Bytes} {position : ℕ} (c : UInt8)
    (h : position < lineBuffer.length) :
    (lineBuffer.set position c).take (position + 1) = lineBuffer.take position ++ [c] := by
  rw [List.take_succ_eq_append_getElem (by simpa using h), List.getElem_set_self,
    List.take_set_of_le le_rfl]

/-- The command of a line that ends at its place in the buffer. -/
theorem commandOf_eq (config : Config κ) {line : Bytes} (h : ∀ c ∈ line, isDelimiter delimiters c = false)
    (hlength : line.length < config.maxLineLength) :
    commandOf config line =
      if (split line).1 = [] then none
      else some (find config (split line).1, (split line).2) := by
  rw [split_eq (ne_zero_of_clean h), commandOf]
  by_cases htoken : firstToken line = []
  · simp [htoken]
  · simp [htoken, hlength]

/-! ### One step -/

theorem pending_of_quiet {s : State κ} (hs : Quiet s) : pending s = [] := by
  simp [pending, hs.currentCommand]

/-- A read that is not complete without a byte changes nothing. -/
theorem framed_retry {s s' : State κ} {position : ℕ} (hs : Framed config s) (hinv : Inv s)
    (hreading : Reading s (.until position)) (hposition : position = 0)
    (hzero : s.lineBuffer.head? = some 0)
    (h : readUntilHandler config position false 0 false
      (completed 0 (.until position) none s) = some s') : Framed config s' := by
  subst hposition
  obtain ⟨hquiet, hreads, hcallback, hstarted⟩ := hreading.completed none
  have hsplit : (split ((completed 0 (Read.until 0) none s).lineBuffer.take 0)).1 = [] := rfl
  have hreceived : (completed 0 (Read.until 0) none s).received = s.received :=
    List.append_nil _
  obtain ⟨herror, -⟩ | ⟨-, c, hc, hcases⟩ := readUntilHandler_cases hcallback h
  · exact absurd herror (by decide)
  · have hc' : s.lineBuffer[0]? = some c := hc
    rw [← List.head?_eq_getElem?, hzero] at hc'
    obtain rfl := Option.some.inj hc'
    obtain ⟨-, mid, hmid, hread⟩ | ⟨hno, -⟩ | ⟨hno, -⟩ := hcases
    · obtain ⟨-, rfl⟩ | ⟨hne, -⟩ := line_cases hquiet hreads hstarted hinv.free hmid hread
      · obtain ⟨-, hholds⟩ := hs.reads (.until 0) (by rw [hreading.reads]; exact .head _)
        have hnil : unfinished s.received = [] := hholds.symm
        refine ⟨hs.length, ?_, ?_, ?_, nofun⟩
        · rw [hreceived]
          exact hs.clean
        · rw [hreceived]
          exact hs.dispatched
        · intro read hread
          obtain rfl := List.mem_singleton.mp hread
          rw [hreceived, hnil]
          exact ⟨rfl, rfl⟩
      · exact absurd hsplit hne
    · exact absurd hno (by decide)
    · exact absurd hno (by decide)

/-- The stream has come to the end of a line. -/
theorem Framed.of_end {s' : State κ} {stream : Bytes} {c : UInt8} (hend : isLineEnd c = true)
    (hreceived : s'.received = stream ++ [c])
    (hlength : s'.lineBuffer.length = config.maxLineLength)
    (hdispatched : s'.dispatched ++ pending s' =
      commands config stream ++ (commandOf config (unfinished stream)).toList)
    (hreads : ∀ read ∈ s'.reads, read = .until 0) : Framed config s' := by
  obtain ⟨-, hrest⟩ := lines_concat_of_end hend stream
  rw [← hreceived] at hrest
  refine ⟨hlength, ?_, ?_, ?_, fun _ => hrest⟩
  · rw [hrest]
    exact nofun
  · rw [hdispatched, hreceived, commands_concat_of_end hend]
  · intro read hread
    rw [hreads read hread, hrest]
    exact ⟨rfl, rfl⟩

/-- The line goes on. -/
theorem Framed.of_more {s s' : State κ} {c : UInt8} (hs : Framed config s) (hc : c ≠ 0)
    (hmore : isLineEnd c = false) (hreceived : s'.received = s.received ++ [c])
    (hlength : s'.lineBuffer.length = config.maxLineLength)
    (hdispatched : s'.dispatched ++ pending s' = s.dispatched ++ pending s)
    (read : Read) (hreads : s'.reads = [read])
    (hholds : read.Holds config s'.lineBuffer (unfinished s.received ++ [c])) :
    Framed config s' := by
  obtain ⟨-, hrest⟩ := lines_concat_of_not hmore s.received
  rw [← hreceived] at hrest
  refine ⟨hlength, ?_, ?_, ?_, fun hnil => ?_⟩
  · rw [hrest]
    intro d hd
    obtain hd | hd := List.mem_append.mp hd
    · exact hs.clean d hd
    · rw [List.mem_singleton.mp hd, isDelimiter_eq hc, hmore]
  · rw [hdispatched, hs.dispatched, hreceived, commands_concat_of_not hmore]
  · intro read' hread'
    rw [hreads] at hread'
    rw [List.mem_singleton.mp hread', hrest]
    exact hholds
  · rw [hreads] at hnil
    exact absurd hnil (List.cons_ne_nil _ _)

/-- A byte of a line: it joins the line, or the line is too long, or it ends the line. -/
theorem framed_byte {s s' : State κ} {position : ℕ} {c : UInt8} (hs : Framed config s)
    (hinv : Inv s) (hreading : Reading s (.until position)) (hc : c ≠ 0)
    (h : readUntilHandler config position false 1 false
      (completed 0 (.until position) (some c) s) = some s') : Framed config s' := by
  obtain ⟨hquiet, hreads, hcallback, hstarted⟩ := hreading.completed (some c)
  obtain ⟨hposition, hholds⟩ := hs.reads (.until position) (by rw [hreading.reads]; exact .head _)
  have hdispatched : s.dispatched = commands config s.received := by
    simpa [pending_of_quiet hreading.toQuiet] using hs.dispatched
  obtain ⟨herror, -⟩ | ⟨-, c', hc', hcases⟩ := readUntilHandler_cases hcallback h
  · exact absurd herror (by decide)
  have hc'' : (s.lineBuffer.set position c)[position]? = some c' := hc'
  have hlt : position < s.lineBuffer.length := by
    have hbound := (List.getElem?_eq_some_iff.mp hc'').1
    simpa using hbound
  obtain rfl : c = c' := by simpa [List.getElem?_set_self hlt] using hc''
  have hlength : (s.lineBuffer.set position c).length = config.maxLineLength := by
    rw [List.length_set, hs.length]
  have htake := take_set_succ c hlt
  rw [hholds] at htake
  rw [isDelimiter_eq hc] at hcases
  obtain ⟨hend, mid, hmid, hread⟩ | ⟨hno, hfull, rfl⟩ | ⟨hno, -, rfl⟩ := hcases
  · -- the end of the line
    have hline : (completed 0 (Read.until position) (some c) s).lineBuffer.take
        (position + 1 - 1) = unfinished s.received := by
      show (s.lineBuffer.set position c).take position = _
      rw [List.take_set_of_le le_rfl, hholds]
    have hcommand := commandOf_eq config hs.clean
      (by rw [← hposition, ← hs.length]; exact hlt)
    have hcases := line_cases hquiet hreads hstarted hinv.free hmid hread
    rw [hline] at hcases
    obtain ⟨hsplit, rfl⟩ | ⟨hsplit, result, hresult, ⟨-, rfl, -⟩ | ⟨-, -, rfl, -⟩ | ⟨-, hnow, -⟩⟩ :=
      hcases
    · rw [if_pos hsplit] at hcommand
      refine Framed.of_end hend rfl hlength ?_ fun read hread => List.mem_singleton.mp hread
      rw [hcommand, ← hdispatched]
      show s.dispatched ++ pending s = _
      rw [pending_of_quiet hreading.toQuiet]
      rfl
    · -- the command waits
      rw [if_neg hsplit] at hcommand
      refine Framed.of_end hend rfl (List.length_replicate) ?_ ?_
      · rw [hcommand, ← hdispatched]
        rfl
      · show ∀ read ∈ (completed 0 (Read.until position) (some c) s).reads, _
        rw [hreads]
        exact nofun
    · -- its function has been called
      rw [if_neg hsplit] at hcommand
      refine Framed.of_end hend rfl (List.length_replicate) ?_ ?_
      · rw [hcommand, ← hdispatched]
        exact List.append_nil _
      · show ∀ read ∈ (completed 0 (Read.until position) (some c) s).reads, _
        rw [hreads]
        exact nofun
    · exact absurd hnow (by decide)
  · -- the line has no room for another byte
    refine hs.of_more hc hno rfl hlength rfl .ignore ?_ ⟨?_, fun d hd => ?_⟩
    · show (completed 0 (Read.until position) (some c) s).reads ++ [.ignore] = _
      rw [hreads]
      rfl
    · simp [← hposition, hfull]
    · have hd' : d ∈ (s.lineBuffer.set position c).head? := hd
      have hmem : d ∈ unfinished s.received ++ [c] := by
        rw [← htake]
        exact List.mem_of_mem_head? (by rw [List.head?_take, if_neg (by omega)]; exact hd')
      obtain hmem | hmem := List.mem_append.mp hmem
      · exact hs.clean d hmem
      · rw [List.mem_singleton.mp hmem, isDelimiter_eq hc, hno]
  · -- the byte joins the line
    refine hs.of_more hc hno rfl hlength rfl (.until (position + 1)) ?_ ⟨?_, htake⟩
    · show (completed 0 (Read.until position) (some c) s).reads ++ [.until (position + 1)] = _
      rw [hreads]
      rfl
    · simp [← hposition]

/-- A read that looks for the end of a line that is too long. -/
theorem framed_ignore {s s' : State κ} {byte : Option UInt8} (hs : Framed config s)
    (hreading : Reading s .ignore) (hbyte : ∀ c ∈ byte, c ≠ 0)
    (h : ignoreUntilHandler config false false (completed 0 .ignore byte s) = some s') :
    Framed config s' := by
  obtain ⟨hquiet, hreads, hcallback, -⟩ := hreading.completed byte
  obtain ⟨hlong, hhead⟩ := hs.reads .ignore (by rw [hreading.reads]; exact .head _)
  have hcases := ignoreUntilHandler_cases hcallback hquiet.writeOutstanding h
  cases byte with
  | none =>
    have hreceived : (completed 0 Read.ignore none s).received = s.received := List.append_nil _
    obtain ⟨herror | ⟨c, hc, hend⟩, -⟩ | ⟨-, -, rfl⟩ := hcases
    · exact absurd herror (by decide)
    · have hc' : s.lineBuffer[0]? = some c := hc
      rw [← List.head?_eq_getElem?] at hc'
      exact absurd ((hhead c hc').symm.trans hend) (by decide)
    · refine ⟨hs.length, ?_, ?_, ?_, ?_⟩
      · show ∀ c ∈ unfinished (completed 0 Read.ignore none s).received, _
        rw [hreceived]
        exact hs.clean
      · show s.dispatched ++ pending s =
          commands config (completed 0 Read.ignore none s).received
        rw [hreceived]
        exact hs.dispatched
      · intro read hread
        have hread' : read ∈ (completed 0 Read.ignore none s).reads ++ [.ignore] := hread
        rw [hreads] at hread'
        obtain rfl := List.mem_singleton.mp hread'
        show Read.ignore.Holds config s.lineBuffer
          (unfinished (completed 0 Read.ignore none s).received)
        rw [hreceived]
        exact ⟨hlong, hhead⟩
      · intro hnil
        exact absurd hnil (by simp [asyncIgnoreUntil])
  | some c =>
    have hc : c ≠ 0 := hbyte c rfl
    have hlength : (s.lineBuffer.set 0 c).length = config.maxLineLength := by
      rw [List.length_set, hs.length]
    have hset : ∀ d, (s.lineBuffer.set 0 c)[0]? = some d → d = c := by
      intro d hd
      rw [List.getElem?_set_self' ] at hd
      cases hbuffer : s.lineBuffer[0]? with
      | none => simp [hbuffer] at hd
      | some e => simpa [hbuffer, eq_comm] using hd
    obtain ⟨herror | ⟨d, hd, hend⟩, rfl⟩ | ⟨-, ⟨d, hd, hno⟩, rfl⟩ := hcases
    · exact absurd herror (by decide)
    · -- the end of the line that was too long
      obtain rfl := hset d hd
      rw [isDelimiter_eq hc] at hend
      refine Framed.of_end hend rfl hlength ?_ ?_
      · have hnone : commandOf config (unfinished s.received) = none := by
          rw [commandOf, if_neg]
          omega
        rw [hnone, ← hs.dispatched]
        exact (List.append_nil _).symm
      · show ∀ read ∈ (completed 0 Read.ignore (some d) s).reads ++ [.until 0], _
        rw [hreads]
        exact fun read hread => List.mem_singleton.mp hread
    · obtain rfl := hset d hd
      rw [isDelimiter_eq hc] at hno
      refine hs.of_more hc hno rfl hlength rfl .ignore ?_ ⟨?_, fun e he => ?_⟩
      · show (completed 0 Read.ignore (some d) s).reads ++ [.ignore] = _
        rw [hreads]
        rfl
      · rw [List.length_append]
        omega
      · have he' : (s.lineBuffer.set 0 d)[0]? = some e := by
          rw [← List.head?_eq_getElem?]
          exact he
        rw [hset e he', isDelimiter_eq hc, hno]

/-- A call of an operation moves the command that waited to those that were dispatched. -/
theorem Framed.call {s : State κ} (hs : Framed config s) (operation : Option Operation) :
    Framed config (call operation s) := by
  rcases operation with _ | _ | _
  · exact hs
  · refine ⟨hs.length, hs.clean, ?_, hs.reads, hs.between⟩
    show (s.dispatched ++ pending s) ++ [] = _
    rw [List.append_nil]
    exact hs.dispatched
  · exact hs

theorem framed_respond {s s' : State κ} (hs : Framed config s) (hreads : s.reads = [])
    (hwaiting : .command ∉ s.writeStream.waiting) (h : respond config s = some s') :
    Framed config s' := by
  obtain ⟨writeStream, -, -, rfl⟩ := respond_eq_some hwaiting h
  refine ⟨hs.length, hs.clean, hs.dispatched, ?_, fun _ => hs.between hreads⟩
  intro read hread
  have hread' : read ∈ s.reads ++ [.until 0] := hread
  rw [hreads] at hread'
  obtain rfl := List.mem_singleton.mp hread'
  show (Read.until 0).Holds config s.lineBuffer (unfinished s.received)
  rw [hs.between hreads]
  exact ⟨rfl, rfl⟩

theorem framed_unlock {s s' : State κ} {respondsNow : Bool} (hs : Framed config s) (hinv : Inv s)
    (h : step config s (.unlock respondsNow) = some s') : Framed config s' := by
  obtain ⟨-, -, result, hresult, hstart⟩ := step_unlock h
  have hstream : Framed config { s with writeStream := result.1 } :=
    ⟨hs.length, hs.clean, hs.dispatched, hs.reads, hs.between⟩
  simp only [start] at hstart
  split at hstart
  · -- the function of the command that waited has responded already
    rename_i hnow
    obtain ⟨-, rfl⟩ | ⟨operation, hoperation, -, hsplit⟩ := AsyncExclusive.release_eq_some hresult
    · cases hnow.1
    · obtain rfl : operation = .command := Option.some.inj (hoperation.symm.trans hnow.1)
      have hw := hinv.waiting_of_mem (by rw [hsplit]; exact .head _)
      have hcount := hw.waiting
      rw [hsplit, List.count_cons_self] at hcount
      have hmem : Operation.command ∉ result.1.waiting :=
        List.count_eq_zero.mp (Nat.succ.inj hcount)
      rw [hoperation] at hstart
      exact framed_respond (hstream.call (some .command)) hw.reads hmem hstart
  · obtain rfl := Option.some.inj hstart
    exact hstream.call _

/-- **Every step** that is safe keeps the manager in step with its stream. -/
theorem framed_step (s : State κ) (event : Event) (s' : State κ) (hs : Framed config s ∧ Inv s)
    (hsafe : Readable s event ∧ Admitted event) (h : step config s event = some s') :
    Framed config s' ∧ Inv s' := by
  obtain ⟨hs, hinv⟩ := hs
  obtain ⟨hreadable, hadmitted⟩ := hsafe
  have hlater : RespondsLater s event := by
    cases event with
    | readDone index error byte respondsNow =>
      obtain ⟨rfl, rfl⟩ := hadmitted
      trivial
    | _ => trivial
  refine ⟨?_, inv_step s event s' hinv hlater h⟩
  cases event with
  | asyncStart =>
    simp only [step] at h
    split at h
    · cases h
    · rename_i hnew
      cases hinv.phase with
      | fresh hquiet hreads =>
        obtain rfl := maybeStartRead_of_quiet
          (s := { s with started := true }) hquiet.writeOutstanding h
        refine ⟨hs.length, hs.clean, hs.dispatched, ?_, fun _ => hs.between hreads⟩
        intro read hread
        have hread' : read ∈ s.reads ++ [.until 0] := hread
        rw [hreads] at hread'
        obtain rfl := List.mem_singleton.mp hread'
        show (Read.until 0).Holds config s.lineBuffer (unfinished s.received)
        rw [hs.between hreads]
        exact ⟨rfl, rfl⟩
      | reading read hr => exact absurd hr.started hnew
      | waiting hw => exact absurd hw.started hnew
      | running hr => exact absurd hr.started hnew
  | readDone index error byte respondsNow =>
    obtain ⟨rfl, rfl⟩ := hadmitted
    obtain ⟨rfl, read, hreading, h⟩ := step_readDone hinv h
    cases read with
    | ignore =>
      refine framed_ignore hs hreading (fun c hc => ?_) h
      obtain rfl : byte = some c := hc
      exact hreadable
    | «until» position =>
      cases byte with
      | none =>
        simp only [Readable, hreading.reads, List.getElem?_cons_zero] at hreadable
        obtain ⟨rfl, hzero⟩ := hreadable
        exact framed_retry hs hinv hreading rfl hzero h
      | some c => exact framed_byte hs hinv hreading hreadable h
  | respond =>
    simp only [step] at h
    split at h
    · rename_i hrunning
      have hr := hinv.running_of_running hrunning
      exact framed_respond hs hr.reads hr.waiting h
    · cases h
  | lock =>
    obtain ⟨writeStream, -, -, -, rfl⟩ := step_lock h
    exact ⟨hs.length, hs.clean, hs.dispatched, hs.reads, hs.between⟩
  | unlock respondsNow => exact framed_unlock hs hinv h

/-! ### Every run -/

/-- While a function runs no command waits, and no other function is called until it responds. -/
theorem dispatched_of_running {s s' : State κ} {event : Event} (hinv : Inv s)
    (hrunning : s.running = true) (h : step config s event = some s') :
    pending s = [] ∧ s'.dispatched = s.dispatched := by
  have hr := hinv.running_of_running hrunning
  refine ⟨by simp [pending, hr.currentCommand], ?_⟩
  cases event with
  | asyncStart => simp [step, hr.started] at h
  | readDone index error byte respondsNow => simp [step, hr.reads] at h
  | respond =>
    simp only [step, hrunning, if_true] at h
    obtain ⟨writeStream, -, -, rfl⟩ := respond_eq_some hr.waiting h
    rfl
  | lock =>
    obtain ⟨writeStream, -, -, -, rfl⟩ := step_lock h
    rfl
  | unlock respondsNow =>
    obtain ⟨hno, -⟩ := step_unlock h
    exact absurd (hno.symm.trans hrunning) (by decide)

/-- **Line framing.** In a run of safe completions the functions that have been called and the
command that waits are the commands of the bytes that have been read, in order; and while a function
runs no other one is called. -/
theorem dispatched_eq (config : Config κ) (lineBuffer : Bytes) (events : List Event) (s : State κ)
    (hlength : lineBuffer.length = config.maxLineLength)
    (hadmitted : ∀ event ∈ events, Admitted event)
    (hsafe : Run.Guarded (step config) Readable (init lineBuffer) events)
    (h : Run.run (step config) (init lineBuffer) events = some s) :
    s.dispatched ++ pending s = commands config s.received ∧
    (s.running = true → pending s = []) ∧
    ∀ event s', s.running = true → step config s event = some s' →
      s'.dispatched = s.dispatched := by
  have hboth : Framed config s ∧ Inv s := Run.run_induction_of_guarded framed_step
    ⟨framed_init config hlength, inv_init lineBuffer⟩
    (Run.guarded_and_of_forall hsafe hadmitted) h
  obtain ⟨hs, hinv⟩ := hboth
  refine ⟨hs.dispatched, fun hrunning => ?_, fun event s' hrunning hstep => ?_⟩
  · simp [pending, (hinv.running_of_running hrunning).currentCommand]
  · exact (dispatched_of_running hinv hrunning hstep).2

/-- A command with an argument, whose function has been called. -/
theorem dispatched_eq_short :
    ∃ s, Run.run (step shortConfig) (init (List.replicate 8 0))
        [.asyncStart, .readDone 0 false (some 0x61) false, .readDone 0 false (some 0x20) false,
          .readDone 0 false (some 0x62) false, .readDone 0 false (some 0x0a) false] = some s ∧
      s.dispatched ++ pending s = [(.registered (), [0x62])] := by
  refine ⟨_, rfl, ?_⟩
  rw [(dispatched_eq shortConfig (List.replicate 8 0)
    [.asyncStart, .readDone 0 false (some 0x61) false, .readDone 0 false (some 0x20) false,
      .readDone 0 false (some 0x62) false, .readDone 0 false (some 0x0a) false] _ rfl
    (by decide) (by decide) rfl).1]
  decide

/-- The line `a\0b` is two commands; and a read without a byte, after an `a`, loses the `a`. -/
theorem dispatched_ne :
    (∃ s, Run.run (step shortConfig) (init (List.replicate 8 0))
        [.asyncStart, .readDone 0 false (some 0x61) false, .readDone 0 false (some 0) false,
          .respond, .readDone 0 false (some 0x62) false, .readDone 0 false (some 0x0a) false] =
        some s ∧
      lines s.received = [[0x61, 0, 0x62]] ∧
      s.dispatched = [(.registered (), []), (.unknownGroup, [])]) ∧
    ∃ s, Run.run (step shortConfig) (init (List.replicate 8 0))
        [.asyncStart, .readDone 0 false (some 0x61) false, .readDone 0 false none false,
          .readDone 0 false (some 0x0a) false] = some s ∧
      commands shortConfig s.received = [(.registered (), [])] ∧ s.dispatched ++ pending s = [] :=
  ⟨⟨_, rfl, by decide, by decide⟩, ⟨_, rfl, by decide, by decide⟩⟩

end Mjlib.Micro.CommandManager

import Mjlib.Multiplex.Equiv.MicroStreamDatagram.TryEmitOneFrame

/-!
# Does the receiver keep reading?

A pending datagram read needs an outstanding `AsyncReadSome` (`Armed`), or nothing can ever complete
it.  `StartReadFrame` is skipped whenever `TryEmitOneFrame` returns true, and that is also what it
returns after throwing away a false start, where no callback is invoked: `always_armed_iff` says
that a run keeps the receiver armed exactly when no step of it meets a false start, and
`not_always_armed` is a run of two steps that stalls.
-/

namespace Mjlib.Multiplex.MicroStreamDatagram

variable {crc : Bytes → UInt16} {o : Options}

/-- A pending datagram read has exactly one outstanding stream read. -/
def Armed (s : State) : Prop := s.currentRead.isSome → s.streamReads.length = 1

instance (s : State) : Decidable (Armed s) := inferInstanceAs (Decidable (_ → _))

/-- The invariant: stream reads are outstanding for a pending datagram read only. -/
def ReadsMatch (s : State) : Prop := s.streamReads.length = if s.currentRead.isSome then 1 else 0

theorem ReadsMatch.armed {s : State} (h : ReadsMatch s) : Armed s := by
  intro hs
  rwa [ReadsMatch, if_pos hs] at h

theorem readsMatch_init : ReadsMatch init := rfl

/-- Where a stream read has completed, it was the only one and a datagram read is pending. -/
theorem ReadsMatch.of_cons {s : State} {space : ℕ} {reads : List ℕ} (h : ReadsMatch s)
    (hs : s.streamReads = space :: reads) : s.currentRead.isSome ∧ reads = [] := by
  rw [ReadsMatch, hs, List.length_cons] at h
  split_ifs at h with hc
  exact ⟨hc, List.length_eq_zero_iff.mp (by omega)⟩

/-- The buffer on which the step calls `TryEmitOneFrame` does not have a false start at its first
start byte. -/
def NoFalseStart (s : State) : Action → Prop
  | .asyncRead _ => ¬ FalseStart s.readBuffer
  | .readSome bytes => ¬ FalseStart (s.readBuffer ++ bytes)
  | .readError => True

/-! ### One step -/

/-- `TryEmitOneFrame` and the re-arming after it, as both callers have them. -/
def emitOrRead (crc : Bytes → UInt16) (o : Options) (s : State) : State :=
  if (tryEmitOneFrame crc o s).1 then (tryEmitOneFrame crc o s).2
  else startReadFrame o (tryEmitOneFrame crc o s).2

theorem emitOrRead_readsMatch {s : State} (hr : s.streamReads = []) (hc : s.currentRead.isSome)
    (h : ¬ FalseStart s.readBuffer) : ReadsMatch (emitOrRead crc o s) := by
  have hout := tryEmitOneFrame_outcome crc o s
  unfold emitOrRead
  generalize tryEmitOneFrame crc o s = r at hout
  cases hout with
  | noHeader | wait | oversize | mismatch =>
    simp [ReadsMatch, startReadFrame, hr, hc]
  | falseStart hb hn hx => exact absurd ⟨_, _, _, hb, hn, hx⟩ h
  | frame => simp [ReadsMatch, invokeReadCallback, hr]

/-- A false start returns without a callback and without another stream read. -/
theorem emitOrRead_not_armed {s : State} (hr : s.streamReads = []) (hc : s.currentRead.isSome)
    (h : FalseStart s.readBuffer) : ¬ Armed (emitOrRead crc o s) := by
  obtain ⟨noise, x, t, hb, hn, hx⟩ := h
  have hemit : tryEmitOneFrame crc o s = (true, { s with readBuffer := t }) := by
    rw [tryEmitOneFrame_noise hb hn, tryEmitOneFrame_falseStart rfl hx]
  rw [emitOrRead, hemit, if_pos rfl]
  intro harmed
  have := harmed hc
  rw [hr] at this
  simp at this

/-- What a step does: it emits or reads on with what is buffered, or reports the stream's error. -/
theorem step_cases {s s' : State} {a : Action} (hs : ReadsMatch s)
    (h : step crc o s a = some s') :
    (∃ n, a = .asyncRead n ∧ s.currentRead = none ∧ s.streamReads = [] ∧
      s' = emitOrRead crc o { s with currentRead := some n }) ∨
    (∃ bytes space, a = .readSome bytes ∧ s.currentRead.isSome ∧ s.streamReads = [space] ∧
      bytes ≠ [] ∧ bytes.length ≤ space ∧
      s' = emitOrRead crc o { s with streamReads := [], readBuffer := s.readBuffer ++ bytes }) ∨
    (a = .readError ∧
      s' = { s with
        streamReads := [], readBuffer := [], currentRead := none,
        callbacks := s.callbacks ++ [.error] }) := by
  cases a with
  | asyncRead n =>
    rw [step] at h
    split_ifs at h with hc
    have hnone : s.currentRead = none := by simpa using hc
    rw [ReadsMatch, if_neg hc] at hs
    exact Or.inl ⟨n, rfl, hnone, List.length_eq_zero_iff.mp hs, (Option.some.inj h).symm⟩
  | readSome bytes =>
    cases hr : s.streamReads with
    | nil => simp [step, hr] at h
    | cons space reads =>
      obtain ⟨hc, rfl⟩ := hs.of_cons hr
      simp only [step, hr] at h
      split_ifs at h with hb
      exact Or.inr (Or.inl ⟨bytes, space, rfl, hc, rfl, fun h0 => hb (Or.inl h0),
        not_lt.mp fun h0 => hb (Or.inr h0), (Option.some.inj h).symm⟩)
  | readError =>
    cases hr : s.streamReads with
    | nil => simp [step, hr] at h
    | cons space reads =>
      obtain ⟨hc, rfl⟩ := hs.of_cons hr
      simp only [step, hr] at h
      exact Or.inr (Or.inr ⟨rfl, (Option.some.inj h).symm⟩)

theorem readsMatch_step {s s' : State} {a : Action} (hs : ReadsMatch s) (hG : NoFalseStart s a)
    (h : step crc o s a = some s') : ReadsMatch s' := by
  obtain ⟨n, rfl, -, hr, rfl⟩ | ⟨bytes, space, rfl, hc, hr, -, -, rfl⟩ | ⟨rfl, rfl⟩ :=
    step_cases hs h
  · exact emitOrRead_readsMatch hr rfl hG
  · exact emitOrRead_readsMatch rfl hc hG
  · rfl

theorem not_armed_step {s s' : State} {a : Action} (hs : ReadsMatch s) (hG : ¬ NoFalseStart s a)
    (h : step crc o s a = some s') : ¬ Armed s' := by
  obtain ⟨n, rfl, -, hr, rfl⟩ | ⟨bytes, space, rfl, hc, hr, -, -, rfl⟩ | ⟨rfl, rfl⟩ :=
    step_cases hs h
  · exact emitOrRead_not_armed hr rfl (not_not.mp hG)
  · exact emitOrRead_not_armed rfl hc (not_not.mp hG)
  · exact absurd trivial hG

/-! ### Runs -/

/-- **When the receiver stalls**: along a run from a new object every pending datagram read has its
stream read if and only if no step meets a false start. -/
theorem always_armed_iff (crc : Bytes → UInt16) (o : Options) {as : List Action} {t : State}
    (h : Run.run (step crc o) init as = some t) :
    Run.Always (step crc o) Armed init as ↔ Run.Guarded (step crc o) NoFalseStart init as :=
  Run.always_iff_guarded (fun _ => ReadsMatch.armed)
    (fun _ _ _ hs hG h => readsMatch_step hs hG h)
    (fun _ _ _ hs hG h => not_armed_step hs hG h) readsMatch_init h

/-- A read followed by the noise byte `55` keeps the receiver armed. -/
theorem always_armed_iff_noise :
    Run.Always (step (fun _ => 0) {}) Armed init [.asyncRead 16, .readSome [0x55]] ↔
      Run.Guarded (step (fun _ => 0) {}) NoFalseStart init [.asyncRead 16, .readSome [0x55]] :=
  always_armed_iff (fun _ => 0) {} (t := ⟨[], some 16, [256], [], 0⟩) rfl

/-- A start byte followed by `00` leaves a pending datagram read with no stream read. -/
theorem not_always_armed : ¬ ∀ (crc : Bytes → UInt16) (o : Options) (as : List Action) (t : State),
    Run.run (step crc o) init as = some t → Armed t := by
  intro h
  have := h (fun _ => 0) {} [.asyncRead 16, .readSome [0x54, 0x00]] ⟨[], some 16, [], [], 0⟩ rfl
  exact absurd this (by decide)

end Mjlib.Multiplex.MicroStreamDatagram

import Mjlib.Micro.Equiv.AsyncExclusive
import Mjlib.Micro.TelemetryManager

/-!
# `TelemetryManager` sends one element at a time

`MaybeStartSend` clears the flag of an element and asks for the write stream, which may call the
operation at once or when another user releases it.  The elements that were asked for are those that
were sent, and at most one that still waits; `outstanding_write_` is set exactly as long as such an
operation waits or owns the stream.

- `Inv`, `inv_step`: what holds in every state.
- `step_cases`: what a step asks for and sends.
-/

namespace Mjlib.Micro.TelemetryManager

open AsyncExclusive (Call)

/-! ### The sends among the operations -/

/-- The element that an operation sends. -/
def Operation.element? : Operation → Option ℕ
  | .send i => some i
  | .other => none

/-- The elements that these calls send. -/
def sends (calls : List (Call Operation)) : List ℕ :=
  calls.filterMap fun call => call.operation.element?

@[simp] theorem sends_nil : sends [] = [] := rfl

@[simp] theorem sends_append (calls calls' : List (Call Operation)) :
    sends (calls ++ calls') = sends calls ++ sends calls' :=
  List.filterMap_append

@[simp] theorem sends_send (number i : ℕ) (calls : List (Call Operation)) :
    sends (⟨number, .send i⟩ :: calls) = i :: sends calls := rfl

@[simp] theorem sends_other (number : ℕ) (calls : List (Call Operation)) :
    sends (⟨number, .other⟩ :: calls) = sends calls := rfl

theorem sends_perm {calls calls' : List (Call Operation)} (h : calls.Perm calls') :
    (sends calls).Perm (sends calls') :=
  h.filterMap _

namespace State

/-- The elements that were sent. -/
def sent (s : State) : List ℕ := s.emitted.map Emission.element

/-- The elements whose flag `MaybeStartSend` has cleared. -/
def asked (s : State) : List ℕ := sends s.writeStream.accepted

/-- The sends that wait for the write stream or own it. -/
def outstanding (s : State) : List ℕ :=
  sends s.writeStream.owners ++ sends s.writeStream.exclusive.waiting

/-- What `last_sent_` is, or will be when `MaybeStartSend` has returned. -/
def cursor (s : State) : ℕ := s.returning.getD s.lastSent

end State

open State

/-- What holds in every state of a run. -/
structure Inv (maxLockers : ℕ) (s : State) : Prop where
  stream : AsyncExclusive.Inv maxLockers s.writeStream
  sent : s.sent = sends s.writeStream.started
  asked : s.asked = s.sent ++ sends s.writeStream.exclusive.waiting
  idle : s.outstandingWrite = false → s.outstanding = []
  busy : s.outstandingWrite = true → ∃ i, s.outstanding = [i]
  release : ∀ number,
    s.writeRelease = some number ↔ ∃ i, s.writeStream.owners = [⟨number, .send i⟩]
  cursor : ∀ i, s.asked.getLast? = some i → s.cursor = i

theorem inv_init (maxLockers : ℕ) (elements : List Element) :
    Inv maxLockers (State.init maxLockers elements) where
  stream := AsyncExclusive.inv_init maxLockers
  sent := rfl
  asked := by
    simp [State.asked, State.sent, State.init, AsyncExclusive.State.init, AsyncExclusive.init,
      AsyncExclusive.waiting, List.reduceOption_replicate_none]
  idle _ := by
    simp [State.outstanding, State.init, AsyncExclusive.State.init, AsyncExclusive.init,
      AsyncExclusive.State.owners, AsyncExclusive.waiting, List.reduceOption_replicate_none]
  busy := nofun
  release number := by
    simp [State.init, AsyncExclusive.State.init, AsyncExclusive.State.owners]
  cursor _ h := nomatch h

/-! ### The write stream -/

variable {maxLockers i number : ℕ} {s s' : State} {operation : Operation}

/-- The manager when a request is started, or waits. -/
theorem useStream_asyncStart (hs : AsyncExclusive.Inv maxLockers s.writeStream)
    (h : s.useStream (.asyncStart operation) = some s') :
    ∃ writeStream, AsyncExclusive.Inv maxLockers writeStream ∧
      writeStream.accepted =
        s.writeStream.accepted ++ [⟨s.writeStream.accepted.length, operation⟩] ∧
      ((s.writeStream.owners = [] ∧ s.writeStream.exclusive.waiting = [] ∧
          writeStream.exclusive.waiting = [] ∧
          writeStream.owners = [⟨s.writeStream.accepted.length, operation⟩] ∧
          writeStream.started =
            s.writeStream.started ++ [⟨s.writeStream.accepted.length, operation⟩] ∧
          s' = call { s with writeStream := writeStream }
            ⟨s.writeStream.accepted.length, operation⟩) ∨
        (s.writeStream.owners ≠ [] ∧ writeStream.owners = s.writeStream.owners ∧
          writeStream.started = s.writeStream.started ∧
          writeStream.exclusive.waiting.Perm
            (⟨s.writeStream.accepted.length, operation⟩ :: s.writeStream.exclusive.waiting) ∧
          s' = { s with writeStream := writeStream })) := by
  obtain ⟨writeStream, hstep, rfl⟩ := Option.map_eq_some_iff.mp h
  obtain ⟨haccepted, hcases⟩ := AsyncExclusive.owners_of_asyncStart hs hstep
  refine ⟨writeStream, AsyncExclusive.inv_step _ _ _ hs hstep, haccepted, ?_⟩
  obtain ⟨hfree, hwaiting, hwaiting', howners, hstarted⟩ | ⟨hne, howners, hstarted, hperm⟩ := hcases
  · refine Or.inl ⟨hfree, hwaiting, hwaiting', howners, hstarted, ?_⟩
    rw [hstarted, List.drop_left]
    rfl
  · refine Or.inr ⟨hne, howners, hstarted, hperm, ?_⟩
    rw [hstarted, List.drop_length]
    rfl

/-- The manager when the owner releases. -/
theorem useStream_release (hs : AsyncExclusive.Inv maxLockers s.writeStream)
    (h : s.useStream (.release number) = some s') :
    ∃ writeStream, AsyncExclusive.Inv maxLockers writeStream ∧
      writeStream.accepted = s.writeStream.accepted ∧
      ∃ owner, owner.number = number ∧ s.writeStream.owners = [owner] ∧
      ((s.writeStream.exclusive.waiting = [] ∧ writeStream.exclusive.waiting = [] ∧
          writeStream.owners = [] ∧ writeStream.started = s.writeStream.started ∧
          s' = { s with writeStream := writeStream }) ∨
        ∃ next, s.writeStream.exclusive.waiting = next :: writeStream.exclusive.waiting ∧
          writeStream.owners = [next] ∧ writeStream.started = s.writeStream.started ++ [next] ∧
          s' = call { s with writeStream := writeStream } next) := by
  obtain ⟨writeStream, hstep, rfl⟩ := Option.map_eq_some_iff.mp h
  obtain ⟨haccepted, owner, hnumber, howner, hcases⟩ := AsyncExclusive.owners_of_release hs hstep
  refine ⟨writeStream, AsyncExclusive.inv_step _ _ _ hs hstep, haccepted, owner, hnumber, howner, ?_⟩
  obtain ⟨hwaiting, hwaiting', howners, hstarted⟩ | ⟨next, hwaiting, howners, hstarted⟩ := hcases
  · refine Or.inl ⟨hwaiting, hwaiting', howners, hstarted, ?_⟩
    rw [hstarted, List.drop_length]
    rfl
  · refine Or.inr ⟨next, hwaiting, howners, hstarted, ?_⟩
    rw [hstarted, List.drop_left]
    rfl

/-! ### What keeps the invariant -/

/-- What a step sends that asks for nothing. -/
inductive Progress (s s' : State) : Prop
  | quiet (hasked : s'.asked = s.asked) (hsent : s'.sent = s.sent)
  /-- It sends the element that was asked for before. -/
  | send (i : ℕ) (hwaits : s.asked = s.sent ++ [i]) (hasked : s'.asked = s.asked)
      (hsent : s'.sent = s.sent ++ [i])

/-- A step that asks for an element, and perhaps sends it: the first one that is flagged, when the
flags of the step are set. -/
structure Asks (s s' : State) (i : ℕ) : Prop where
  idle : s.asked = s.sent
  asked : s'.asked = s.asked ++ [i]
  sent : s'.sent = s.sent ∨ s'.sent = s.sent ++ [i]
  next : ∃ elements, elements.length = s.elements.length ∧
    (∀ j, flagged s.elements j = true → flagged elements j = true) ∧
    ({ s with elements := elements, lastSent := s.cursor } : State).toCheck = some i ∧
    s'.elements = elements.modify i fun element => { element with toSend := false }

/-- The flags and the rates play no part. -/
theorem Inv.withElements (hs : Inv maxLockers s) (elements : List Element) :
    Inv maxLockers { s with elements := elements } :=
  ⟨hs.stream, hs.sent, hs.asked, hs.idle, hs.busy, hs.release, hs.cursor⟩

theorem Inv.asked_eq_sent (hs : Inv maxLockers s) (h : s.outstandingWrite = false) :
    s.asked = s.sent := by
  have hwaiting := (List.append_eq_nil_iff.mp (hs.idle h)).2
  rw [hs.asked, hwaiting, List.append_nil]

/-- Another user's request. -/
theorem useStream_other (hs : Inv maxLockers s) (h : s.useStream (.asyncStart .other) = some s') :
    Inv maxLockers s' ∧ s'.elements = s.elements ∧ s'.asked = s.asked ∧ s'.sent = s.sent := by
  obtain ⟨writeStream, hstream, haccepted, hcases⟩ := useStream_asyncStart hs.stream h
  have hasked : sends writeStream.accepted = s.asked := by
    rw [haccepted, sends_append, sends_other, sends_nil, List.append_nil]
    rfl
  obtain ⟨hfree, hwaiting, hwaiting', howners, hstarted, rfl⟩ |
    ⟨-, howners, hstarted, hperm, rfl⟩ := hcases
  · refine ⟨⟨hstream, ?_, ?_, fun h => ?_, fun h => ?_, fun number => ?_, fun i hi => ?_⟩, rfl,
      hasked, rfl⟩
    · show s.sent = sends writeStream.started
      rw [hstarted, sends_append, sends_other, sends_nil, List.append_nil, hs.sent]
    · show sends writeStream.accepted = s.sent ++ sends writeStream.exclusive.waiting
      rw [hasked, hs.asked, hwaiting, hwaiting']
    · show sends writeStream.owners ++ sends writeStream.exclusive.waiting = []
      rw [howners, hwaiting']
      rfl
    · obtain ⟨i, hi⟩ := hs.busy h
      rw [State.outstanding, hfree, hwaiting] at hi
      exact nomatch hi
    · show s.writeRelease = some number ↔ ∃ i, writeStream.owners = [⟨number, .send i⟩]
      rw [hs.release, hfree, howners]
      simp
    · exact hs.cursor i (hasked ▸ hi)
  · have hsends : sends writeStream.exclusive.waiting = sends s.writeStream.exclusive.waiting := by
      have houtstanding : (sends s.writeStream.exclusive.waiting).length ≤ 1 := by
        cases ho : s.outstandingWrite with
        | false =>
          rw [(List.append_eq_nil_iff.mp (hs.idle ho)).2]
          exact Nat.zero_le 1
        | true =>
          obtain ⟨i, hi⟩ := hs.busy ho
          have hlength := congrArg List.length hi
          rw [State.outstanding, List.length_append, List.length_singleton] at hlength
          omega
      -- a permutation of one element
      have h := sends_perm hperm
      rw [sends_other] at h
      match hs : sends s.writeStream.exclusive.waiting, houtstanding with
      | [], _ => exact List.perm_nil.mp (hs ▸ h)
      | [i], _ => exact List.perm_singleton.mp (hs ▸ h)
    refine ⟨⟨hstream, ?_, ?_, fun h => ?_, fun h => ?_, fun number => ?_, fun i hi => ?_⟩, rfl,
      hasked, rfl⟩
    · show s.sent = sends writeStream.started
      rw [hstarted, hs.sent]
    · show sends writeStream.accepted = s.sent ++ sends writeStream.exclusive.waiting
      rw [hasked, hs.asked, hsends]
    · show sends writeStream.owners ++ sends writeStream.exclusive.waiting = []
      rw [howners, hsends]
      exact hs.idle h
    · show ∃ i, sends writeStream.owners ++ sends writeStream.exclusive.waiting = [i]
      rw [howners, hsends]
      exact hs.busy h
    · show s.writeRelease = some number ↔ ∃ i, writeStream.owners = [⟨number, .send i⟩]
      rw [howners]
      exact hs.release number
    · exact hs.cursor i (hasked ▸ hi)

/-- The owner releases, and whatever waits is called. -/
theorem inv_useStream_release (hstream : AsyncExclusive.Inv maxLockers s.writeStream)
    (hsent : s.sent = sends s.writeStream.started)
    (hasked : s.asked = s.sent ++ sends s.writeStream.exclusive.waiting)
    (hidle : s.outstandingWrite = false → sends s.writeStream.exclusive.waiting = [])
    (hbusy : s.outstandingWrite = true → ∃ i, sends s.writeStream.exclusive.waiting = [i])
    (hrelease : s.writeRelease = none) (hcursor : ∀ i, s.asked.getLast? = some i → s.cursor = i)
    (h : s.useStream (.release number) = some s') :
    Inv maxLockers s' ∧ s'.elements = s.elements ∧ Progress s s' := by
  obtain ⟨writeStream, hstream', haccepted, owner, -, -, hcases⟩ := useStream_release hstream h
  have hasked' : sends writeStream.accepted = s.asked := by rw [haccepted]; rfl
  obtain ⟨hwaiting, hwaiting', howners, hstarted, rfl⟩ |
    ⟨next, hwaiting, howners, hstarted, rfl⟩ := hcases
  · have hwrite : s.outstandingWrite = false := by
      by_contra hwrite
      obtain ⟨i, hi⟩ := hbusy (by simpa using hwrite)
      rw [hwaiting] at hi
      exact nomatch hi
    refine ⟨⟨hstream', ?_, ?_, fun _ => ?_, fun h => absurd (hwrite.symm.trans h) (by decide),
      fun number => ?_, fun i hi => hcursor i (hasked' ▸ hi)⟩, rfl, .quiet hasked' rfl⟩
    · show s.sent = sends writeStream.started
      rw [hstarted, hsent]
    · show sends writeStream.accepted = s.sent ++ sends writeStream.exclusive.waiting
      rw [hasked', hasked, hwaiting, hwaiting']
    · show sends writeStream.owners ++ sends writeStream.exclusive.waiting = []
      rw [howners, hwaiting']
      rfl
    · show s.writeRelease = some number ↔ ∃ i, writeStream.owners = [⟨number, .send i⟩]
      rw [hrelease, howners]
      simp
  · obtain ⟨number', operation⟩ := next
    cases operation with
    | other =>
      rw [hwaiting, sends_other] at hasked hidle hbusy
      refine ⟨⟨hstream', ?_, ?_, fun h => ?_, fun h => ?_, fun number => ?_,
        fun i hi => hcursor i (hasked' ▸ hi)⟩, rfl, .quiet hasked' rfl⟩
      · show s.sent = sends writeStream.started
        rw [hstarted, sends_append, sends_other, sends_nil, List.append_nil, hsent]
      · show sends writeStream.accepted = s.sent ++ sends writeStream.exclusive.waiting
        rw [hasked', hasked]
      · show sends writeStream.owners ++ sends writeStream.exclusive.waiting = []
        rw [howners]
        exact hidle h
      · show ∃ i, sends writeStream.owners ++ sends writeStream.exclusive.waiting = [i]
        rw [howners]
        exact hbusy h
      · show s.writeRelease = some number ↔ ∃ i, writeStream.owners = [⟨number, .send i⟩]
        rw [hrelease, howners]
        simp
    | send i =>
      rw [hwaiting, sends_send] at hasked hidle hbusy
      have hwrite : s.outstandingWrite = true := by
        by_contra hwrite
        exact nomatch hidle (by simpa using hwrite)
      -- it was the only one
      have hnone : sends writeStream.exclusive.waiting = [] := by
        obtain ⟨j, hj⟩ := hbusy hwrite
        exact (List.cons.inj hj).2
      rw [hnone] at hasked
      have hsent' : (call { s with writeStream := writeStream } ⟨number', .send i⟩).sent =
          s.sent ++ [i] := by
        simp [State.sent, call]
      refine ⟨⟨hstream', ?_, ?_, fun h => absurd (hwrite.symm.trans h) (by decide), fun h => ?_,
        fun number => ?_, fun i hi => hcursor i (hasked' ▸ hi)⟩, rfl,
        .send i hasked hasked' hsent'⟩
      · rw [hsent', hsent]
        show _ = sends writeStream.started
        rw [hstarted, sends_append, sends_send, sends_nil]
      · rw [hsent']
        show sends writeStream.accepted = _ ++ sends writeStream.exclusive.waiting
        rw [hasked', hasked, hnone, List.append_nil]
      · refine ⟨i, ?_⟩
        show sends writeStream.owners ++ sends writeStream.exclusive.waiting = [i]
        rw [howners, hnone]
        rfl
      · show some number' = some number ↔ ∃ i, writeStream.owners = [⟨number, .send i⟩]
        rw [howners]
        simp

/-- The flag of an element is cleared and its send asked for. -/
theorem inv_ask (hs : Inv maxLockers s) (hwrite : s.outstandingWrite = false)
    (hreturning : s.returning = none) (elements : List Element) {t : State}
    (h : useStream { s with elements := elements, outstandingWrite := true }
      (.asyncStart (.send i)) = some t) :
    Inv maxLockers (if s.writeStream.started.length < t.writeStream.started.length then
        { t with returning := some i } else { t with lastSent := i }) ∧
      t.elements = elements ∧ t.asked = s.asked ++ [i] ∧
      (t.sent = s.sent ∨ t.sent = s.sent ++ [i]) := by
  obtain ⟨hnone, hwaits⟩ := List.append_eq_nil_iff.mp (hs.idle hwrite)
  obtain ⟨writeStream, hstream, haccepted, hcases⟩ := useStream_asyncStart
    (s := { s with elements := elements, outstandingWrite := true }) hs.stream h
  have hasked : sends writeStream.accepted = s.asked ++ [i] := by
    rw [haccepted, sends_append, sends_send, sends_nil]
    rfl
  have hlast : ∀ j, (s.asked ++ [i]).getLast? = some j → i = j := by
    intro j hj
    simpa using hj
  obtain ⟨hfree, hwaiting, hwaiting', howners, hstarted, rfl⟩ |
    ⟨hne, howners, hstarted, hperm, rfl⟩ := hcases
  · -- the operation is called
    have hlt : s.writeStream.started.length < writeStream.started.length := by
      rw [hstarted, List.length_append]
      exact Nat.lt_succ_self _
    refine ⟨?_, rfl, hasked, Or.inr (by simp [State.sent, call])⟩
    split
    case isFalse hnot => exact absurd hlt hnot
    refine ⟨hstream, ?_, ?_, nofun, fun _ => ⟨i, ?_⟩, fun number => ?_, fun j hj => ?_⟩
    · show (s.emitted ++ [_]).map Emission.element = sends writeStream.started
      rw [hstarted, List.map_append, sends_append, sends_send, sends_nil]
      congr 1
      exact hs.sent
    · show sends writeStream.accepted =
        (s.emitted ++ [_]).map Emission.element ++ sends writeStream.exclusive.waiting
      rw [hasked, hwaiting', List.map_append, sends_nil, List.append_nil, hs.asked_eq_sent hwrite]
      rfl
    · show sends writeStream.owners ++ sends writeStream.exclusive.waiting = [i]
      rw [howners, hwaiting']
      rfl
    · show some s.writeStream.accepted.length = some number ↔
        ∃ i, writeStream.owners = [⟨number, .send i⟩]
      rw [howners]
      simp
    · exact hlast j (hasked ▸ hj)
  · -- another user owns the stream
    have hwaiting : sends writeStream.exclusive.waiting = [i] := by
      have h := sends_perm hperm
      rw [sends_send, hwaits] at h
      exact List.perm_singleton.mp h
    have hlt : ¬ s.writeStream.started.length < writeStream.started.length := by
      rw [hstarted]
      exact Nat.lt_irrefl _
    refine ⟨?_, rfl, hasked, Or.inl rfl⟩
    split
    case isTrue hstart => exact absurd hstart hlt
    refine ⟨hstream, ?_, ?_, nofun, fun _ => ⟨i, ?_⟩, fun number => ?_, fun j hj => ?_⟩
    · show s.sent = sends writeStream.started
      rw [hstarted]
      exact hs.sent
    · show sends writeStream.accepted = s.sent ++ sends writeStream.exclusive.waiting
      rw [hasked, hwaiting, hs.asked_eq_sent hwrite]
    · show sends writeStream.owners ++ sends writeStream.exclusive.waiting = [i]
      rw [howners, hwaiting, hnone]
      rfl
    · show s.writeRelease = some number ↔ ∃ i, writeStream.owners = [⟨number, .send i⟩]
      rw [howners]
      exact hs.release number
    · show s.returning.getD i = j
      rw [hreturning]
      exact hlast j (hasked ▸ hj)

/-! ### The flags -/

theorem flagged_eq_true {elements : List Element} :
    flagged elements i = true ↔ ∃ element, elements[i]? = some element ∧ element.toSend = true := by
  simp [flagged, Option.any_eq_true]

theorem flagged_map {f : Element → Element} {elements : List Element}
    (hf : ∀ element : Element, element.toSend = true → (f element).toSend = true)
    (h : flagged elements i = true) : flagged (elements.map f) i = true := by
  obtain ⟨element, helement, hsend⟩ := flagged_eq_true.mp h
  exact flagged_eq_true.mpr ⟨f element, by simp [helement], hf element hsend⟩

theorem flagged_modify {f : Element → Element} {elements : List Element} (j : ℕ)
    (hf : ∀ element : Element, element.toSend = true → (f element).toSend = true)
    (h : flagged elements i = true) : flagged (elements.modify j f) i = true := by
  obtain ⟨element, helement, hsend⟩ := flagged_eq_true.mp h
  rw [flagged_eq_true, List.getElem?_modify, helement]
  by_cases hj : j = i
  · exact ⟨f element, by simp [hj], hf element hsend⟩
  · exact ⟨element, by simp [hj], hsend⟩

/-- Clearing one flag leaves the others. -/
theorem flagged_modify_of_ne {f : Element → Element} {elements : List Element} {j : ℕ} (hj : j ≠ i)
    (h : flagged elements i = true) : flagged (elements.modify j f) i = true := by
  rw [flagged, List.getElem?_modify_ne _ _ hj]
  exact h

theorem Element.toSend_poll (element : Element) (h : element.toSend = true) :
    element.poll.toSend = true := by
  simp only [Element.poll]
  split
  · split
    · rfl
    · exact h
  · exact h

theorem Element.toSend_setRate (rate : ℤ) (element : Element) :
    (element.setRate rate).toSend = element.toSend := by
  simp only [Element.setRate]
  split
  · rfl
  · split
    · rfl
    · rfl

/-- A command other than `stop` clears no flag. -/
theorem flagged_command {bytes : Bytes} {elements elements' : List Element}
    (hstop : subcommand bytes ≠ stopName) (h : command bytes elements = some elements')
    (hi : flagged elements i = true) : flagged elements' i = true := by
  simp only [command, if_neg hstop] at h
  split at h
  · simp only [rate] at h
    split at h
    · cases h
      exact hi
    · split at h
      · cases h
        exact flagged_modify _ (fun element hsend => by rwa [Element.toSend_setRate]) hi
      · exact nomatch h
  · split at h
    · simp only [format] at h
      split at h
      · cases h
        exact hi
      · split at h
        · cases h
          exact flagged_modify _ (fun element hsend => hsend) hi
        · exact nomatch h
    · split at h
      · cases h
        exact flagged_map (fun element hsend => hsend) hi
      · cases h
        exact hi

theorem length_command {bytes : Bytes} {elements elements' : List Element}
    (h : command bytes elements = some elements') : elements'.length = elements.length := by
  simp only [command, rate, format, stop, text] at h
  split at h
  · split at h
    · cases h
      rfl
    · split at h
      · cases h
        exact List.length_modify _ _ _
      · exact nomatch h
  · split at h
    · split at h
      · cases h
        rfl
      · split at h
        · cases h
          exact List.length_modify _ _ _
        · exact nomatch h
    · split at h
      · cases h
        exact List.length_map _
      · split at h
        · cases h
          exact List.length_map _
        · cases h
          rfl

/-! ### Every step -/

/-- The event is the command that clears the flags. -/
def Event.IsStop : Event → Prop
  | .command bytes => subcommand bytes = stopName
  | _ => False

/-- **One step.** It asks for an element, or asks for nothing and clears no flag unless it is the
`stop` command. -/
structure Stepped (maxLockers : ℕ) (s : State) (event : Event) (s' : State) : Prop where
  inv : Inv maxLockers s'
  length : s'.elements.length = s.elements.length
  cases : (∃ i, Asks s s' i) ∨ (Progress s s' ∧
    (¬ event.IsStop → ∀ j, flagged s.elements j = true → flagged s'.elements j = true))

theorem maybeStartSend_stepped {event : Event} {elements : List Element} (hs : Inv maxLockers s)
    (hreturning : s.returning = none) (hlength : elements.length = s.elements.length)
    (hflags : ∀ j, flagged s.elements j = true → flagged elements j = true)
    (h : State.maybeStartSend { s with elements := elements } = some s') :
    Stepped maxLockers s event s' := by
  simp only [State.maybeStartSend] at h
  split at h
  · cases h
    exact ⟨hs.withElements elements, hlength, Or.inr ⟨.quiet rfl rfl, fun _ => hflags⟩⟩
  · rename_i hwrite
    split at h
    · cases h
      exact ⟨hs.withElements elements, hlength, Or.inr ⟨.quiet rfl rfl, fun _ => hflags⟩⟩
    · rename_i i hcheck
      obtain ⟨t, ht, rfl⟩ := Option.map_eq_some_iff.mp h
      have hwrite : s.outstandingWrite = false := by simpa using hwrite
      obtain ⟨hinv, helements, hasked, hsent⟩ := inv_ask hs hwrite hreturning _ ht
      refine ⟨hinv, ?_, Or.inl ⟨i, ?_⟩⟩
      · split
        · rw [helements, List.length_modify, hlength]
        · rw [helements, List.length_modify, hlength]
      · have hcursor : s.cursor = s.lastSent := by rw [State.cursor, hreturning]; rfl
        refine ⟨hs.asked_eq_sent hwrite, ?_, ?_, elements, hlength, hflags, ?_, ?_⟩
        · split
          · exact hasked
          · exact hasked
        · split
          · exact hsent
          · exact hsent
        · rw [hcursor]
          exact hcheck
        · split
          · exact helements
          · exact helements

/-- When one of the sends owns the stream, none waits. -/
theorem Inv.of_release {i : ℕ} (hs : Inv maxLockers s)
    (howners : s.writeStream.owners = [⟨number, .send i⟩]) :
    s.outstandingWrite = true ∧ sends s.writeStream.exclusive.waiting = [] := by
  cases hwrite : s.outstandingWrite with
  | false =>
    have hnone := (List.append_eq_nil_iff.mp (hs.idle hwrite)).1
    rw [howners] at hnone
    exact nomatch hnone
  | true =>
    obtain ⟨j, hj⟩ := hs.busy hwrite
    rw [State.outstanding, howners] at hj
    exact ⟨rfl, (List.cons.inj hj).2⟩

theorem step_stepped {event : Event} (hs : Inv maxLockers s) (h : step s event = some s') :
    Stepped maxLockers s event s' := by
  cases event with
  | update i =>
    simp only [step] at h
    split at h
    · exact nomatch h
    · rename_i hreturning
      obtain ⟨element, helement, h⟩ := Option.bind_eq_some_iff.mp h
      split at h
      · exact maybeStartSend_stepped hs (by simpa using hreturning) (List.length_modify _ _ _)
          (fun j => flagged_modify i fun element _ => rfl) h
      · cases h
        exact ⟨hs, rfl, Or.inr ⟨.quiet rfl rfl, fun _ j hj => hj⟩⟩
  | pollMillisecond =>
    simp only [step] at h
    split at h
    · exact nomatch h
    · rename_i hreturning
      exact maybeStartSend_stepped hs (by simpa using hreturning) (List.length_map _)
        (fun j => flagged_map Element.toSend_poll) h
  | command bytes =>
    obtain ⟨elements, helements, rfl⟩ := Option.map_eq_some_iff.mp h
    refine ⟨hs.withElements elements, length_command helements,
      Or.inr ⟨.quiet rfl rfl, fun hstop j => ?_⟩⟩
    exact flagged_command hstop helements
  | sent =>
    obtain ⟨number, hnumber, h⟩ := Option.bind_eq_some_iff.mp h
    obtain ⟨i, howners⟩ := (hs.release number).mp hnumber
    obtain ⟨-, hnone⟩ := hs.of_release howners
    obtain ⟨hinv, helements, hprogress⟩ := inv_useStream_release
      (s := { s with outstandingWrite := false, writeRelease := none }) hs.stream hs.sent hs.asked
      (fun _ => hnone) nofun rfl hs.cursor h
    refine ⟨hinv, congrArg List.length helements, Or.inr ⟨?_, fun _ j hj => ?_⟩⟩
    · cases hprogress with
      | quiet hasked hsent => exact .quiet hasked hsent
      | send i hwaits hasked hsent => exact .send i hwaits hasked hsent
    · rw [helements]
      exact hj
  | «return» =>
    obtain ⟨i, hi, rfl⟩ := Option.map_eq_some_iff.mp h
    refine ⟨⟨hs.stream, hs.sent, hs.asked, hs.idle, hs.busy, hs.release, fun j hj => ?_⟩, rfl,
      Or.inr ⟨.quiet rfl rfl, fun _ j hj => hj⟩⟩
    have hcursor := hs.cursor j hj
    rw [State.cursor, hi] at hcursor
    exact hcursor
  | lock =>
    obtain ⟨hinv, helements, hasked, hsent⟩ := useStream_other hs h
    refine ⟨hinv, congrArg List.length helements, Or.inr ⟨.quiet hasked hsent, fun _ j hj => ?_⟩⟩
    rw [helements]
    exact hj
  | unlock number =>
    simp only [step] at h
    split at h
    · rename_i hany
      obtain ⟨owner, howner, howner'⟩ := List.any_eq_true.mp hany
      obtain rfl : owner = ⟨number, .other⟩ := by simpa using howner'
      obtain ⟨-, -, -, owner', -, howners, -⟩ := useStream_release hs.stream h
      obtain rfl : ⟨number, .other⟩ = owner' := by rwa [howners, List.mem_singleton] at howner
      have hout : s.outstanding = sends s.writeStream.exclusive.waiting := by
        rw [State.outstanding, howners]
        rfl
      have hrelease : s.writeRelease = none := by
        by_contra hsome
        obtain ⟨other, hother⟩ := Option.ne_none_iff_exists'.mp hsome
        obtain ⟨i, hi⟩ := (hs.release other).mp hother
        rw [howners] at hi
        exact nomatch hi
      obtain ⟨hinv, helements, hprogress⟩ := inv_useStream_release hs.stream hs.sent hs.asked
        (fun hwrite => hout ▸ hs.idle hwrite) (fun hwrite => hout ▸ hs.busy hwrite) hrelease
        hs.cursor h
      refine ⟨hinv, congrArg List.length helements, Or.inr ⟨hprogress, fun _ j hj => ?_⟩⟩
      rw [helements]
      exact hj
    · exact nomatch h

theorem inv_step (s : State) (event : Event) (s' : State) (hs : Inv maxLockers s)
    (h : step s event = some s') : Inv maxLockers s' :=
  (step_stepped hs h).inv

end Mjlib.Micro.TelemetryManager

import Mjlib.Lib.RoundRobin
import Mjlib.Micro.Equiv.TelemetryManager

/-!
# `TelemetryManager` sends fairly

`MaybeStartSend` looks for a flag round robin, from the element after the one that was sent last.  So
while an element stays flagged, the search cannot pass it: every element that is asked for lies before
it, on the way round from any element that was sent meanwhile.

- `sends_fairly`: in every run at most one send is outstanding, a flag is cleared only by the `stop`
  command or when the element is asked for, and an element that stays flagged between two sends of
  another one is sent in between.
-/

namespace Mjlib.Micro.TelemetryManager

open RoundRobin (Before)

variable {maxLockers : ℕ} {s s' : State} {event : Event}

/-! ### What a step adds -/

theorem Stepped.prefix_sent (h : Stepped maxLockers s event s') : s.sent <+: s'.sent := by
  obtain ⟨i, hasks⟩ | ⟨hprogress, -⟩ := h.cases
  · obtain hsent | hsent := hasks.sent
    · exact hsent ▸ List.prefix_rfl
    · rw [hsent]
      exact List.prefix_append _ _
  · cases hprogress with
    | quiet hasked hsent => exact hsent ▸ List.prefix_rfl
    | send i hwaits hasked hsent =>
      rw [hsent]
      exact List.prefix_append _ _

/-- An element that is asked for is one of the registered ones. -/
theorem Asks.lt {i : ℕ} (h : Asks s s' i) : i < s.elements.length := by
  obtain ⟨elements, hlength, -, hcheck, -⟩ := h.next
  rw [← hlength]
  exact RoundRobin.lt_of_next hcheck

/-- What holds in every state of a run over `n` elements. -/
structure RunInv (maxLockers n : ℕ) (s : State) : Prop where
  inv : Inv maxLockers s
  length : s.elements.length = n
  asked_lt : ∀ i ∈ s.asked, i < n

theorem runInv_step {n : ℕ} (s : State) (event : Event) (s' : State) (hs : RunInv maxLockers n s)
    (h : step s event = some s') : RunInv maxLockers n s' := by
  have hstep := step_stepped hs.inv h
  refine ⟨hstep.inv, hstep.length.trans hs.length, ?_⟩
  obtain ⟨i, hasks⟩ | ⟨hprogress, -⟩ := hstep.cases
  · intro j hj
    rw [hasks.asked, List.mem_append, List.mem_singleton] at hj
    obtain hj | rfl := hj
    · exact hs.asked_lt j hj
    · exact hs.length ▸ hasks.lt
  · cases hprogress with
    | quiet hasked hsent => rw [hasked]; exact hs.asked_lt
    | send i hwaits hasked hsent => rw [hasked]; exact hs.asked_lt

/-- A step that sends an element leaves nothing that was asked for and not sent. -/
theorem Stepped.asked_of_sent {x : ℕ} (h : Stepped maxLockers s event s')
    (hsent : s'.sent = s.sent ++ [x]) : s'.asked = s'.sent := by
  obtain ⟨i, hasks⟩ | ⟨hprogress, -⟩ := h.cases
  · obtain hnone | hi := hasks.sent
    · rw [hnone] at hsent
      exact absurd hsent (by simp)
    · rw [hasks.asked, hasks.idle, hi]
  · cases hprogress with
    | quiet hasked hnone =>
      rw [hnone] at hsent
      exact absurd hsent (by simp)
    | send i hwaits hasked hi => rw [hasked, hwaits, hi]

/-! ### Between two sends -/

/-- Since a state where `x` was sent last, `y` has been asked for, or neither has and the search has
not come to `y`. -/
structure Since (n x y : ℕ) (sent : List ℕ) (s : State) : Prop where
  asked : ∃ since, s.asked = sent ++ since ∧ (y ∈ since ∨ x ∉ since ∧ Before n x y s.cursor)
  prefix_sent : sent <+: s.sent
  nonempty : sent ≠ []

theorem since_step {n x y : ℕ} {sent : List ℕ} (hs : RunInv maxLockers n s) (hx : x < n)
    (h : Since n x y sent s)
    (hy : flagged s.elements y = true ∨ y ∈ s.asked.drop sent.length)
    (hstep : step s event = some s') : Since n x y sent s' := by
  have hstepped := step_stepped hs.inv hstep
  refine ⟨?_, h.prefix_sent.trans hstepped.prefix_sent, h.nonempty⟩
  obtain ⟨since, hasked, hsince⟩ := h.asked
  obtain ⟨i, hasks⟩ | ⟨hprogress, -⟩ := hstepped.cases
  · refine ⟨since ++ [i], by rw [hasks.asked, hasked, List.append_assoc], ?_⟩
    obtain hmem | ⟨hnot, hbefore⟩ := hsince
    · exact Or.inl (List.mem_append_left _ hmem)
    · rw [hasked, List.drop_left] at hy
      obtain hflag | hmem := hy
      · obtain ⟨elements, hlength, hflags, hcheck, -⟩ := hasks.next
        have hcursor : s'.cursor = i := hstepped.inv.cursor i (by simp [hasks.asked])
        have hnext : RoundRobin.next (flagged elements) n s.cursor = some i := by
          rw [← hs.length, ← hlength]
          exact hcheck
        obtain rfl | ⟨hbefore', hne⟩ := hbefore.next hx hnext (hflags y hflag)
        · exact Or.inl (by simp)
        · exact Or.inr ⟨by simpa [hnot] using hne.symm, hcursor ▸ hbefore'⟩
      · exact Or.inl (List.mem_append_left _ hmem)
  · have hasked' : s'.asked = s.asked := by
      cases hprogress with
      | quiet hasked hsent => exact hasked
      | send i hwaits hasked hsent => exact hasked
    refine ⟨since, hasked'.trans hasked, hsince.imp_right fun ⟨hnot, hbefore⟩ => ⟨hnot, ?_⟩⟩
    -- the cursor is the last element that was asked for
    cases hlast : s.asked.getLast? with
    | none =>
      rw [hasked, List.getLast?_eq_none_iff] at hlast
      exact absurd (List.append_eq_nil_iff.mp hlast).1 h.nonempty
    | some i =>
      rw [hstepped.inv.cursor i (hasked' ▸ hlast), ← hs.inv.cursor i hlast]
      exact hbefore

/-- From one step that sends `x` to the next state that may send it again. -/
theorem since_run {n x y : ℕ} {sent : List ℕ} {events : List Event} (hx : x < n)
    (hs : RunInv maxLockers n s) (h : Since n x y sent s)
    (hy : Run.Always step
      (fun t => flagged t.elements y = true ∨ y ∈ t.asked.drop sent.length) s events)
    (hrun : Run.run step s events = some s') : RunInv maxLockers n s' ∧ Since n x y sent s' := by
  induction events generalizing s with
  | nil =>
    cases hrun
    exact ⟨hs, h⟩
  | cons event events ih =>
    obtain ⟨t, hstep, hrun⟩ := (Run.run_cons_eq_some step).mp hrun
    exact ih (runInv_step _ _ _ hs hstep) (since_step hs hx h hy.1 hstep) (hy.2 t hstep) hrun

/-- When `x` is sent again, `y` has been sent. -/
theorem Since.mem_sent {n x y : ℕ} {sent : List ℕ} (hs : RunInv maxLockers n s) (hx : x < n)
    (hne : y ≠ x) (h : Since n x y sent s)
    (hy : flagged s.elements y = true ∨ y ∈ s.asked.drop sent.length)
    (hstep : step s event = some s') (hsent : s'.sent = s.sent ++ [x]) :
    y ∈ s.sent.drop sent.length := by
  have hstepped := step_stepped hs.inv hstep
  have hagain := since_step hs hx h hy hstep
  obtain ⟨since, hasked, hsince⟩ := hagain.asked
  obtain ⟨later, hlater⟩ := h.prefix_sent
  -- all that was asked for is sent now
  rw [hstepped.asked_of_sent hsent, hsent, ← hlater, List.append_assoc,
    List.append_cancel_left_eq] at hasked
  rw [← hlater, List.drop_left]
  obtain hmem | ⟨hnot, -⟩ := hsince
  · rw [← hasked, List.mem_append, List.mem_singleton] at hmem
    exact hmem.resolve_right hne
  · exact absurd (hasked ▸ by simp) hnot

/-! ### Every run -/

/-- **Fair sends.** In every run of a telemetry manager over any elements: the elements whose flag
was cleared to send them are those that were sent, in this order, and at most one that waits for the
stream; at most one send waits or is being written, and one does as long as `outstanding_write_` is
set; a step that clears a flag is the `stop` command or asks for that element; and when `x` is sent
twice and another element has been flagged all the time in between, until it was asked for, then it
has been sent in between. -/
theorem sends_fairly (maxLockers : ℕ) (elements : List Element) (events : List Event) (s : State)
    (h : Run.run step (State.init maxLockers elements) events = some s) :
    (s.asked = s.sent ++ sends s.writeStream.exclusive.waiting ∧
      s.outstanding.length = if s.outstandingWrite then 1 else 0) ∧
    (∀ event s' i, step s event = some s' → flagged s.elements i = true →
      flagged s'.elements i = false → event.IsStop ∨ s'.asked = s.asked ++ [i]) ∧
    (∀ event middle event' s₁ s₂ s₃ x y, step s event = some s₁ → s₁.sent = s.sent ++ [x] →
      Run.run step s₁ middle = some s₂ → step s₂ event' = some s₃ → s₃.sent = s₂.sent ++ [x] →
      y ≠ x →
      Run.Always step
        (fun t => flagged t.elements y = true ∨ y ∈ t.asked.drop s₁.asked.length) s₁ middle →
      y ∈ s₂.sent.drop s₁.sent.length) := by
  have hs : RunInv maxLockers elements.length s := Run.run_induction
    (I := RunInv maxLockers elements.length) runInv_step
    ⟨inv_init maxLockers elements, rfl, fun i hi => absurd hi List.not_mem_nil⟩ h
  refine ⟨⟨hs.inv.asked, ?_⟩, ?_, ?_⟩
  · cases hwrite : s.outstandingWrite with
    | false => simp [hs.inv.idle hwrite]
    | true =>
      obtain ⟨i, hi⟩ := hs.inv.busy hwrite
      simp [hi]
  · intro event s' i hstep hflag hclear
    by_cases hstop : event.IsStop
    · exact Or.inl hstop
    · right
      obtain ⟨j, hasks⟩ | ⟨-, hkept⟩ := (step_stepped hs.inv hstep).cases
      · obtain ⟨elements', -, hflags, -, hclears⟩ := hasks.next
        -- the other flags stay as they are
        have hij : j = i := by
          by_contra hne
          rw [hclears, flagged_modify_of_ne hne (hflags i hflag)] at hclear
          exact nomatch hclear
        rw [← hij]
        exact hasks.asked
      · rw [hkept hstop i hflag] at hclear
        exact nomatch hclear
  · intro event middle event' s₁ s₂ s₃ x y hfirst hx hrun hagain hx' hne hy
    have hs₁ := runInv_step s event s₁ hs hfirst
    have hasked := (step_stepped hs.inv hfirst).asked_of_sent hx
    have hmem : x ∈ s₁.asked := by simp [hasked, hx]
    have hxn := hs₁.asked_lt x hmem
    have hyn : y < elements.length := by
      obtain hflag | hnone := hy.start
      · obtain ⟨element, helement, -⟩ := flagged_eq_true.mp hflag
        exact hs₁.length ▸ (List.getElem?_eq_some_iff.mp helement).1
      · rw [List.drop_length] at hnone
        exact absurd hnone List.not_mem_nil
    have hcursor : s₁.cursor = x := hs₁.inv.cursor x (by simp [hasked, hx])
    rw [hasked] at hy
    have hsince : Since elements.length x y s₁.sent s₁ := by
      refine ⟨⟨[], by rw [hasked, List.append_nil], Or.inr ⟨List.not_mem_nil, ?_⟩⟩,
        List.prefix_rfl, by simp [hx]⟩
      rw [hcursor]
      exact RoundRobin.before_self hxn hyn hne
    obtain ⟨hs₂, hsince⟩ := since_run hxn hs₁ hsince hy hrun
    exact hsince.mem_sent hs₂ hxn hne (hy.last hrun) hagain hx'

/-- The elements `a` and `b`, both with the rate 1, and two updates while `a` is being written. -/
theorem sends_fairly_two :
    ∃ s, Run.run step (State.init 3 [{ name := [0x61] }, { name := [0x62] }])
        [.command [0x72, 0x61, 0x74, 0x65, 0x20, 0x61, 0x20, 0x31],
          .command [0x72, 0x61, 0x74, 0x65, 0x20, 0x62, 0x20, 0x31],
          .update 0, .return, .update 0, .update 1, .lock, .sent, .pollMillisecond, .unlock 1,
          .sent, .pollMillisecond] = some s ∧
      s.sent = [0, 1, 0] ∧ s.outstanding.length = 1 := by
  refine ⟨_, rfl, rfl, ?_⟩
  exact (sends_fairly 3 [{ name := [0x61] }, { name := [0x62] }]
    [.command [0x72, 0x61, 0x74, 0x65, 0x20, 0x61, 0x20, 0x31],
      .command [0x72, 0x61, 0x74, 0x65, 0x20, 0x62, 0x20, 0x31],
      .update 0, .return, .update 0, .update 1, .lock, .sent, .pollMillisecond, .unlock 1,
      .sent, .pollMillisecond] _ rfl).1.2

end Mjlib.Micro.TelemetryManager

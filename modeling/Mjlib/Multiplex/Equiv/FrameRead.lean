import Mathlib
import Mjlib.Multiplex.FrameRead

/-!
# Whose timeout a read gets

Every read has its callback called once at most (`Inv.once`).  The handler of an expired wait gives
`operation_aborted` to the read that is pending when it runs, whichever that is: `timeoutIsOwn_iff`
says in which runs this is never a read whose own wait has not expired, for any receiver, and
`aborted_only_by_own_timer_iff` is that for the two frame streams.
-/

namespace Mjlib.Multiplex.FrameRead

variable {σ : Type*} {R : Receiver σ} {s s' t : State σ}

/-- The reads whose callback was called or is posted. -/
def answered (s : State σ) : List ℕ := (s.called ++ s.posted).map Prod.fst

/-- Every read is answered once, or it is the pending one; and it is aborted only if its own wait has
expired or it was cancelled. -/
structure TimeoutIsOwn (s : State σ) : Prop where
  once : (answered s ++ s.current.toList).Perm (List.range s.reads)
  own : ∀ r, (r, .operationAborted) ∈ s.called ++ s.posted → r ∈ s.expired ∨ r ∈ s.cancelled

/-- The invariant. -/
structure Inv (s : State σ) : Prop extends TimeoutIsOwn s where
  cancelled : ∀ r ∈ s.cancelled, r ∈ answered s

theorem inv_init : Inv (init R) := ⟨⟨List.Perm.refl _, nofun⟩, nofun⟩

/-- The pending read is not answered. -/
theorem Inv.not_mem_answered {r : ℕ} (h : Inv s) (hr : s.current = some r) : r ∉ answered s := by
  have hnodup := h.once.nodup_iff.mpr List.nodup_range
  rw [hr] at hnodup
  exact fun hmem => (List.nodup_append.mp hnodup).2.2 r hmem r List.mem_cons_self rfl

/-! ### Answers -/

theorem answered_post (s : State σ) (c : ℕ × ErrorCode) :
    ((s.called ++ (s.posted ++ [c])).map Prod.fst) = answered s ++ [c.1] := by
  unfold answered
  rw [← List.append_assoc, List.map_append]
  rfl

/-- The callback of the pending read is posted. -/
theorem Inv.post {r : ℕ} {ec : ErrorCode} (h : Inv s) (hr : s.current = some r)
    (hcalled : s'.called = s.called) (hposted : s'.posted = s.posted ++ [(r, ec)])
    (hcurrent : s'.current = none) (hreads : s'.reads = s.reads) (hexpired : s'.expired = s.expired)
    (hcancelled : ∀ q ∈ s'.cancelled, q ∈ s.cancelled ∨ q = r)
    (hsub : ∀ q ∈ s.cancelled, q ∈ s'.cancelled)
    (hec : ec = .operationAborted → r ∈ s'.cancelled) : Inv s' := by
  have hanswered : answered s' = answered s ++ [r] := by
    rw [← answered_post s (r, ec), ← hposted, ← hcalled]
    rfl
  refine ⟨⟨?_, fun q hq => ?_⟩, fun q hq => ?_⟩
  · have := h.once
    rw [hr] at this
    rw [hanswered, hcurrent, hreads]
    exact (List.append_nil _).symm ▸ this
  · rw [hcalled, hposted, ← List.append_assoc] at hq
    rcases List.mem_append.mp hq with hq | hq
    · rw [hexpired]
      exact (h.own q hq).imp_right (hsub q)
    · cases List.mem_singleton.mp hq
      exact Or.inr (hec rfl)
  · rw [hanswered]
    rcases hcancelled q hq with hq | rfl
    · exact List.mem_append_left _ (h.cancelled q hq)
    · exact List.mem_append_right _ List.mem_cons_self

/-- What a receiver does leaves the reads alone, or answers the pending one. -/
theorem Inv.emitted (h : Inv s) (receiver : σ) : Inv (s.emitted R receiver) := by
  unfold State.emitted
  split
  · rename_i r _ hr
    split_ifs
    · exact h.post hr rfl rfl rfl rfl rfl (fun _ => Or.inl) (fun _ => id) nofun
    · exact h.post hr rfl rfl rfl rfl rfl (fun _ => Or.inl) (fun _ => id) nofun
  · exact ⟨⟨h.once, h.own⟩, h.cancelled⟩

/-! ### Steps -/

/-- The handler of an expired wait runs while no read is pending, or one whose own wait has expired
too. -/
def Fair (s : State σ) : Action → Prop
  | .handleTimer i => ∀ q, s.queued[i]? = some (q, true) → ∀ r, s.current = some r → r ∈ s.expired
  | .asyncRead .. => True
  | .readSome _ => True
  | .expire => True
  | .cancel => True
  | .callback _ => True

/-- **A step that is fair keeps the invariant.** -/
theorem Inv.step {a : Action} (h : Inv s) (ha : Fair s a) (hstep : step R s a = some s') :
    Inv s' := by
  cases a with
  | asyncRead frame timeout =>
    unfold FrameRead.step at hstep
    dsimp only at hstep
    by_cases hcurrent : s.current.isSome
    · rw [if_pos hcurrent] at hstep
      cases hstep
    rw [if_neg hcurrent] at hstep
    obtain ⟨receiver, _, rfl⟩ := Option.map_eq_some_iff.mp hstep
    refine @Inv.emitted _ R _ ?_ receiver
    refine ⟨⟨?_, h.own⟩, h.cancelled⟩
    have := h.once
    rw [Option.not_isSome_iff_eq_none.mp hcurrent, Option.toList_none, List.append_nil] at this
    show (answered s ++ [s.reads]).Perm (List.range (s.reads + 1))
    rw [List.range_succ]
    exact this.append_right _
  | readSome bytes =>
    obtain ⟨receiver, _, rfl⟩ := Option.map_eq_some_iff.mp hstep
    exact h.emitted receiver
  | expire =>
    obtain ⟨r, _, rfl⟩ := Option.map_eq_some_iff.mp hstep
    exact ⟨⟨h.once, fun q hq => (h.own q hq).imp_left (List.mem_append_left _)⟩, h.cancelled⟩
  | handleTimer i =>
    obtain ⟨⟨q, expired⟩, hq, rfl⟩ := Option.map_eq_some_iff.mp hstep
    cases expired with
    | false => exact ⟨⟨h.once, h.own⟩, h.cancelled⟩
    | true =>
      cases hcurrent : s.current with
      | none =>
        refine ⟨⟨?_, ?_⟩, ?_⟩
        · have := h.once
          rw [hcurrent] at this
          simpa [answered, hcurrent] using this
        · simpa [hcurrent] using h.own
        · simpa [answered, hcurrent] using h.cancelled
      | some r =>
        have hperm : ((s.called ++ [(r, ErrorCode.operationAborted)]) ++ s.posted).Perm
            (s.called ++ s.posted ++ [(r, ErrorCode.operationAborted)]) := by
          rw [List.append_assoc, List.append_assoc]
          exact List.perm_append_comm.append_left _
        refine ⟨⟨?_, fun p hp => ?_⟩, fun p hp => ?_⟩
        · have := h.once
          rw [hcurrent] at this
          show ((s.called ++ [(r, ErrorCode.operationAborted)] ++ s.posted).map Prod.fst ++ []).Perm _
          rw [List.append_nil]
          refine (hperm.map Prod.fst).trans ?_
          rw [List.map_append]
          exact this
        · rcases List.mem_append.mp (hperm.mem_iff.mp hp) with hp | hp
          · exact h.own p hp
          · cases List.mem_singleton.mp hp
            exact Or.inl (ha q hq r hcurrent)
        · show p ∈ (s.called ++ [(r, ErrorCode.operationAborted)] ++ s.posted).map Prod.fst
          rw [(hperm.map Prod.fst).mem_iff, List.map_append]
          exact List.mem_append_left _ (h.cancelled p hp)
  | cancel =>
    obtain ⟨f, _, rfl⟩ := Option.map_eq_some_iff.mp hstep
    cases hcurrent : s.current with
    | none => exact h
    | some r =>
      refine h.post hcurrent rfl rfl rfl rfl rfl ?_ ?_ ?_
      · exact fun q hq => (List.mem_append.mp hq).imp_right List.mem_singleton.mp
      · exact fun q hq => List.mem_append_left _ hq
      · exact fun _ => List.mem_append_right _ List.mem_cons_self
  | callback i =>
    obtain ⟨c, hc, rfl⟩ := Option.map_eq_some_iff.mp hstep
    have hperm : (s.called ++ [c] ++ s.posted.eraseIdx i).Perm (s.called ++ s.posted) := by
      obtain ⟨hi, rfl⟩ := List.getElem?_eq_some_iff.mp hc
      rw [List.append_assoc]
      exact (List.getElem_cons_eraseIdx_perm hi).append_left _
    refine ⟨⟨?_, fun r hr => h.own r (hperm.mem_iff.mp hr)⟩, fun r hr => ?_⟩
    · exact ((hperm.map Prod.fst).append_right _).trans h.once
    · exact (hperm.map Prod.fst).mem_iff.mpr (h.cancelled r hr)

/-- **Any other step gives a read a timeout that is not its own.** -/
theorem Inv.not_timeoutIsOwn {a : Action} (h : Inv s) (ha : ¬Fair s a)
    (hstep : FrameRead.step R s a = some s') : ¬TimeoutIsOwn s' := by
  cases a with
  | asyncRead | readSome | expire | cancel | callback => exact absurd trivial ha
  | handleTimer i =>
    unfold Fair at ha
    push Not at ha
    obtain ⟨q, hq, r, hcurrent, hr⟩ := ha
    obtain ⟨_, hq', rfl⟩ := Option.map_eq_some_iff.mp hstep
    obtain rfl := Option.some.inj (hq.symm.trans hq')
    rintro ⟨_, hown⟩
    have hmem : (r, ErrorCode.operationAborted) ∈
        s.called ++ s.current.toList.map (fun r => (r, ErrorCode.operationAborted)) ++ s.posted := by
      rw [hcurrent]
      exact List.mem_append_left _ (List.mem_append_right _ List.mem_cons_self)
    rcases hown r hmem with hexpired | hcancelled
    · exact hr hexpired
    · exact h.not_mem_answered hcurrent (h.cancelled r hcancelled)

/-! ### Runs -/

/-- **When every read's timeout is its own.** -/
theorem timeoutIsOwn_iff {as : List Action} (hrun : Run.run (step R) (init R) as = some t) :
    Run.Always (step R) TimeoutIsOwn (init R) as ↔ Run.Guarded (step R) Fair (init R) as :=
  Run.always_iff_guarded (fun _ h => h.toTimeoutIsOwn) (fun _ _ _ => Inv.step)
    (fun _ _ _ => Inv.not_timeoutIsOwn) inv_init hrun

theorem currentFrame_emitted {receiver : σ}
    (h : s.current = none → R.currentFrame receiver = none)
    (hcurrent : (s.emitted R receiver).current = none) :
    R.currentFrame (s.emitted R receiver).receiver = none := by
  unfold State.emitted at hcurrent ⊢
  split at hcurrent
  · rename_i hframe _
    split_ifs
    · exact hframe
    · exact hframe
  · exact h hcurrent

/-- The receiver has no pending read that its client has not. -/
theorem currentFrame_of_run {as : List Action} (hrun : Run.run (step R) (init R) as = some t)
    (hcurrent : t.current = none) : R.currentFrame t.receiver = none := by
  let NoFrame (s : State σ) : Prop := s.current = none → R.currentFrame s.receiver = none
  suffices hstep : ∀ s a s', NoFrame s → step R s a = some s' → NoFrame s' from
    Run.run_induction hstep (fun _ => R.currentFrame_init) hrun hcurrent
  intro s a s' hs hstep hcurrent
  cases a with
  | asyncRead frame timeout =>
    unfold FrameRead.step at hstep
    dsimp only at hstep
    by_cases hsome : s.current.isSome
    · rw [if_pos hsome] at hstep
      cases hstep
    rw [if_neg hsome] at hstep
    obtain ⟨receiver, _, rfl⟩ := Option.map_eq_some_iff.mp hstep
    exact currentFrame_emitted nofun hcurrent
  | readSome bytes =>
    obtain ⟨receiver, hread, rfl⟩ := Option.map_eq_some_iff.mp hstep
    exact currentFrame_emitted (fun h => R.currentFrame_readSome _ _ _ hread (hs h)) hcurrent
  | expire =>
    obtain ⟨r, _, rfl⟩ := Option.map_eq_some_iff.mp hstep
    exact hs hcurrent
  | handleTimer i =>
    obtain ⟨⟨q, expired⟩, hq, rfl⟩ := Option.map_eq_some_iff.mp hstep
    cases expired with
    | false => exact hs hcurrent
    | true => exact R.currentFrame_handleTimer _
  | cancel =>
    obtain ⟨f, hf, rfl⟩ := Option.map_eq_some_iff.mp hstep
    cases h : s.current with
    | none => exact hs h
    | some r => exact R.currentFrame_cancel f hf _
  | callback i =>
    obtain ⟨c, hc, rfl⟩ := Option.map_eq_some_iff.mp hstep
    exact hs hcurrent

/-- **The timeouts of the two frame streams.**  In a run, every callback is called once at most and
no read is aborted by another's timer, exactly if no handler of an expired wait runs while a read is
pending whose own wait has not expired. -/
theorem aborted_only_by_own_timer_iff (crc : Bytes → UInt16) (beyond : Bytes) (as : List Action) :
    (∀ t, Run.run (step (rs485 crc)) (init (rs485 crc)) as = some t →
      (Run.Always (step (rs485 crc)) TimeoutIsOwn (init (rs485 crc)) as ↔
        Run.Guarded (step (rs485 crc)) Fair (init (rs485 crc)) as)) ∧
    ∀ t, Run.run (step (fdcanusb beyond)) (init (fdcanusb beyond)) as = some t →
      (Run.Always (step (fdcanusb beyond)) TimeoutIsOwn (init (fdcanusb beyond)) as ↔
        Run.Guarded (step (fdcanusb beyond)) Fair (init (fdcanusb beyond)) as) :=
  ⟨fun _ => timeoutIsOwn_iff, fun _ => timeoutIsOwn_iff⟩

instance (s : State σ) (a : Action) : Decidable (Fair s a) :=
  match a with
  | .handleTimer i =>
    decidable_of_iff (∀ e ∈ s.queued[i]?, e.2 = true → ∀ r ∈ s.current, r ∈ s.expired)
      ⟨fun h q hq r hr => h _ hq rfl r hr, fun h e he hexpired r hr => by
        obtain ⟨q, _⟩ := e
        subst hexpired
        exact h q he r hr⟩
  | .asyncRead .. => inferInstanceAs (Decidable True)
  | .readSome _ => inferInstanceAs (Decidable True)
  | .expire => inferInstanceAs (Decidable True)
  | .cancel => inferInstanceAs (Decidable True)
  | .callback _ => inferInstanceAs (Decidable True)

/-- A read that times out, and another one after it. -/
theorem aborted_only_by_own_timer_iff_twice :
    Run.Always (step (rs485 fun _ => 0)) TimeoutIsOwn (init (rs485 fun _ => 0))
      [.asyncRead ⟨0, false, 0, []⟩ true, .expire, .handleTimer 0,
        .asyncRead ⟨0, false, 0, []⟩ false] := by
  obtain ⟨t, hrun⟩ := Option.isSome_iff_exists.mp (by decide +kernel :
    (Run.run (step (rs485 fun _ => 0)) (init (rs485 fun _ => 0))
      [.asyncRead ⟨0, false, 0, []⟩ true, .expire, .handleTimer 0,
        .asyncRead ⟨0, false, 0, []⟩ false]).isSome)
  exact ((aborted_only_by_own_timer_iff (fun _ => 0) [] _).1 t hrun).mpr (by decide +kernel)

/-- A frame arrives while the handler of its read's timer is queued already; the client reads again,
without a timeout. -/
theorem not_aborted_only_by_own_timer :
    (¬∀ (crc : Bytes → UInt16) (as : List Action) (t : State Rs485FrameStream.State),
      Run.run (step (rs485 crc)) (init (rs485 crc)) as = some t →
        Run.Always (step (rs485 crc)) TimeoutIsOwn (init (rs485 crc)) as) ∧
    ¬∀ (beyond : Bytes) (as : List Action) (t : State FdcanusbFrameStream.State),
      Run.run (step (fdcanusb beyond)) (init (fdcanusb beyond)) as = some t →
        Run.Always (step (fdcanusb beyond)) TimeoutIsOwn (init (fdcanusb beyond)) as := by
  have hown : ∀ σ (s : State σ), s.expired = [0] → s.cancelled = [] →
      (1, .operationAborted) ∈ s.called ++ s.posted → ¬TimeoutIsOwn s := by
    intro σ s hexpired hcancelled hmem h
    rcases h.own 1 hmem with h | h
    · rw [hexpired] at h
      exact absurd h (by decide)
    · rw [hcancelled] at h
      cases h
  constructor
  · intro h
    let as : List Action := [.asyncRead ⟨0, false, 0, []⟩ true, .expire,
      .readSome [0x54, 0xab, 0x01, 0x02, 0x00, 0x00, 0x00], .asyncRead ⟨0, false, 0, []⟩ false,
      .handleTimer 0]
    have hfinal : (Run.run (step (rs485 fun _ => 0)) (init (rs485 fun _ => 0)) as).map
        (fun t => (t.expired, t.cancelled, t.called ++ t.posted)) =
          some ([0], [], [(1, .operationAborted), (0, .success)]) := by
      decide +kernel
    obtain ⟨t, hrun, ht⟩ := Option.map_eq_some_iff.mp hfinal
    obtain ⟨hexpired, ht⟩ := Prod.mk.inj ht
    obtain ⟨hcancelled, hcalled⟩ := Prod.mk.inj ht
    exact hown _ t hexpired hcancelled (hcalled ▸ List.mem_cons_self) ((h _ as t hrun).last hrun)
  · intro h
    let as : List Action := [.asyncRead ⟨0, false, 0, []⟩ true, .expire,
      .readSome (FdcanusbFrameStream.rcvStart ++ [0x31, 0x20, 0x30, 0x30, 0x0a]),
      .asyncRead ⟨0, false, 0, []⟩ false, .handleTimer 0]
    have hfinal : (Run.run (step (fdcanusb [])) (init (fdcanusb [])) as).map
        (fun t => (t.expired, t.cancelled, t.called ++ t.posted)) =
          some ([0], [], [(1, .operationAborted), (0, .success)]) := by
      decide +kernel
    obtain ⟨t, hrun, ht⟩ := Option.map_eq_some_iff.mp hfinal
    obtain ⟨hexpired, ht⟩ := Prod.mk.inj ht
    obtain ⟨hcancelled, hcalled⟩ := Prod.mk.inj ht
    exact hown _ t hexpired hcancelled (hcalled ▸ List.mem_cons_self) ((h _ as t hrun).last hrun)

end Mjlib.Multiplex.FrameRead

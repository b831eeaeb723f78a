import Mathlib
import Mjlib.Io.ExclusiveCommandRun

/-!
# `ExclusiveCommand` serialises

`Phase` lists where the command that holds the object can be, from its start being posted to its end
being posted, and `Inv` says that the commands which were started, are about to start and are queued
are, in this order, all that were invoked and not removed.  Every step keeps it (`Inv.step`).
-/

namespace Mjlib.Io.ExclusiveCommand

variable {κ : Type*}

/-- Where the command that holds the object is; `pending` is the command that was taken from the
queue and has not started. -/
inductive Phase (s : State κ) : List ℕ → Prop
  | idle (hw : s.object.waiting = none) (hq : s.object.queued = []) (hp : s.posted = [])
      (hh : s.handling = []) (hs : s.started = s.handled) : Phase s []
  | posted {c : Concrete κ} (hw : s.object.waiting = some c) (hp : s.posted = [.invoke c])
      (hh : s.handling = []) (hs : s.started = s.handled) : Phase s [c.nonce]
  | running {c : Concrete κ} (hw : s.object.waiting = some c) (hp : s.posted = [])
      (hh : s.handling = []) (hs : s.started = s.handled ++ [c.nonce]) : Phase s []
  | handling {c : Concrete κ} (hw : s.object.waiting = some c) (hp : s.posted = [])
      (hh : s.handling = [c.nonce]) (hs : s.started = s.handled) : Phase s []
  | done {c : Concrete κ} (hw : s.object.waiting = some c) (hp : s.posted = [.itemDone])
      (hh : s.handling = []) (hs : s.started = s.handled) : Phase s []

/-- The nonces of the queue. -/
def nonces (queued : List (Concrete κ)) : List ℕ := queued.map Concrete.nonce

/-- The commands that were invoked and not removed. -/
def remaining (s : State κ) : List ℕ := (List.range s.object.made).filter (· ∉ s.removed)

/-- The invariant. -/
structure Inv (s : State κ) (pending : List ℕ) : Prop where
  failed : s.failed = false
  phase : Phase s pending
  order : s.started ++ pending ++ nonces s.object.queued = remaining s
  removed : ∀ n ∈ s.removed, n < s.object.made

theorem inv_new : Inv ({} : State κ) [] :=
  ⟨rfl, .idle rfl rfl rfl rfl rfl, rfl, nofun⟩

theorem Inv.not_failed {s : State κ} {pending : List ℕ} (h : Inv s pending) : ¬s.failed = true := by
  rw [h.failed]
  exact nofun

/-- No command comes twice. -/
theorem Inv.nodup {s : State κ} {pending : List ℕ} (h : Inv s pending) :
    (s.started ++ pending ++ nonces s.object.queued).Nodup := by
  rw [h.order]
  exact List.nodup_range.filter _

/-- `MaybeStart` on an object that is held. -/
theorem maybeStart_of_waiting {l : ExclusiveCommand κ} {c : Concrete κ} (h : l.waiting = some c) :
    l.maybeStart = (l, none) := by
  unfold maybeStart
  rw [h]
  rfl

theorem withObject_none (s : State κ) (object : ExclusiveCommand κ) :
    s.withObject (object, none) = { s with object := object } := by
  unfold State.withObject
  simp

/-- `MaybeStart` on an object that nobody holds. -/
theorem inv_maybeStart {s : State κ} (hfailed : s.failed = false) (hw : s.object.waiting = none)
    (hp : s.posted = []) (hh : s.handling = []) (hs : s.started = s.handled)
    (horder : s.started ++ nonces s.object.queued = remaining s)
    (hremoved : ∀ n ∈ s.removed, n < s.object.made) :
    ∃ pending, Inv (s.withObject s.object.maybeStart) pending := by
  cases hq : s.object.queued with
  | nil =>
    have hstart : s.object.maybeStart = (s.object, none) := by
      unfold maybeStart
      rw [hw, hq]
      rfl
    rw [hstart, withObject_none]
    refine ⟨[], hfailed, .idle hw hq hp hh hs, ?_, hremoved⟩
    rw [List.append_nil]
    exact horder
  | cons c queued =>
    have hstart : s.object.maybeStart =
        ({ s.object with waiting := some c, queued := queued }, some c) := by
      unfold maybeStart
      rw [hw, hq]
      rfl
    rw [hstart]
    refine ⟨[c.nonce], hfailed, .posted rfl ?_ hh hs, ?_, hremoved⟩
    · show s.posted ++ [.invoke c] = _
      rw [hp]
      rfl
    · rw [hq] at horder
      show s.started ++ [c.nonce] ++ nonces queued = _
      rw [List.append_assoc]
      exact horder

/-- A held object has another queue. -/
theorem Phase.of_waiting {s s' : State κ} {pending : List ℕ} {c : Concrete κ} (h : Phase s pending)
    (hw : s.object.waiting = some c) (hw' : s'.object.waiting = some c)
    (hp : s'.posted = s.posted) (hh : s'.handling = s.handling) (hs : s'.started = s.started)
    (hd : s'.handled = s.handled) : Phase s' pending := by
  cases h with
  | idle h => exact absurd (h.symm.trans hw) nofun
  | posted h hp₁ hh₁ hs₁ =>
    exact .posted (hw'.trans (hw.symm.trans h)) (hp.trans hp₁) (hh.trans hh₁)
      (hs.trans (hs₁.trans hd.symm))
  | running h hp₁ hh₁ hs₁ =>
    exact .running (hw'.trans (hw.symm.trans h)) (hp.trans hp₁) (hh.trans hh₁)
      (hs.trans (hs₁.trans (by rw [hd])))
  | handling h hp₁ hh₁ hs₁ =>
    exact .handling (hw'.trans (hw.symm.trans h)) (hp.trans hp₁) (hh.trans hh₁)
      (hs.trans (hs₁.trans hd.symm))
  | done h hp₁ hh₁ hs₁ =>
    exact .done (hw'.trans (hw.symm.trans h)) (hp.trans hp₁) (hh.trans hh₁)
      (hs.trans (hs₁.trans hd.symm))

/-- An object that nobody holds is idle. -/
theorem Phase.of_none {s : State κ} {pending : List ℕ} (h : Phase s pending)
    (hw : s.object.waiting = none) : pending = [] ∧ s.object.queued = [] ∧ s.posted = [] ∧
      s.handling = [] ∧ s.started = s.handled := by
  cases h with
  | idle _ hq hp hh hs => exact ⟨rfl, hq, hp, hh, hs⟩
  | posted h => exact absurd (hw.symm.trans h) nofun
  | running h => exact absurd (hw.symm.trans h) nofun
  | handling h => exact absurd (hw.symm.trans h) nofun
  | done h => exact absurd (hw.symm.trans h) nofun

/-- **`Invoke` keeps the invariant.** -/
theorem Inv.invoke {s : State κ} {pending : List ℕ} (h : Inv s pending) (command : κ) :
    ∃ pending', Inv (s.withObject (s.object.invoke command).2) pending' := by
  let c : Concrete κ := ⟨s.object.made, command⟩
  let s₁ : State κ := { s with
    object := { s.object with queued := s.object.queued ++ [c], made := s.object.made + 1 } }
  have hinvoke : s.withObject (s.object.invoke command).2 = s₁.withObject s₁.object.maybeStart := rfl
  have hnew : s.object.made ∉ s.removed := fun hm => lt_irrefl _ (h.removed _ hm)
  have horder : s.started ++ pending ++ nonces s₁.object.queued = remaining s₁ := by
    show s.started ++ pending ++ nonces (s.object.queued ++ [c]) =
      (List.range (s.object.made + 1)).filter (· ∉ s.removed)
    rw [nonces, List.map_append, ← List.append_assoc, List.range_succ, List.filter_append]
    refine congrArg₂ (· ++ ·) h.order ?_
    simp [hnew, c]
  have hremoved : ∀ n ∈ s₁.removed, n < s₁.object.made := fun n hn =>
    Nat.lt_succ_of_lt (h.removed n hn)
  rw [hinvoke]
  cases hw : s.object.waiting with
  | none =>
    obtain ⟨rfl, _, hp, hh, hs⟩ := h.phase.of_none hw
    rw [List.append_nil] at horder
    exact inv_maybeStart h.failed hw hp hh hs horder hremoved
  | some w =>
    have hw₁ : s₁.object.waiting = some w := hw
    rw [maybeStart_of_waiting hw₁, withObject_none]
    exact ⟨pending, h.failed, h.phase.of_waiting hw hw₁ rfl rfl rfl rfl, horder, hremoved⟩

/-! ### `remove` -/

/-- **`remove` returns 1 for the commands in the queue.** -/
theorem remove_fst_iff {l : ExclusiveCommand κ} {nonce : Option ℕ} :
    (l.remove nonce).1 = true ↔ ∃ n ∈ nonces l.queued, nonce = some n := by
  unfold ExclusiveCommand.remove nonces
  rw [List.any_eq_true]
  constructor
  · rintro ⟨w, hw, hn⟩
    exact ⟨w.nonce, List.mem_map_of_mem hw, (eq_of_beq hn).symm⟩
  · rintro ⟨n, hn, rfl⟩
    obtain ⟨w, hw, rfl⟩ := List.mem_map.mp hn
    exact ⟨w, hw, beq_self_eq_true _⟩

theorem nonces_filter (queued : List (Concrete κ)) (nonce : Option ℕ) :
    nonces (queued.filter fun w => some w.nonce != nonce) =
      (nonces queued).filter fun n => some n != nonce := by
  unfold nonces
  rw [List.filter_map]
  rfl

/-- A command that is not in the queue is removed in vain. -/
theorem remove_of_false {l : ExclusiveCommand κ} {nonce : Option ℕ} (h : (l.remove nonce).1 = false) :
    (l.remove nonce).2 = l := by
  have hall : l.queued.filter (fun w => some w.nonce != nonce) = l.queued := by
    refine List.filter_eq_self.mpr fun w hw => bne_iff_ne.mpr fun hn => ?_
    rw [remove_fst_iff.mpr ⟨w.nonce, List.mem_map_of_mem hw, hn.symm⟩] at h
    cases h
  unfold ExclusiveCommand.remove
  rw [hall]

/-- The state after a `remove`. -/
theorem step_remove {s : State κ} (hfailed : s.failed = false) (nonce : Option ℕ) :
    step s (.remove nonce) = some { s with
      object := (s.object.remove nonce).2
      removed := s.removed ++ if (s.object.remove nonce).1 then nonce.toList else [] } := by
  unfold step
  rw [hfailed]
  rfl

/-- **`remove` keeps the invariant.** -/
theorem Inv.remove {s s' : State κ} {pending : List ℕ} (h : Inv s pending) {nonce : Option ℕ}
    (hstep : step s (.remove nonce) = some s') : Inv s' pending := by
  rw [step_remove h.failed] at hstep
  cases hstep
  cases hfound : (s.object.remove nonce).1 with
  | false =>
    rw [remove_of_false hfound, if_neg nofun, List.append_nil]
    exact h
  | true =>
    obtain ⟨n, hn, rfl⟩ := remove_fst_iff.mp hfound
    have hdisjoint := (List.nodup_append.mp h.nodup).2.2
    have hfilter : (s.started ++ pending).filter (fun m => some m != some n) =
        s.started ++ pending :=
      List.filter_eq_self.mpr fun m hm => bne_iff_ne.mpr fun he =>
        hdisjoint m hm n hn (Option.some.inj he)
    refine ⟨h.failed, ?_, ?_, ?_⟩
    · cases hw : s.object.waiting with
      | none =>
        obtain ⟨_, hq, _⟩ := h.phase.of_none hw
        rw [hq] at hn
        cases hn
      | some w => exact h.phase.of_waiting hw hw rfl rfl rfl rfl
    · show s.started ++ pending ++ nonces (s.object.queued.filter _) =
        (List.range s.object.made).filter (· ∉ s.removed ++ [n])
      rw [nonces_filter, ← hfilter, ← List.filter_append, h.order, remaining, List.filter_filter]
      refine List.filter_congr fun m _ => ?_
      rw [Bool.eq_iff_iff]
      simp [and_comm]
    · intro m hm
      rcases List.mem_append.mp hm with hm | hm
      · exact h.removed m hm
      · obtain rfl := List.mem_singleton.mp hm
        have : m ∈ remaining s := h.order ▸ List.mem_append_right _ hn
        exact List.mem_range.mp (List.mem_of_mem_filter this)

/-! ### The executor and the commands -/

/-- **The executor's steps keep the invariant.** -/
theorem Inv.run {s s' : State κ} {pending : List ℕ} (h : Inv s pending) {i : ℕ}
    (hstep : step s (.run i) = some s') : ∃ pending', Inv s' pending' := by
  unfold step at hstep
  rw [if_neg h.not_failed] at hstep
  obtain ⟨task, htask, rfl⟩ := Option.map_eq_some_iff.mp hstep
  cases h.phase with
  | idle _ _ hp => rw [hp] at htask; cases htask
  | running _ hp => rw [hp] at htask; cases htask
  | handling _ hp => rw [hp] at htask; cases htask
  | @posted c hw hp hh hs =>
    rw [hp] at htask
    obtain ⟨rfl, rfl⟩ : i = 0 ∧ task = .invoke c := by
      cases i with
      | zero => exact ⟨rfl, (Option.some.inj htask).symm⟩
      | succ i => cases htask
    have horder := h.order
    refine ⟨[], h.failed, .running hw (by rw [hp]; rfl) hh ?_, ?_, h.removed⟩
    · exact congrArg (· ++ [c.nonce]) hs
    · rw [List.append_nil]
      exact horder
  | @done c hw hp hh hs =>
    rw [hp] at htask
    obtain ⟨rfl, rfl⟩ : i = 0 ∧ task = .itemDone := by
      cases i with
      | zero => exact ⟨rfl, (Option.some.inj htask).symm⟩
      | succ i => cases htask
    let s₁ : State κ := { s with posted := [], object := { s.object with waiting := none } }
    have hperform : ({ s with posted := s.posted.eraseIdx 0 } : State κ).perform .itemDone =
        s₁.withObject s₁.object.maybeStart := by
      unfold State.perform ExclusiveCommand.itemDone
      rw [hw, hp]
      rfl
    rw [hperform]
    have horder := h.order
    rw [List.append_nil] at horder
    exact inv_maybeStart (s := s₁) h.failed rfl rfl hh hs horder h.removed

/-- **A release keeps the invariant.** -/
theorem Inv.release {s s' : State κ} {pending : List ℕ} (h : Inv s pending) {n : ℕ}
    (hstep : step s (.release n) = some s') : Inv s' pending := by
  unfold step at hstep
  rw [if_neg h.not_failed] at hstep
  dsimp only at hstep
  split_ifs at hstep with hn
  cases hstep
  obtain ⟨hstarted, hhandled⟩ := hn
  cases h.phase with
  | idle _ _ _ _ hs => exact absurd (hs ▸ hstarted) hhandled
  | posted _ _ _ hs => exact absurd (hs ▸ hstarted) hhandled
  | handling _ _ _ hs => exact absurd (hs ▸ hstarted) hhandled
  | done _ _ _ hs => exact absurd (hs ▸ hstarted) hhandled
  | running hw hp hh hs =>
    rw [hs] at hstarted
    rcases List.mem_append.mp hstarted with hstarted | hstarted
    · exact absurd hstarted hhandled
    · obtain rfl := List.mem_singleton.mp hstarted
      exact ⟨h.failed, .handling hw hp (congrArg (· ++ _) hh) hs, h.order, h.removed⟩

/-- **The end of a completion handler keeps the invariant.** -/
theorem Inv.handled {s s' : State κ} {pending : List ℕ} (h : Inv s pending) {n : ℕ}
    (hstep : step s (.handled n) = some s') : Inv s' pending := by
  unfold step at hstep
  rw [if_neg h.not_failed] at hstep
  dsimp only at hstep
  split_ifs at hstep with hn hwaiting
  · cases hstep
    cases h.phase with
    | idle _ _ _ hh => rw [hh] at hn; cases hn
    | posted _ _ hh => rw [hh] at hn; cases hn
    | running _ _ hh => rw [hh] at hn; cases hn
    | done _ _ hh => rw [hh] at hn; cases hn
    | handling hw hp hh hs =>
      rw [hh] at hn
      obtain rfl := List.mem_singleton.mp hn
      refine ⟨h.failed, .done hw (congrArg (· ++ _) hp) ?_ hs, h.order, h.removed⟩
      rw [hh]
      exact List.erase_cons_head ..
  · cases h.phase with
    | idle _ _ _ hh => rw [hh] at hn; cases hn
    | posted hw => rw [hw] at hwaiting; exact absurd rfl hwaiting
    | running hw => rw [hw] at hwaiting; exact absurd rfl hwaiting
    | done hw => rw [hw] at hwaiting; exact absurd rfl hwaiting
    | handling hw => rw [hw] at hwaiting; exact absurd rfl hwaiting

/-! ### Runs -/

/-- **Every step keeps the invariant.** -/
theorem Inv.step {s s' : State κ} {pending : List ℕ} {a : Action κ} (h : Inv s pending)
    (hstep : ExclusiveCommand.step s a = some s') : ∃ pending', Inv s' pending' := by
  cases a with
  | invoke command =>
    unfold ExclusiveCommand.step at hstep
    rw [if_neg h.not_failed] at hstep
    cases hstep
    exact h.invoke command
  | remove nonce => exact ⟨pending, h.remove hstep⟩
  | run i => exact h.run hstep
  | release n => exact ⟨pending, h.release hstep⟩
  | handled n => exact ⟨pending, h.handled hstep⟩

/-- The commands that were taken from the queue. -/
def taken (s : State κ) : List ℕ :=
  s.started ++ s.posted.filterMap fun
    | .invoke waiting => some waiting.nonce
    | .itemDone => none

/-- The commands that were started and have not called their release handler. -/
def running (s : State κ) : List ℕ := s.started.filter (· ∉ s.handled)

theorem Phase.taken {s : State κ} {pending : List ℕ} (h : Phase s pending) :
    taken s = s.started ++ pending := by
  unfold ExclusiveCommand.taken
  cases h with
  | idle _ _ hp => rw [hp]; rfl
  | posted _ hp => rw [hp]; rfl
  | running _ hp => rw [hp]; rfl
  | handling _ hp => rw [hp]; rfl
  | done _ hp => rw [hp]; rfl

/-- What was handled was started before, all but at most one of them. -/
theorem Phase.started {s : State κ} {pending : List ℕ} (h : Phase s pending) :
    ∃ last : Option ℕ, s.started = s.handled ++ last.toList := by
  cases h with
  | @running c _ _ _ hs => exact ⟨some c.nonce, hs⟩
  | idle _ _ _ _ hs => exact ⟨none, hs.trans (List.append_nil _).symm⟩
  | posted _ _ _ hs => exact ⟨none, hs.trans (List.append_nil _).symm⟩
  | handling _ _ _ hs => exact ⟨none, hs.trans (List.append_nil _).symm⟩
  | done _ _ _ hs => exact ⟨none, hs.trans (List.append_nil _).symm⟩

/-- **`ExclusiveCommand` serialises.**  After any run, no assertion has failed, at most one command
runs, the commands that were started are the first of those that were invoked and not removed, in
this order, `remove` would return 1 exactly for the commands that were not taken from the queue (nor
removed before), what was removed has not started, no completion handler was called twice, and the
queue of an idle object is empty. -/
theorem serialises_of_run {as : List (Action κ)} {t : State κ}
    (hrun : Run.run step ({} : State κ) as = some t) :
    t.failed = false ∧ (running t).length ≤ 1 ∧
      t.started <+: (List.range t.object.made).filter (· ∉ t.removed) ∧
      (∀ n, (t.object.remove (some n)).1 = true ↔
        n < t.object.made ∧ n ∉ taken t ∧ n ∉ t.removed) ∧
      (∀ n ∈ t.removed, n ∉ t.started) ∧ t.handled.Nodup ∧
      (t.object.waiting = none → t.object.queued = []) := by
  have hstep (s : State κ) (a : Action κ) (s' : State κ) (h : ∃ pending, Inv s pending)
      (hs' : step s a = some s') : ∃ pending, Inv s' pending :=
    let ⟨_, h⟩ := h
    h.step hs'
  obtain ⟨pending, h⟩ := Run.run_induction hstep ⟨[], inv_new⟩ hrun
  obtain ⟨last, hlast⟩ := h.phase.started
  have hnodup := h.nodup
  have hstarted : t.started.Nodup :=
    (List.nodup_append.mp (List.nodup_append.mp hnodup).1).1
  refine ⟨h.failed, ?_, ?_, fun n => ?_, ?_, ?_, fun hw => (h.phase.of_none hw).2.1⟩
  · unfold running
    rw [hlast, List.filter_append, List.filter_eq_nil_iff.mpr (by simp), List.nil_append]
    refine (List.length_filter_le _ _).trans ?_
    cases last with
    | none => exact Nat.zero_le _
    | some n => exact le_rfl
  · refine ⟨pending ++ nonces t.object.queued, ?_⟩
    rw [← List.append_assoc]
    exact h.order
  · have hmem : n ∈ remaining t ↔ n < t.object.made ∧ n ∉ t.removed := by
      simp [remaining]
    rw [remove_fst_iff, h.phase.taken]
    rw [← h.order, List.mem_append] at hmem
    constructor
    · rintro ⟨m, hm, ⟨⟩⟩
      obtain ⟨hmade, hremoved⟩ := hmem.mp (Or.inr hm)
      refine ⟨hmade, fun ht => ?_, hremoved⟩
      exact (List.nodup_append.mp hnodup).2.2 n ht n hm rfl
    · rintro ⟨hmade, htaken, hremoved⟩
      exact ⟨n, (hmem.mpr ⟨hmade, hremoved⟩).resolve_left htaken, rfl⟩
  · intro n hn hs
    have : n ∈ remaining t := h.order ▸ List.mem_append_left _ (List.mem_append_left _ hs)
    simp [remaining, hn] at this
  · rw [hlast] at hstarted
    exact (List.nodup_append.mp hstarted).1

/-- A command is removed while another one runs. -/
theorem serialises_of_run_removed : ∃ t, Run.run step ({} : State Unit)
      [.invoke (), .invoke (), .invoke (), .run 0, .remove (some 1), .release 0, .handled 0, .run 0,
        .run 0] = some t ∧
    t.started = [0, 2] ∧ (running t).length ≤ 1 ∧ ∀ n ∈ t.removed, n ∉ t.started := by
  refine ⟨_, rfl, rfl, ?_⟩
  have h := serialises_of_run (show Run.run step ({} : State Unit)
    [.invoke (), .invoke (), .invoke (), .run 0, .remove (some 1), .release 0, .handled 0, .run 0,
      .run 0] = some _ from rfl)
  exact ⟨h.2.1, h.2.2.2.2.1⟩

end Mjlib.Io.ExclusiveCommand

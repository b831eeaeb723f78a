import Mathlib
import Mjlib.Multiplex.Equiv.StreamAsioClient.Undisturbed

/-!
# Is every write handler of a tunnel called once?

A handler that `async_write_some` is given waits in its tunnel, is posted, or was called (`Fate`).
In a run that cancels only what is in the queue, this is so in every state, the call is made when the
handler's own frame is written or when it was posted for its own write, and with nothing in flight the
handler was called (`writeHandler_once`).  A write that is canceled while its frame is written loses its
handler (`not_writeHandler_once`).
-/

namespace Mjlib.Multiplex.StreamAsioClient

open Io (Concrete ExclusiveCommand)

/-- The handler that a call of the application brings. -/
def Action.handler? : Action → Option ℕ
  | asyncTransmit _ _ handler => some handler
  | asyncReadSome _ _ handler => some handler
  | asyncWriteSome _ _ handler => some handler
  | _ => none

/-- The position of the task that the action completes. -/
def Action.task? : Action → Option ℕ
  | event k => some k
  | timer k => some k
  | frame k _ _ _ => some k
  | _ => none

/-! ### What the proofs carry -/

/-- What is known of the lock, the tasks and the nonces in every state of a run. -/
structure Known (env : Env) (s : State) : Prop where
  sized : ∀ task ∈ s.tasks, task.Sized env
  idle : s.lock.waiting = none → s.lock.queued = []
  read_lt : ∀ i n, (s.tunnel i).readNonce = some n → n < s.lock.made
  write_lt : ∀ i n, (s.tunnel i).writeNonce = some n → n < s.lock.made

/-- What is known of every state of the run, with the handler of a write. -/
structure Tracked (env : Env) (h : ℕ) (s : State) : Prop where
  coherent : Coherent s
  held : LockHeld s
  elsewhere : ¬ Elsewhere h s
  known : Known env s

/-- The handler waits in its tunnel; the nonce is its write's only. -/
structure Waits (i h n : ℕ) (s : State) : Prop where
  handler : ∀ j nonce, HasHandler h s j nonce ↔ j = i ∧ nonce = some n
  read_ne : ∀ j, (s.tunnel j).readNonce ≠ some n
  write_eq : ∀ j, (s.tunnel j).writeNonce = some n → j = i
  lt : n < s.lock.made
  posted : postedWith h s = []
  called : calledWith h s = []

/-- The command of the write is in flight. -/
def InFlight (i n : ℕ) (data : Bytes) (s : State) : Prop :=
  .pending ⟨n, .write i data⟩ ∈ items s ∨ .running ⟨n, .write i data⟩ ∈ items s

/-- The handler is posted, or was called, or neither, and no tunnel has it. -/
structure Left (h : ℕ) (posted : List Task) (called : List Completion) (s : State) : Prop where
  handler : ∀ j nonce, ¬ HasHandler h s j nonce
  posted : postedWith h s = posted
  called : calledWith h s = called

section
variable {env : Env} {i h n : ℕ} {data : Bytes} {s s' s₀ : State}

/-- An operation keeps what is known, whatever handler it is about. -/
theorem Known.undisturbed (hk : Known env s) (hu : Undisturbed env h s s') : Known env s' where
  sized := hu.sized hk.sized
  idle := hu.idle hk.idle
  read_lt := by
    intro j m hm
    have hle := hu.made_le
    rcases hu.readNonce j m hm with hold | hnew
    · exact (hk.read_lt j m hold).trans_le hle
    · exact hnew.2
  write_lt := by
    intro j m hm
    have hle := hu.made_le
    rcases hu.writeNonce j m hm with hold | hnew
    · exact (hk.write_lt j m hold).trans_le hle
    · exact hnew.2

theorem Waits.undisturbed (hw : Waits i h n s) (hs : ¬ Elsewhere h s)
    (hu : Undisturbed env h s s') : Waits i h n s' where
  handler := fun j nonce => (hu.handler j nonce).trans (hw.handler j nonce)
  read_ne := by
    intro j hj
    have hlt := hw.lt
    rcases hu.readNonce j n hj with hold | hnew
    · exact hw.read_ne j hold
    · omega
  write_eq := by
    intro j hj
    have hlt := hw.lt
    rcases hu.writeNonce j n hj with hold | hnew
    · exact hw.write_eq j hold
    · omega
  lt := hw.lt.trans_le hu.made_le
  posted := (hu.posted hs).trans hw.posted
  called := (hu.called hs).trans hw.called

/-- An item with the write's nonce stays. -/
theorem Waits.mem_items (hw : Waits i h n s) (hu : Undisturbed env h s s') {x : Item}
    (hx : x ∈ items s) (hn : x.nonce? = some n) : x ∈ items s' := by
  refine hu.items x hx n hn hw.lt hw.read_ne fun j hj => ?_
  obtain rfl := hw.write_eq j hj
  exact ((hw.handler j (some n)).mpr ⟨rfl, rfl⟩).1

theorem InFlight.undisturbed (hf : InFlight i n data s) (hw : Waits i h n s)
    (hu : Undisturbed env h s s') : InFlight i n data s' :=
  hf.imp (fun hx => hw.mem_items hu hx rfl) fun hx => hw.mem_items hu hx rfl

theorem Left.undisturbed {posted : List Task} {called : List Completion}
    (hl : Left h posted called s) (hs : ¬ Elsewhere h s) (hu : Undisturbed env h s s') :
    Left h posted called s' where
  handler := fun j nonce hh => hl.handler j nonce ((hu.handler j nonce).mp hh)
  posted := (hu.posted hs).trans hl.posted
  called := (hu.called hs).trans hl.called

/-! ### Calls -/

theorem makeTunnel_undisturbed (s : State) (server : UInt8) (channel : UInt32) :
    Undisturbed env h s
      { s with tunnels := s.tunnels ++ [Tunnel.mk server channel none none none none] } := by
  obtain ⟨s', hs'⟩ : ∃ s' : State, s' = { s with
    tunnels := s.tunnels ++ [Tunnel.mk server channel none none none none] } := ⟨_, rfl⟩
  -- a tunnel that is not there has no handler and no nonce, and neither has the new one
  have htunnel : ∀ j, (s'.tunnel j).writeHandler = (s.tunnel j).writeHandler ∧
      (s'.tunnel j).writeNonce = (s.tunnel j).writeNonce ∧
      (s'.tunnel j).readNonce = (s.tunnel j).readNonce := by
    intro j
    rw [hs', State.tunnel, State.tunnel, List.getD_eq_getElem?_getD, List.getD_eq_getElem?_getD]
    rcases lt_or_ge j s.tunnels.length with hj | hj
    · rw [List.getElem?_append_left hj]
      exact ⟨rfl, rfl, rfl⟩
    · rw [List.getElem?_append_right hj, List.getElem?_eq_none hj, List.getElem?_singleton]
      split_ifs <;> exact ⟨rfl, rfl, rfl⟩
  rw [← hs']
  constructor
  · rw [hs']
    exact id
  · rw [hs']
    exact fun _ => rfl
  · rw [hs']
    exact fun _ => rfl
  · intro j nonce
    unfold HasHandler
    rw [(htunnel j).1, (htunnel j).2.1]
  · rw [hs']
    exact id
  · rw [hs']
    exact id
  · rw [hs']
  · intro j n hn
    exact Or.inl ((htunnel j).2.2 ▸ hn)
  · intro j n hn
    exact Or.inl ((htunnel j).2.1 ▸ hn)
  · rw [hs']
    exact fun _ hx _ _ _ _ _ => hx

/-- A call of the application that is not about the handler. -/
theorem call_undisturbed {a : Action} (hs : ¬ Elsewhere h s) (hne : a.handler? ≠ some h)
    (hcancel : ∀ j, a = .cancel j → (s.tunnel j).writeHandler ≠ some h)
    (hcall : a.task? = none) (hstep : step env s a = some s') : Undisturbed env h s s' := by
  cases a with
  | makeTunnel server channel =>
    obtain rfl := Option.some.inj hstep
    exact makeTunnel_undisturbed s server channel
  | asyncTransmit request reply handler =>
    obtain rfl := Option.some.inj hstep
    exact .asyncTransmit fun heq => hne (congrArg some heq)
  | asyncReadSome i size handler =>
    rw [step] at hstep
    split_ifs at hstep
    exact .asyncReadSome hne hstep
  | asyncWriteSome i data handler =>
    rw [step] at hstep
    split_ifs at hstep
    exact .asyncWriteSome (fun heq => hne (congrArg some heq)) hstep
  | cancel j =>
    rw [step] at hstep
    split_ifs at hstep
    exact .cancel hs (hcancel j rfl) hstep
  | _ => simp [Action.task?] at hcall

/-! ### Tasks that complete -/

/-- The task neither posts the handler nor ends the write with it. -/
def NotOwn (h : ℕ) (s : State) (task : Task) : Prop :=
  task.Completes h = false ∧
    ∀ n i data size, task = .tunnelWrite n i data size → (s.tunnel i).writeHandler ≠ some h

theorem runEvent_undisturbed {task : Task} (hs : ¬ Elsewhere h s) (hh : h ∉ task.handlers)
    (hnot : NotOwn h s task) (hstep : runEvent env task s = some s') :
    Undisturbed env h s s' := by
  cases task with
  | invoke w => exact .invokeCommand hs hh hstep
  | itemDone =>
    obtain ⟨r, hr, rfl⟩ := Option.map_eq_some_iff.mp hstep
    unfold ExclusiveCommand.itemDone at hr
    split_ifs at hr
    obtain rfl := Option.some.inj hr
    exact .setLock le_rfl (fun w hw => Or.inl hw) fun _ hw => hw
  | registerDone nonce r ec =>
    have hstep' : release (.register r) ec 0 s = some s' := hstep
    have hh' : h ∉ (Command.register r).handlers := hh
    exact .release hs hh' (by simp) hstep'
  | complete handler ec size =>
    cases handler with
    | none =>
      obtain rfl := Option.some.inj hstep
      exact .refl env h s
    | some handler =>
      obtain rfl := Option.some.inj hstep
      exact .call (by simpa [Task.Completes] using hnot.1) _ _
  | pollTimer i c ec => exact .handlePollTimer hs hstep
  | _ => simp [runEvent] at hstep

theorem expire_undisturbed {task : Task} (hstep : expire task s = some s') :
    Undisturbed env h s s' := by
  cases task with
  | wait i c =>
    obtain rfl := Option.some.inj hstep
    exact .addTask List.not_mem_nil rfl trivial
  | _ => simp [expire] at hstep

theorem completeFrame_undisturbed {task : Task} (hs : ¬ Elsewhere h s) (hh : h ∉ task.handlers)
    (hnot : NotOwn h s task) {ec : ErrorCode} {rx : Frame} {queued : Bool}
    (hstep : completeFrame env task ec rx queued s = some s') : Undisturbed env h s s' := by
  cases task with
  | writeMultiple nonce request handler =>
    have hstep' : release (.transmit request handler) ec 0 s = some s' := hstep
    have hh' : h ∉ (Command.transmit request handler).handlers := hh
    exact .release hs hh' (by simp) hstep'
  | registerWrite nonce r =>
    exact .handleSingleWrite (fun heq => hh (by simp [Task.handlers, heq])) hstep
  | registerRead nonce r =>
    exact .handleRead (fun heq => hh (by simp [Task.handlers, heq])) hstep
  | requestWrite nonce i c =>
    rw [completeFrame] at hstep
    split_ifs at hstep
    obtain rfl := Option.some.inj hstep
    exact .addTask List.not_mem_nil rfl trivial
  | tunnelRead nonce i c => exact .tunnelHandleRead hs hstep
  | tunnelWrite nonce i data size =>
    refine .release hs List.not_mem_nil (fun i' data' heq => ?_) hstep
    obtain ⟨rfl, rfl⟩ := Command.write.inj heq
    exact hnot.2 nonce i data size rfl
  | _ => simp [completeFrame] at hstep

theorem get_of_take {k : ℕ} {task : Task} (htake : take k s = some (task, s₀)) :
    s.tasks[k]? = some task := by
  obtain ⟨task', hk, heq⟩ := Option.map_eq_some_iff.mp htake
  obtain ⟨rfl, -⟩ := Prod.mk.injEq .. ▸ heq
  exact hk

/-- A task is taken out of the list: where the handler is then. -/
theorem take_tracked {k : ℕ} {task : Task} (ht : Tracked env h s)
    (htake : take k s = some (task, s₀)) :
    ¬ Elsewhere h s₀ ∧ h ∉ task.handlers ∧ task.Sized env ∧ Known env s₀ ∧
      s₀.lock = s.lock ∧ (∀ j, s₀.tunnel j = s.tunnel j) ∧
      (postedWith h s).Perm ((if task.Completes h then [task] else []) ++ postedWith h s₀) ∧
      calledWith h s₀ = calledWith h s ∧ (items s).Perm (task.item?.toList ++ items s₀) := by
  obtain ⟨task', htask, heq⟩ := Option.map_eq_some_iff.mp htake
  obtain ⟨rfl, rfl⟩ := Prod.mk.injEq .. ▸ heq
  have hperm := perm_of_take htask
  have hmem : task' ∈ s.tasks := hperm.subset List.mem_cons_self
  have hsub : ∀ t ∈ s.tasks.eraseIdx k, t ∈ s.tasks := fun t ht' =>
    hperm.subset (List.mem_cons_of_mem _ ht')
  refine ⟨?_, fun hh => ht.elsewhere (Or.inr (Or.inl ⟨task', hmem, hh⟩)),
    ht.known.sized task' hmem, ⟨fun t ht' => ht.known.sized t (hsub t ht'), ht.known.idle,
      ht.known.read_lt, ht.known.write_lt⟩, rfl, fun _ => rfl, ?_, rfl, items_take htask⟩
  · rintro (hw | ⟨t, ht', hh⟩ | hc)
    · exact ht.elsewhere (Or.inl hw)
    · exact ht.elsewhere (Or.inr (Or.inl ⟨t, hsub t ht', hh⟩))
    · exact ht.elsewhere (Or.inr (Or.inr hc))
  · refine (hperm.filter _).symm.trans ?_
    rw [List.filter_cons]
    split_ifs <;> exact .refl _

/-! ### The write itself -/

/-- A tunnel loses its write handler. -/
theorem hasHandler_modifyTunnel {f : Tunnel → Tunnel} (hi : (s.tunnel i).writeHandler = some h)
    (hf : ∀ t, (f t).writeHandler = none) (j : ℕ) (nonce : Option ℕ) :
    HasHandler h (s.modifyTunnel i f) j nonce ↔ j ≠ i ∧ HasHandler h s j nonce := by
  have hlt : i < s.tunnels.length := lt_of_writeHandler (by rw [hi]; rfl)
  by_cases hj : i = j
  · subst hj
    unfold HasHandler
    rw [tunnel_modifyTunnel_self hlt]
    simp [hf]
  · unfold HasHandler
    rw [tunnel_modifyTunnel_of_ne s hj]
    exact (and_iff_right (Ne.symm hj)).symm

/-- The frame of the write is written: its handler is called. -/
theorem release_own (env : Env) {ec : ErrorCode} {size : ℕ} (hi : (s.tunnel i).writeHandler = some h)
    (hstep : release (.write i data) ec size s = some s') :
    Undisturbed env (h + 1) s s' ∧ (¬ Elsewhere h s → ¬ Elsewhere h s') ∧
      (∀ j nonce, HasHandler h s' j nonce ↔ j ≠ i ∧ HasHandler h s j nonce) ∧
      postedWith h s' = postedWith h s ∧ calledWith h s' = calledWith h s ++ [⟨h, ec, size⟩] := by
  have hne : (s.tunnel i).writeHandler ≠ some (h + 1) := by simp [hi]
  rw [release, handle] at hstep
  simp only [hi] at hstep
  split_ifs at hstep
  obtain rfl := Option.some.inj hstep
  have htunnel : Undisturbed env (h + 1) s
      (s.modifyTunnel i fun t => { t with writeHandler := none, writeNonce := none }) :=
    .modifyTunnel (Or.inr ⟨by simp, hne, Or.inr rfl⟩) (Or.inl rfl)
  refine ⟨(htunnel.trans (.call (by omega) ec size)).trans (.addTask List.not_mem_nil rfl trivial),
    ?_, fun j nonce => hasHandler_modifyTunnel hi (fun _ => rfl) j nonce, ?_, ?_⟩
  · rintro hs (hw | ⟨task, htask, hh⟩ | hc)
    · exact hs (Or.inl hw)
    · rcases List.mem_append.mp htask with hold | hnew
      · exact hs (Or.inr (Or.inl ⟨task, hold, hh⟩))
      · rw [List.mem_singleton.mp hnew] at hh
        exact absurd hh List.not_mem_nil
    · exact hs (Or.inr (Or.inr hc))
  · exact (List.filter_append ..).trans (List.append_nil _)
  · unfold calledWith State.addTask State.call
    rw [List.filter_append, List.filter_singleton]
    simp [State.modifyTunnel]

/-- The write is canceled in the queue: its handler is posted. -/
theorem cancelWrite_own (env : Env) {w : Concrete Command} (hi : (s.tunnel i).writeHandler = some h)
    (hw : w ∈ s.lock.queued) (hnonce : (s.tunnel i).writeNonce = some w.nonce)
    (hs' : s' = (cancelWrite i s).modifyTunnel i fun t => { t with
      writeHandler := none
      readNonce := none
      writeNonce := none }) :
    Undisturbed env (h + 1) s s' ∧ (¬ Elsewhere h s → ¬ Elsewhere h s') ∧
      (∀ j nonce, HasHandler h s' j nonce ↔ j ≠ i ∧ HasHandler h s j nonce) ∧
      postedWith h s' = postedWith h s ++ [.complete (some h) .operationAborted 0] ∧
      calledWith h s' = calledWith h s := by
  have hne : (s.tunnel i).writeHandler ≠ some (h + 1) := by simp [hi]
  have hwrite : Undisturbed env (h + 1) s (cancelWrite i s) := .cancelWrite hne
  have hremoved : (s.lock.remove (s.tunnel i).writeNonce).1 = true := by
    rw [hnonce]
    exact List.any_eq_true.mpr ⟨w, hw, by simp⟩
  have hcancel : cancelWrite i s
      = { s with lock := (s.lock.remove (s.tunnel i).writeNonce).2 }.addTask
          (.complete (some h) .operationAborted 0) := by
    rw [cancelWrite]
    dsimp only
    rw [if_pos hremoved, tunnel_setLock, hi]
  have hi' : ((cancelWrite i s).tunnel i).writeHandler = some h := by
    rw [tunnel_eq_of_tunnels_eq (cancelWrite_spec i s).2.1]
    exact hi
  rw [hs']
  refine ⟨hwrite.trans (.modifyTunnel (Or.inr ⟨by simp, hwrite.writeHandler_ne hne, Or.inr rfl⟩)
    (Or.inr rfl)), ?_, ?_, ?_, ?_⟩
  · intro hs
    unfold Elsewhere
    rw [hcancel]
    rintro (⟨w', hw', hh⟩ | ⟨task, htask, hh⟩ | hc)
    · exact hs (Or.inl ⟨w', List.mem_of_mem_filter hw', hh⟩)
    · rcases List.mem_append.mp htask with hold | hnew
      · exact hs (Or.inr (Or.inl ⟨task, hold, hh⟩))
      · rw [List.mem_singleton.mp hnew] at hh
        exact absurd hh List.not_mem_nil
    · exact hs (Or.inr (Or.inr hc))
  · intro j nonce
    refine (hasHandler_modifyTunnel hi' (fun _ => rfl) j nonce).trans (and_congr_right fun _ => ?_)
    unfold HasHandler
    rw [tunnel_eq_of_tunnels_eq (cancelWrite_spec i s).2.1]
  · unfold postedWith
    rw [hcancel]
    exact (List.filter_append ..).trans (by simp [Task.Completes])
  · unfold calledWith
    rw [hcancel]
    rfl

/-! ### Steps -/

/-- The action ends the write, with the arguments of its handler: its own frame was written, or its
handler was posted for itself. -/
def Ends (env : Env) (i n h : ℕ) (data : Bytes) (s : State) (a : Action) (c : Completion) : Prop :=
  (∃ k ec rx queued size, a = .frame k ec rx queued ∧
    s.tasks[k]? = some (.tunnelWrite n i data size) ∧ writeSize env data = some size ∧
    c = ⟨h, ec, if ec = .success then size else 0⟩) ∨
  ∃ k ec, a = .event k ∧ s.tasks[k]? = some (.complete (some h) ec 0) ∧ c = ⟨h, ec, 0⟩ ∧
    (ec = .operationAborted ∨ data = [] ∧ ec = .success)

/-- A task completes: what it does if it is not the write's own, and what it is otherwise. -/
theorem step_task {a : Action} (ht : Tracked env h s) {k : ℕ} (ha : a.task? = some k)
    (hstep : step env s a = some s') :
    ∃ task s₀, take k s = some (task, s₀) ∧ (NotOwn h s₀ task → Undisturbed env h s₀ s') ∧
      (∀ w, task = .invoke w → invokeCommand env w s₀ = some s') ∧
      (∀ n i data size, task = .tunnelWrite n i data size → ∃ ec rx queued,
        a = .frame k ec rx queued ∧
        release (.write i data) ec (if ec = .success then size else 0) s₀ = some s') ∧
      ∀ handler ec size, task = .complete (some handler) ec size →
        a = .event k ∧ s' = s₀.call handler ec size := by
  cases a with
  | event k' =>
    obtain rfl : k' = k := Option.some.inj ha
    obtain ⟨⟨task, s₀⟩, htake, hrun⟩ := Option.bind_eq_some_iff.mp hstep
    obtain ⟨hs₀, hh, -⟩ := take_tracked ht htake
    refine ⟨task, s₀, htake, fun hnot => runEvent_undisturbed hs₀ hh hnot hrun, ?_, ?_, ?_⟩
    · rintro w rfl
      exact hrun
    · rintro n i data size rfl
      simp [runEvent] at hrun
    · rintro handler ec size rfl
      exact ⟨rfl, (Option.some.inj hrun).symm⟩
  | timer k' =>
    obtain rfl : k' = k := Option.some.inj ha
    obtain ⟨⟨task, s₀⟩, htake, hrun⟩ := Option.bind_eq_some_iff.mp hstep
    refine ⟨task, s₀, htake, fun _ => expire_undisturbed hrun, ?_, ?_, ?_⟩
    · rintro w rfl
      simp [expire] at hrun
    · rintro n i data size rfl
      simp [expire] at hrun
    · rintro handler ec size rfl
      simp [expire] at hrun
  | frame k' ec rx queued =>
    obtain rfl : k' = k := Option.some.inj ha
    obtain ⟨⟨task, s₀⟩, htake, hrun⟩ := Option.bind_eq_some_iff.mp hstep
    obtain ⟨hs₀, hh, -⟩ := take_tracked ht htake
    refine ⟨task, s₀, htake, fun hnot => completeFrame_undisturbed hs₀ hh hnot hrun, ?_, ?_, ?_⟩
    · rintro w rfl
      simp [completeFrame] at hrun
    · rintro n i data size rfl
      exact ⟨ec, rx, queued, rfl, hrun⟩
    · rintro handler ec size rfl
      simp [completeFrame] at hrun
  | _ => simp [Action.task?] at ha

/-- A task that is not the handler's own completes. -/
theorem tracked_of_notOwn {k : ℕ} {task : Task} {a : Action} (ht : Tracked env h s)
    (htake : take k s = some (task, s₀)) (hnot : NotOwn h s₀ task)
    (hu : Undisturbed env h s₀ s') (hok : CancelOk s a) (hstep : step env s a = some s') :
    Tracked env h s' ∧ (∀ j nonce, HasHandler h s' j nonce ↔ HasHandler h s j nonce) ∧
      (postedWith h s').Perm (postedWith h s) ∧ calledWith h s' = calledWith h s := by
  obtain ⟨hs₀, -, -, hknown, -, htunnel, hposted, hcalled, -⟩ := take_tracked ht htake
  obtain ⟨hcoherent, hheld⟩ := step_lockHeld ⟨ht.coherent, ht.held⟩ hok hstep
  refine ⟨⟨hcoherent, hheld, hu.elsewhere hs₀, hknown.undisturbed hu⟩, fun j nonce => ?_, ?_, ?_⟩
  · refine (hu.handler j nonce).trans ?_
    unfold HasHandler
    rw [htunnel]
  · rw [hnot.1] at hposted
    rw [hu.posted hs₀]
    exact hposted.symm
  · rw [hu.called hs₀, hcalled]

/-- A handler that is posted, or was called, or is new, stays so until it is called. -/
theorem Left.step {a : Action} (ec : ErrorCode) {called : List Completion} (ht : Tracked env h s)
    {posted : List Task} (hposted : posted = [] ∨ posted = [.complete (some h) ec 0])
    (hl : Left h posted called s) (hok : CancelOk s a) (hne : a.handler? ≠ some h)
    (hstep : step env s a = some s') :
    Tracked env h s' ∧ (Left h posted called s' ∨
      ∃ k, a = .event k ∧ s.tasks[k]? = some (.complete (some h) ec 0) ∧
        posted = [.complete (some h) ec 0] ∧ Left h [] (called ++ [⟨h, ec, 0⟩]) s') := by
  have hnone : ∀ j, (s.tunnel j).writeHandler ≠ some h := fun j hj => hl.handler j _ ⟨hj, rfl⟩
  obtain ⟨hcoherent, hheld⟩ := step_lockHeld ⟨ht.coherent, ht.held⟩ hok hstep
  cases ha : a.task? with
  | none =>
    have hu : Undisturbed env h s s' :=
      call_undisturbed ht.elsewhere hne (fun j _ => hnone j) ha hstep
    exact ⟨⟨hcoherent, hheld, hu.elsewhere ht.elsewhere, ht.known.undisturbed hu⟩,
      Or.inl (hl.undisturbed ht.elsewhere hu)⟩
  | some k =>
    obtain ⟨task, s₀, htake, hquiet, -, -, hcomplete⟩ := step_task ht ha hstep
    obtain ⟨hs₀, -, -, hknown, -, htunnel, hperm, hcalled, -⟩ := take_tracked ht htake
    cases hown : task.Completes h with
    | false =>
      have hnot : NotOwn h s₀ task := ⟨hown, fun n i data size _ => by rw [htunnel]; exact hnone i⟩
      obtain ⟨ht', hhandler, hpost, hcall⟩ :=
        tracked_of_notOwn ht htake hnot (hquiet hnot) hok hstep
      refine ⟨ht', Or.inl ⟨fun j nonce hh => hl.handler j nonce ((hhandler j nonce).mp hh), ?_,
        hcall.trans hl.called⟩⟩
      rw [hl.posted] at hpost
      rcases hposted with rfl | rfl
      · exact List.perm_nil.mp hpost
      · exact List.perm_singleton.mp hpost
    | true =>
      -- the handler was posted, and is called now
      rw [hown, hl.posted] at hperm
      rcases hposted with rfl | rfl
      · exact absurd hperm.length_eq (by simp)
      have hsplit := List.perm_singleton.mp hperm.symm
      obtain ⟨htask, hrest⟩ : task = .complete (some h) ec 0 ∧ postedWith h s₀ = [] := by
        simpa using hsplit
      obtain ⟨rfl, rfl⟩ := hcomplete h ec 0 htask
      have hget := get_of_take htake
      have hu : Undisturbed env (h + 1) s₀ (s₀.call h ec 0) := .call (by omega) ec 0
      refine ⟨⟨hcoherent, hheld, hs₀, hknown.undisturbed hu⟩,
        Or.inr ⟨k, rfl, htask ▸ hget, rfl, ?_⟩⟩
      refine ⟨fun j nonce hh => hl.handler j nonce ?_, hrest, ?_⟩
      · unfold HasHandler at hh ⊢
        rw [← htunnel]
        exact hh
      · rw [← hl.called, ← hcalled]
        unfold calledWith State.call
        rw [List.filter_append, List.filter_singleton]
        simp

/-- The command of the write is the only item with its nonce. -/
theorem InFlight.eq_of_item {x y : Item} (hs : Coherent s) {L : List Item}
    (hperm : (items s).Perm (x :: L)) (hx : x.nonce? = some n) (hy : y ∈ items s)
    (hyn : y.nonce? = some n) : y = x := by
  rcases List.mem_cons.mp (hperm.subset hy) with rfl | hmem
  · rfl
  · exact absurd hyn (((CoherentOn.perm hs hperm).head_apart y hmem).1 n hx)

/-- The write is canceled in the queue. -/
theorem Waits.cancel (ht : Tracked env h s) (hw : Waits i h n s) (hok : CancelOk s (.cancel i))
    (hstep : step env s (.cancel i) = some s') :
    Tracked env h s' ∧ Left h [.complete (some h) .operationAborted 0] [] s' := by
  obtain ⟨hcoherent, hheld⟩ := step_lockHeld ⟨ht.coherent, ht.held⟩ hok hstep
  have hhas : HasHandler h s i (some n) := (hw.handler i (some n)).mpr ⟨rfl, rfl⟩
  rw [step] at hstep
  split_ifs at hstep
  obtain ⟨s₁, hu, hlock, hs'⟩ := Undisturbed.cancel_split env ht.elsewhere hstep
  have hw₁ := hw.undisturbed ht.elsewhere hu
  have hhas₁ : HasHandler h s₁ i (some n) := (hw₁.handler i (some n)).mpr ⟨rfl, rfl⟩
  -- the write is in the queue, also after the read was removed
  obtain ⟨w, hwq, hwn⟩ := hok.2 (by rw [hhas.1]; rfl)
  have hwn' : some w.nonce = some n := hwn.symm.trans hhas.2
  have hmem : w ∈ s₁.lock.queued := by
    rw [hlock ht.coherent]
    refine List.mem_filter.mpr ⟨hwq, ?_⟩
    have hread := hw.read_ne i
    rw [hwn']
    simpa using fun heq => hread heq.symm
  obtain ⟨hu', helsewhere, hhandler, hposted, hcalled⟩ :=
    cancelWrite_own env hhas₁.1 hmem (hhas₁.2.trans hwn'.symm) hs'
  refine ⟨⟨hcoherent, hheld, helsewhere (hu.elsewhere ht.elsewhere),
    (ht.known.undisturbed hu).undisturbed hu'⟩, fun j nonce hh => ?_, ?_, ?_⟩
  · obtain ⟨hj, hh'⟩ := (hhandler j nonce).mp hh
    exact hj ((hw₁.handler j nonce).mp hh').1
  · rw [hposted, hw₁.posted]
    rfl
  · rw [hcalled, hw₁.called]

/-- The write's frame is written. -/
theorem Waits.write {a : Action} {k : ℕ} {task : Task} (ht : Tracked env h s)
    (hw : Waits i h n s) (hf : InFlight i n data s) (hok : CancelOk s a)
    (hstep : StreamAsioClient.step env s a = some s') (htake : take k s = some (task, s₀))
    {n' i' size : ℕ} {data' : Bytes} (htask : task = .tunnelWrite n' i' data' size)
    (hi' : (s.tunnel i').writeHandler = some h)
    {ec : ErrorCode} {rx : Frame} {queued : Bool} (ha : a = .frame k ec rx queued)
    (hrelease : release (.write i' data') ec (if ec = .success then size else 0) s₀ = some s') :
    Tracked env h s' ∧ ∃ c, Ends env i n h data s a c ∧ Left h [] [c] s' := by
  obtain ⟨hcoherent, hheld⟩ := step_lockHeld ⟨ht.coherent, ht.held⟩ hok hstep
  obtain ⟨hs₀, -, hsized, hknown, hlock, htunnel, hperm, hcalled, hitems⟩ := take_tracked ht htake
  subst htask
  have hwrite : HasWrite s i' n' := by
    have hok' : (Item.running ⟨n', .write i' data'⟩).Ok s :=
      ht.coherent.ok _ (hitems.symm.subset List.mem_cons_self)
    exact hok'.2
  -- the tunnel, the nonce and the data are those of the write
  obtain ⟨rfl, hnonce⟩ := (hw.handler i' _).mp ⟨hi', rfl⟩
  obtain rfl : n' = n := Option.some.inj (hwrite.2.symm.trans hnonce)
  obtain rfl : data' = data := by
    rcases hf with hmem | hmem
    · exact absurd (InFlight.eq_of_item ht.coherent hitems rfl hmem rfl) (by simp)
    · have := InFlight.eq_of_item ht.coherent hitems rfl hmem rfl
      simp only [Item.running.injEq, Concrete.mk.injEq, Command.write.injEq, true_and] at this
      exact this.symm
  obtain ⟨hu, helsewhere, hhandler, hposted, hcall⟩ :=
    release_own env (by rw [htunnel]; exact hi') hrelease
  refine ⟨⟨hcoherent, hheld, helsewhere hs₀, hknown.undisturbed hu⟩,
    ⟨h, ec, if ec = .success then size else 0⟩,
    Or.inl ⟨k, ec, rx, queued, size, ha, get_of_take htake, hsized, rfl⟩,
    fun j nonce hh => ?_, ?_, ?_⟩
  · obtain ⟨hj, hh'⟩ := (hhandler j nonce).mp hh
    unfold HasHandler at hh'
    rw [htunnel] at hh'
    exact hj ((hw.handler j nonce).mp hh').1
  · rw [hposted]
    rw [hw.posted] at hperm
    exact List.perm_nil.mp hperm.symm
  · rw [hcall, hcalled, hw.called]
    rfl

theorem Waits.of_take {k : ℕ} {task : Task} (hw : Waits i h n s) (ht : Tracked env h s)
    (htake : take k s = some (task, s₀)) (hown : task.Completes h = false) :
    Waits i h n s₀ := by
  obtain ⟨-, -, -, -, hlock, htunnel, hperm, hcalled, -⟩ := take_tracked ht htake
  constructor
  · intro j nonce
    unfold HasHandler
    rw [htunnel]
    exact hw.handler j nonce
  · intro j
    rw [htunnel]
    exact hw.read_ne j
  · intro j
    rw [htunnel]
    exact hw.write_eq j
  · rw [hlock]
    exact hw.lt
  · rw [hown, hw.posted] at hperm
    exact List.perm_nil.mp hperm.symm
  · rw [hcalled]
    exact hw.called

/-- A task that does not end the write completes: the command of the write is still in flight. -/
theorem InFlight.of_take {task : Task} (hf : InFlight i n data s) (hw₀ : Waits i h n s₀)
    (hitems : (items s).Perm (task.item?.toList ++ items s₀)) (hnot : NotOwn h s₀ task)
    (hu : Undisturbed env h s₀ s')
    (hinvoke : ∀ w, task = .invoke w → invokeCommand env w s₀ = some s') :
    InFlight i n data s' := by
  have hhas : HasHandler h s₀ i (some n) := (hw₀.handler i (some n)).mpr ⟨rfl, rfl⟩
  rcases hf with hmem | hmem
  · rcases List.mem_append.mp (hitems.subset hmem) with hhead | htail
    · -- the write is invoked
      rw [Option.mem_toList] at hhead
      obtain rfl : task = .invoke ⟨n, .write i data⟩ := by
        cases task with
        | invoke w => exact congrArg Task.invoke (Item.pending.inj (Option.some.inj hhead))
        | _ => simp [Task.item?, Task.concrete?] at hhead
      have hstep := hinvoke _ rfl
      unfold invokeCommand at hstep
      dsimp only at hstep
      rcases hsize : writeSize env data with _ | size
      · simp [hsize] at hstep
      rw [hsize] at hstep
      obtain rfl := Option.some.inj hstep
      right
      refine List.mem_append_right _ (List.mem_filterMap.mpr ⟨.tunnelWrite n i data size, ?_, rfl⟩)
      exact List.mem_append_right _ (List.mem_singleton_self _)
    · exact Or.inl (hw₀.mem_items hu htail rfl)
  · rcases List.mem_append.mp (hitems.subset hmem) with hhead | htail
    · rw [Option.mem_toList] at hhead
      cases task with
      | tunnelWrite n' i' data' size =>
        simp only [Task.item?, Task.concrete?, Option.map_some, Option.some_inj,
          Item.running.injEq, Concrete.mk.injEq, Command.write.injEq] at hhead
        obtain ⟨-, rfl, -⟩ := hhead
        exact absurd hhas.1 (hnot.2 n' i' data' size rfl)
      | _ => simp [Task.item?, Task.concrete?] at hhead
    · exact Or.inr (hw₀.mem_items hu htail rfl)

/-- **One step of a write** whose handler waits: it goes on waiting, or the handler is posted by
`cancel`, or called when the write's own frame is written. -/
theorem Waits.step {a : Action} (ht : Tracked env h s) (hw : Waits i h n s)
    (hf : InFlight i n data s) (hok : CancelOk s a) (hne : a.handler? ≠ some h)
    (hstep : step env s a = some s') :
    Tracked env h s' ∧ (Waits i h n s' ∧ InFlight i n data s' ∨
      Left h [.complete (some h) .operationAborted 0] [] s' ∨
      ∃ c, Ends env i n h data s a c ∧ Left h [] [c] s') := by
  have honly : ∀ j, (s.tunnel j).writeHandler = some h → j = i := fun j hj =>
    ((hw.handler j _).mp ⟨hj, rfl⟩).1
  obtain ⟨hcoherent, hheld⟩ := step_lockHeld ⟨ht.coherent, ht.held⟩ hok hstep
  cases ha : a.task? with
  | none =>
    by_cases hcancel : a = .cancel i
    · subst hcancel
      exact (hw.cancel ht hok hstep).imp_right fun hl => Or.inr (Or.inl hl)
    · have hother : ∀ j, a = .cancel j → (s.tunnel j).writeHandler ≠ some h := by
        rintro j rfl hj
        exact hcancel (by rw [honly j hj])
      have hu : Undisturbed env h s s' := call_undisturbed ht.elsewhere hne hother ha hstep
      exact ⟨⟨hcoherent, hheld, hu.elsewhere ht.elsewhere, ht.known.undisturbed hu⟩,
        Or.inl ⟨hw.undisturbed ht.elsewhere hu, hf.undisturbed hw hu⟩⟩
  | some k =>
    obtain ⟨task, s₀, htake, hquiet, hinvoke, hwrite, -⟩ := step_task ht ha hstep
    obtain ⟨hs₀, -, -, hknown, hlock, htunnel, hperm, hcalled, hitems⟩ := take_tracked ht htake
    have hown : task.Completes h = false := by
      by_contra hbad
      rw [Bool.not_eq_false] at hbad
      rw [hbad, hw.posted] at hperm
      exact absurd hperm.length_eq (by simp)
    by_cases hnot : NotOwn h s₀ task
    · have hu := hquiet hnot
      obtain ⟨ht', -⟩ := tracked_of_notOwn ht htake hnot hu hok hstep
      have hw₀ := hw.of_take ht htake hown
      refine ⟨ht', Or.inl ⟨hw₀.undisturbed hs₀ hu, ?_⟩⟩
      exact hf.of_take hw₀ hitems hnot hu fun w hw' => hinvoke w hw'
    · obtain ⟨n', i', data', size, htask, hi'⟩ : ∃ n' i' data' size,
          task = .tunnelWrite n' i' data' size ∧ (s₀.tunnel i').writeHandler = some h := by
        by_contra hnone
        exact hnot ⟨hown, fun n' i' data' size htask hi' => hnone ⟨n', i', data', size, htask, hi'⟩⟩
      obtain ⟨ec, rx, queued, hframe, hrelease⟩ := hwrite n' i' data' size htask
      rw [htunnel] at hi'
      exact (hw.write ht hf hok hstep htake htask hi' hframe hrelease).imp_right fun hc =>
        Or.inr (Or.inr hc)

/-! ### Runs -/

/-- `async_write_some` is called with a handler that is nowhere yet. -/
theorem start_write (ht : Tracked env h s) (hl : Left h [] [] s)
    (hok : CancelOk s (.asyncWriteSome i data h))
    (hstep : step env s (.asyncWriteSome i data h) = some s') :
    Tracked env h s' ∧ (Waits i h s.lock.made s' ∧ InFlight i s.lock.made data s' ∨
      data = [] ∧ Left h [.complete (some h) .success 0] [] s') := by
  obtain ⟨hcoherent, hheld⟩ := step_lockHeld ⟨ht.coherent, ht.held⟩ hok hstep
  rw [step] at hstep
  split_ifs at hstep with hi
  have hu : Undisturbed env (h + 1) s s' := .asyncWriteSome (by omega) hstep
  have hknown := ht.known.undisturbed hu
  rw [asyncWriteSome] at hstep
  split_ifs at hstep with hnone hdata
  · -- nothing is written, and the handler is posted
    obtain rfl := Option.some.inj hstep
    refine ⟨⟨hcoherent, hheld, ?_, hknown⟩, Or.inr ⟨hdata, hl.handler, ?_, hl.called⟩⟩
    · rintro (hw | ⟨task, htask, hh⟩ | hc)
      · exact ht.elsewhere (Or.inl hw)
      · rcases List.mem_append.mp htask with hold | hnew
        · exact ht.elsewhere (Or.inr (Or.inl ⟨task, hold, hh⟩))
        · rw [List.mem_singleton.mp hnew] at hh
          exact absurd hh List.not_mem_nil
      · exact ht.elsewhere (Or.inr (Or.inr hc))
    · refine (List.filter_append ..).trans ?_
      rw [show s.tasks.filter (Task.Completes h) = [] from hl.posted, List.filter_singleton]
      simp [Task.Completes]
  · -- the state in which the lock is asked
    obtain ⟨s₁, hs₁⟩ : ∃ s₁ : State,
        s₁ = s.modifyTunnel i fun t => { t with writeHandler := some h } := ⟨_, rfl⟩
    have hs' : s' = (s₁.invoke (.write i data)).2.modifyTunnel i fun t =>
        { t with writeNonce := some (s₁.invoke (.write i data)).1 } := by
      rw [hs₁]
      exact (Option.some.inj hstep).symm
    obtain ⟨hnonce, hmade, htunnels, -, hperm, -⟩ := invoke_spec s₁ (.write i data)
    have hinvoke : Undisturbed env h s₁ (s₁.invoke (.write i data)).2 := .invoke List.not_mem_nil
    have hlock : s₁.lock = s.lock := by rw [hs₁]; rfl
    have he : ¬ Elsewhere h s₁ := by
      rw [hs₁]
      exact ht.elsewhere
    have htunnel : ∀ j, s'.tunnel j = if i = j then { s.tunnel j with
        writeHandler := some h
        writeNonce := some s.lock.made } else s.tunnel j := by
      intro j
      rw [hs', tunnel_modifyTunnel, htunnels, tunnel_eq_of_tunnels_eq htunnels, hnonce, hlock, hs₁,
        tunnel_modifyTunnel]
      by_cases hij : i = j
      · subst hij
        simp only [State.modifyTunnel, List.length_modify, hi, and_self, if_true]
      · simp only [hij, false_and, if_false]
    have helsewhere : ¬ Elsewhere h s' := by
      rw [hs']
      exact hinvoke.elsewhere he
    refine ⟨⟨hcoherent, hheld, helsewhere, hknown⟩, Or.inl ⟨⟨?_, ?_, ?_, ?_, ?_, ?_⟩, ?_⟩⟩
    · intro j nonce
      unfold HasHandler
      rw [htunnel]
      split_ifs with hij
      · subst hij
        simp [eq_comm]
      · exact iff_of_false (hl.handler j nonce) fun hj => hij hj.1.symm
    · intro j
      rw [htunnel]
      have hlt : (s.tunnel j).readNonce ≠ some s.lock.made := fun hj =>
        absurd (ht.known.read_lt j _ hj) (lt_irrefl _)
      split_ifs <;> exact hlt
    · intro j hj
      rw [htunnel] at hj
      split_ifs at hj with hij
      · exact hij.symm
      · exact absurd (ht.known.write_lt j _ hj) (lt_irrefl _)
    · rw [hs']
      change s.lock.made < (s₁.invoke (.write i data)).2.lock.made
      rw [hlock] at hmade
      omega
    · rw [hs']
      refine (hinvoke.posted he).trans ?_
      rw [hs₁]
      exact hl.posted
    · rw [hs']
      refine (hinvoke.called he).trans ?_
      rw [hs₁]
      exact hl.called
    · left
      rw [hs', ← hlock]
      exact hperm.symm.subset List.mem_cons_self

/-- What became of the handler of a write, after the actions that followed the call. -/
inductive Status (env : Env) (i n h : ℕ) (data : Bytes) (s : State) (ys : List Action) (t : State) :
    Prop
  | waits (hw : Waits i h n t) (hf : InFlight i n data t)
  | posted (ec : ErrorCode) (hec : ec = .operationAborted ∨ data = [] ∧ ec = .success)
      (hl : Left h [.complete (some h) ec 0] [] t)
  | called (ys₁ ys₂ : List Action) (a : Action) (u : State) (c : Completion)
      (hys : ys = ys₁ ++ a :: ys₂) (hrun : Run.run (step env) s ys₁ = some u)
      (hends : Ends env i n h data u a c) (hl : Left h [] [c] t)

/-- **One step after the call.** -/
theorem Status.step {ys : List Action} {a : Action} {t : State}
    (hstatus : Status env i n h data s ys s₀) (ht : Tracked env h s₀)
    (hrun : Run.run (StreamAsioClient.step env) s ys = some s₀) (hok : CancelOk s₀ a)
    (hne : a.handler? ≠ some h) (hstep : StreamAsioClient.step env s₀ a = some t) :
    Tracked env h t ∧ Status env i n h data s (ys ++ [a]) t := by
  cases hstatus with
  | waits hw hf =>
    obtain ⟨ht', ⟨hw', hf'⟩ | hl | ⟨c, hends, hl⟩⟩ := hw.step ht hf hok hne hstep
    · exact ⟨ht', .waits hw' hf'⟩
    · exact ⟨ht', .posted _ (Or.inl rfl) hl⟩
    · exact ⟨ht', .called ys [] a s₀ c rfl hrun hends hl⟩
  | posted ec hec hl =>
    obtain ⟨ht', hl' | ⟨k, rfl, hget, -, hl'⟩⟩ := hl.step ec ht (Or.inr rfl) hok hne hstep
    · exact ⟨ht', .posted ec hec hl'⟩
    · exact ⟨ht', .called ys [] _ s₀ ⟨h, ec, 0⟩ rfl hrun (Or.inr ⟨k, ec, rfl, hget, rfl, hec⟩) hl'⟩
  | called ys₁ ys₂ b u c hys hrun' hends hl =>
    obtain ⟨ht', hl' | ⟨k, -, -, hbad, -⟩⟩ := hl.step .success ht (Or.inl rfl) hok hne hstep
    · exact ⟨ht', .called ys₁ (ys₂ ++ [a]) b u c (by rw [hys]; simp) hrun' hends hl'⟩
    · simp at hbad

/-- **The actions after the call**, one by one. -/
theorem Status.run {ys : List Action} {t : State} (hstatus : Status env i n h data s [] s)
    (ht : Tracked env h s) (hne : ∀ a ∈ ys, a.handler? ≠ some h)
    (hok : Run.Guarded (StreamAsioClient.step env) CancelOk s ys)
    (hrun : Run.run (StreamAsioClient.step env) s ys = some t) :
    Tracked env h t ∧ Status env i n h data s ys t := by
  induction ys using List.reverseRecOn generalizing t with
  | nil =>
    cases hrun
    exact ⟨ht, hstatus⟩
  | append_singleton ys a ih =>
    obtain ⟨u, hu, hlast⟩ := (Run.run_append_eq_some _).mp hrun
    obtain ⟨hstep, heq⟩ : StreamAsioClient.step env u a = some t ∧ True := by
      obtain ⟨t', ht', hnil⟩ := (Run.run_cons_eq_some _).mp hlast
      cases hnil
      exact ⟨ht', trivial⟩
    obtain ⟨hok₁, hok₂⟩ := Run.guarded_append hok hu
    obtain ⟨hu', hstatus'⟩ := ih (fun b hb => hne b (List.mem_append_left _ hb)) hok₁ hu
    exact hstatus'.step hu' hu hok₂.1 (hne a (List.mem_append_right _ (List.mem_singleton_self a)))
      hstep

/-- A handler that no call has brought is nowhere. -/
theorem left_of_fresh {xs : List Action} (hne : ∀ a ∈ xs, a.handler? ≠ some h)
    (hok : Run.Guarded (StreamAsioClient.step env) CancelOk {} xs)
    (hrun : Run.run (StreamAsioClient.step env) {} xs = some s) :
    Tracked env h s ∧ Left h [] [] s := by
  have hstep : ∀ u a u', Tracked env h u ∧ Left h [] [] u → CancelOk u a ∧ a.handler? ≠ some h →
      StreamAsioClient.step env u a = some u' → Tracked env h u' ∧ Left h [] [] u' := by
    rintro u a u' ⟨hu, hl⟩ ⟨hcancel, hh⟩ hstep
    obtain ⟨hu', hl' | ⟨k, -, -, hbad, -⟩⟩ :=
      Left.step .success hu (Or.inl rfl) hl hcancel hh hstep
    · exact ⟨hu', hl'⟩
    · simp at hbad
  have hinit : Tracked env h {} ∧ Left h [] [] {} := by
    refine ⟨⟨coherent_init, fun w hw => ?_, ?_, ⟨?_, fun _ => rfl, ?_, ?_⟩⟩, ?_, rfl, rfl⟩
    · simp at hw
    · simp [Elsewhere]
    · simp
    · simp [State.tunnel]
    · simp [State.tunnel]
    · simp [HasHandler, State.tunnel]
  have hinv := Run.run_induction_of_guarded hstep hinit (Run.guarded_and_of_forall hok hne) hrun
  exact hinv

end

/-! ### Every write handler -/

/-- Every write that is queued, invoked or written for a tunnel has the tunnel's handler: no empty
handler is called for a write. -/
def WritesHaveHandlers (s : State) : Prop :=
  (∀ w ∈ s.lock.queued, ∀ i data, w.command = .write i data → HasWrite s i w.nonce) ∧
    (∀ w i data, .invoke w ∈ s.tasks → w.command = .write i data → HasWrite s i w.nonce) ∧
      ∀ n i data size, .tunnelWrite n i data size ∈ s.tasks → HasWrite s i n

theorem Coherent.writesHaveHandlers {s : State} (hs : Coherent s) : WritesHaveHandlers s := by
  refine ⟨fun w hw i data hcommand => ?_, fun w i data hw hcommand => ?_,
    fun n i data size htask => ?_⟩
  · have hok := hs.ok (.pending w) (List.mem_append_left _ (List.mem_map_of_mem hw))
    obtain ⟨nonce, command⟩ := w
    obtain rfl : command = .write i data := hcommand
    exact hok.2
  · have hok := hs.ok (.pending w)
      (List.mem_append_right _ (List.mem_filterMap.mpr ⟨_, hw, rfl⟩))
    obtain ⟨nonce, command⟩ := w
    obtain rfl : command = .write i data := hcommand
    exact hok.2
  · exact (hs.ok (.running ⟨n, .write i data⟩)
      (List.mem_append_right _ (List.mem_filterMap.mpr ⟨_, htask, rfl⟩))).2

/-- Something is in flight while a write is. -/
theorem InFlight.tasks_ne_nil {env : Env} {i h n : ℕ} {data : Bytes} {s : State}
    (hf : InFlight i n data s) (ht : Tracked env h s) : s.tasks ≠ [] := by
  intro htasks
  have hitems : items s = s.lock.queued.map .pending := by
    unfold items
    rw [htasks, List.filterMap_nil, List.append_nil]
  -- the write is in the queue, so the lock is taken, so it can be released
  have hqueued : s.lock.queued ≠ [] := by
    rintro hnil
    unfold InFlight at hf
    rw [hitems, hnil] at hf
    simp at hf
  cases hwaiting : s.lock.waiting with
  | none => exact hqueued (ht.known.idle hwaiting)
  | some w =>
    obtain ⟨task, hmem, -⟩ := ht.held w hwaiting
    rw [htasks] at hmem
    exact List.not_mem_nil hmem

/-- What becomes of a write handler. -/
inductive Fate (env : Env) (i n h : ℕ) (data : Bytes) (s : State) (ys : List Action) (t : State) :
    Prop
  /-- It waits in its tunnel, and something is in flight. -/
  | waiting (hhandler : (t.tunnel i).writeHandler = some h) (htasks : t.tasks ≠ [])
      (hcalled : calledWith h t = [])
  /-- It is posted. -/
  | posted (ec : ErrorCode) (htask : .complete (some h) ec 0 ∈ t.tasks)
      (hcalled : calledWith h t = [])
  /-- It was called once, with the result of its own write. -/
  | called (ys₁ ys₂ : List Action) (a : Action) (u : State) (c : Completion)
      (hys : ys = ys₁ ++ a :: ys₂) (hrun : Run.run (step env) s ys₁ = some u)
      (hends : Ends env i n h data u a c) (hcalled : calledWith h t = [c])

theorem Status.fate {env : Env} {i h n : ℕ} {data : Bytes} {s t : State} {ys : List Action}
    (hstatus : Status env i n h data s ys t) (ht : Tracked env h t) :
    Fate env i n h data s ys t := by
  cases hstatus with
  | waits hw hf =>
    exact .waiting ((hw.handler i (some n)).mpr ⟨rfl, rfl⟩).1 (hf.tasks_ne_nil ht) hw.called
  | posted ec hec hl =>
    refine .posted ec ?_ hl.called
    have hmem : Task.complete (some h) ec 0 ∈ postedWith h t := by
      rw [hl.posted]
      exact List.mem_singleton_self _
    exact List.mem_of_mem_filter hmem
  | called ys₁ ys₂ a u c hys hrun hends hl =>
    exact .called ys₁ ys₂ a u c hys hrun hends hl.called

/-- **Every write handler is called once**, in a run that cancels only what is in the queue: until then
something is in flight, and the call has the result of the handler's own write. -/
theorem writeHandler_once (env : Env) (xs ys : List Action) (i : ℕ) (data : Bytes) (h : ℕ)
    (s s₁ t : State) (hs : Run.run (step env) {} xs = some s)
    (hcall : step env s (.asyncWriteSome i data h) = some s₁)
    (ht : Run.run (step env) s₁ ys = some t) (hfresh : ∀ a ∈ xs ++ ys, a.handler? ≠ some h)
    (hok : Run.Guarded (step env) CancelOk {} (xs ++ .asyncWriteSome i data h :: ys)) :
    WritesHaveHandlers t ∧ Fate env i s.lock.made h data s₁ ys t := by
  obtain ⟨hok₁, hok₂⟩ := Run.guarded_append hok hs
  obtain ⟨htracked, hleft⟩ :=
    left_of_fresh (fun a ha => hfresh a (List.mem_append_left _ ha)) hok₁ hs
  obtain ⟨htracked₁, hstart⟩ := start_write htracked hleft hok₂.1 hcall
  have hstatus : Status env i s.lock.made h data s₁ [] s₁ := by
    rcases hstart with ⟨hw, hf⟩ | ⟨hdata, hl⟩
    · exact .waits hw hf
    · exact .posted .success (Or.inr ⟨hdata, rfl⟩) hl
  obtain ⟨htracked', hstatus'⟩ := hstatus.run htracked₁
    (fun a ha => hfresh a (List.mem_append_right _ ha)) (hok₂.2 s₁ hcall) ht
  exact ⟨htracked'.coherent.writesHaveHandlers, hstatus'.fate htracked'⟩

/-- A write waits in the queue while a transmission has the lock, is canceled there, and another one is
started before its handler is called. -/
theorem writeHandler_once_queued : ∃ s s₁ t : State,
    WritesHaveHandlers t ∧ Fate ⟨0, -1⟩ 0 s.lock.made 7 [5] s₁
      [.cancel 0, .asyncWriteSome 0 [6] 8, .event 1] t := by
  refine ⟨_, _, _, writeHandler_once ⟨0, -1⟩ [.makeTunnel 3 9, .asyncTransmit [] false 1]
    [.cancel 0, .asyncWriteSome 0 [6] 8, .event 1] 0 [5] 7 _ _ _ rfl rfl rfl ?_ ?_⟩
  · decide
  · refine Run.guarded_cons_of_eq rfl trivial (Run.guarded_cons_of_eq rfl trivial
      (Run.guarded_cons_of_eq rfl trivial (Run.guarded_cons_of_eq rfl ?_
        (Run.guarded_cons_of_eq rfl trivial (Run.guarded_cons_of_eq rfl trivial trivial)))))
    refine ⟨fun n hn => absurd (show none = some n from hn) nofun, fun _ => ?_⟩
    exact ⟨⟨1, .write 0 [5]⟩, List.mem_singleton_self _, rfl⟩

/-- A write is canceled while its frame is written: its handler is gone, and was not called. -/
theorem not_writeHandler_once : ¬ ∀ (env : Env) (xs ys : List Action) (i : ℕ) (data : Bytes) (h : ℕ)
    (s s₁ t : State), Run.run (step env) {} xs = some s →
      step env s (.asyncWriteSome i data h) = some s₁ → Run.run (step env) s₁ ys = some t →
        (∀ a ∈ xs ++ ys, a.handler? ≠ some h) →
          WritesHaveHandlers t ∧ Fate env i s.lock.made h data s₁ ys t := by
  intro hall
  obtain ⟨-, hfate⟩ := hall ⟨0, -1⟩ [.makeTunnel 3 9] [.event 0, .cancel 0] 0 [1] 7 _ _ _
    rfl rfl rfl (by decide)
  cases hfate with
  | waiting hhandler => exact absurd hhandler (by decide)
  | posted ec htask => exact absurd (List.mem_singleton.mp htask) (by simp)
  | called ys₁ ys₂ a u c hys hrun hends hcalled => 
    exact absurd (show ([] : List Completion) = [c] from hcalled) nofun

end Mjlib.Multiplex.StreamAsioClient

import Mjlib.Multiplex.Equiv.StreamAsioClient.ReadHandlers

/-!
# What most steps of a `StreamAsioClient` leave of its reads

`Quiet J s s'` says that the buffers and the bytes of every read context are in `s'` what they are in
`s`, and so is the context of every tunnel, unless the tunnel is in `J` and has given up its context.
Every operation is quiet that neither starts a read nor gets data.  A context whose poll timer runs,
or has expired, has not read anything: `quiet` steps keep that too (`Polls`).
-/

namespace Mjlib.Multiplex.StreamAsioClient

open Io (Concrete ExclusiveCommand)

/-- The context whose poll timer the task is. -/
def Task.polled? : Task → Option ℕ
  | wait _ c => some c
  | pollTimer _ c _ => some c
  | _ => none

/-- Nothing was read by a context whose poll timer is in flight. -/
def Polls (s : State) : Prop :=
  ∀ task ∈ s.tasks, ∀ c, task.polled? = some c → (s.context c).bytesRead = 0

/-- The reads are as they were, apart from those of the tunnels in `J` that are over. -/
structure Quiet (J : ℕ → Prop) (s s' : State) : Prop where
  length : s'.contexts.length = s.contexts.length
  buffers : ∀ c, (s'.context c).buffers = (s.context c).buffers
  bytesRead : ∀ c, (s'.context c).bytesRead = (s.context c).bytesRead
  received : ∀ c, (s'.context c).received = (s.context c).received
  readContext : ∀ j, (s'.tunnel j).readContext = (s.tunnel j).readContext ∨
    J j ∧ (s'.tunnel j).readContext = none
  polls : ∀ task ∈ s'.tasks, ∀ c, task.polled? = some c →
    (∃ task' ∈ s.tasks, task'.polled? = some c) ∨ (s.context c).bytesRead = 0

theorem take_eq_some {s s₀ : State} {k : ℕ} {task : Task} (htake : take k s = some (task, s₀)) :
    s.tasks[k]? = some task ∧ s₀ = { s with tasks := s.tasks.eraseIdx k } := by
  obtain ⟨task', htask, heq⟩ := Option.map_eq_some_iff.mp htake
  obtain ⟨rfl, rfl⟩ := Prod.mk.injEq .. ▸ heq
  exact ⟨htask, rfl⟩

namespace Quiet

variable {J : ℕ → Prop} {s s' s'' : State} {c j : ℕ} {task : Task}

theorem refl (s : State) : Quiet J s s :=
  ⟨rfl, fun _ => rfl, fun _ => rfl, fun _ => rfl, fun _ => Or.inl rfl,
    fun task htask _ hc => Or.inl ⟨task, htask, hc⟩⟩

theorem trans (h : Quiet J s s') (h' : Quiet J s' s'') : Quiet J s s'' where
  length := h'.length.trans h.length
  buffers := fun c => (h'.buffers c).trans (h.buffers c)
  bytesRead := fun c => (h'.bytesRead c).trans (h.bytesRead c)
  received := fun c => (h'.received c).trans (h.received c)
  readContext := by
    intro j
    rcases h'.readContext j with heq | ⟨hj, hnone⟩
    · rw [heq]
      exact h.readContext j
    · exact Or.inr ⟨hj, hnone⟩
  polls := by
    intro task htask c hc
    rcases h'.polls task htask c hc with ⟨task', htask', hc'⟩ | hzero
    · exact h.polls task' htask' c hc'
    · exact Or.inr ((h.bytesRead c).symm.trans hzero)

theorem mono {K : ℕ → Prop} (h : Quiet J s s') (hK : ∀ j, J j → K j) : Quiet K s s' :=
  ⟨h.length, h.buffers, h.bytesRead, h.received,
    fun j => (h.readContext j).imp_right (And.imp_left (hK j)), h.polls⟩

/-- The contexts and the tunnels are the same, and the tasks are old ones or no timers. -/
theorem of_eq (hcontexts : s'.contexts = s.contexts) (htunnels : s'.tunnels = s.tunnels)
    (htasks : ∀ task ∈ s'.tasks, task ∈ s.tasks ∨ task.polled? = none) : Quiet J s s' where
  length := by rw [hcontexts]
  buffers := fun c => by rw [context_eq_of_contexts_eq hcontexts]
  bytesRead := fun c => by rw [context_eq_of_contexts_eq hcontexts]
  received := fun c => by rw [context_eq_of_contexts_eq hcontexts]
  readContext := fun j => Or.inl (by rw [tunnel_eq_of_tunnels_eq htunnels])
  polls := by
    intro task htask c hc
    rcases htasks task htask with hold | hnone
    · exact Or.inl ⟨task, hold, hc⟩
    · rw [hnone] at hc
      exact nomatch hc

/-- A task is added that is no timer. -/
theorem addTask (h : Quiet J s s') (hpolled : task.polled? = none) :
    Quiet J s (s'.addTask task) := by
  refine h.trans (of_eq rfl rfl fun task' htask' => ?_)
  rcases List.mem_append.mp htask' with hold | hnew
  · exact Or.inl hold
  · rw [List.mem_singleton.mp hnew]
    exact Or.inr hpolled

/-- A context that has read nothing waits for its timer. -/
theorem addPoll (h : Quiet J s s') (hpolled : task.polled? = some c)
    (hzero : (s.context c).bytesRead = 0) : Quiet J s (s'.addTask task) where
  length := h.length
  buffers := h.buffers
  bytesRead := h.bytesRead
  received := h.received
  readContext := h.readContext
  polls := by
    intro task' htask' c' hc'
    rcases List.mem_append.mp htask' with hold | hnew
    · exact h.polls task' hold c' hc'
    · rw [List.mem_singleton.mp hnew, hpolled] at hc'
      obtain rfl := Option.some.inj hc'
      exact Or.inr hzero

theorem call (h : Quiet J s s') (handler : ℕ) (ec : ErrorCode) (size : ℕ) :
    Quiet J s (s'.call handler ec size) :=
  h.trans (of_eq rfl rfl fun _ htask => Or.inl htask)

theorem setLock (h : Quiet J s s') (r : ExclusiveCommand Command × Option (Concrete Command)) :
    Quiet J s (s'.setLock r) := by
  obtain ⟨l, _ | w⟩ := r
  · exact h.trans (of_eq rfl rfl fun _ htask => Or.inl htask)
  · have hlock : Quiet J s { s' with lock := l } :=
      h.trans (of_eq rfl rfl fun _ htask => Or.inl htask)
    exact hlock.addTask rfl

theorem invoke (h : Quiet J s s') (command : Command) : Quiet J s (s'.invoke command).2 :=
  h.setLock (s'.lock.invoke command).2

/-- A tunnel is changed; if it loses its context, it is in `J`. -/
theorem modifyTunnel (h : Quiet J s s') {f : Tunnel → Tunnel}
    (hf : (f (s'.tunnel j)).readContext = (s'.tunnel j).readContext ∨
      J j ∧ (f (s'.tunnel j)).readContext = none) : Quiet J s (s'.modifyTunnel j f) := by
  refine h.trans ⟨rfl, fun _ => rfl, fun _ => rfl, fun _ => rfl, fun j' => ?_,
    fun task htask _ hc => Or.inl ⟨task, htask, hc⟩⟩
  rw [tunnel_modifyTunnel]
  split_ifs with hj
  · obtain ⟨rfl, -⟩ := hj
    exact hf
  · exact Or.inl rfl

/-- A context is changed, but not what it reads. -/
theorem modifyContext (h : Quiet J s s') {f : ReadContext → ReadContext}
    (hbuffers : ∀ ctx, (f ctx).buffers = ctx.buffers)
    (hbytesRead : ∀ ctx, (f ctx).bytesRead = ctx.bytesRead)
    (hreceived : ∀ ctx, (f ctx).received = ctx.received) : Quiet J s (s'.modifyContext c f) := by
  refine h.trans ⟨List.length_modify .., fun c' => ?_, fun c' => ?_, fun c' => ?_,
    fun _ => Or.inl rfl, fun task htask _ hc => Or.inl ⟨task, htask, hc⟩⟩ <;>
    rw [context_modifyContext] <;> split_ifs
  · exact hbuffers _
  · rfl
  · exact hbytesRead _
  · rfl
  · exact hreceived _
  · rfl

theorem cancelTimer (h : Quiet J s s') (j : ℕ) : Quiet J s (cancelTimer j s') := by
  refine h.trans ⟨rfl, fun _ => rfl, fun _ => rfl, fun _ => rfl, fun _ => Or.inl rfl, ?_⟩
  intro task htask c hc
  obtain ⟨task', htask', rfl⟩ := List.mem_map.mp htask
  refine Or.inl ⟨task', htask', ?_⟩
  cases task' with
  | wait j' c' =>
    change Task.polled? (if j' = j then .pollTimer j' c' .operationAborted else .wait j' c') = _ at hc
    split_ifs at hc <;> exact hc
  | _ => exact hc

/-- A task is taken out of the list. -/
theorem take {k : ℕ} (htake : take k s = some (task, s')) : Quiet J s s' := by
  obtain ⟨-, rfl⟩ := take_eq_some htake
  exact of_eq rfl rfl fun _ hmem => Or.inl (List.mem_of_mem_eraseIdx hmem)

theorem keepsPolls (h : Quiet J s s') (hs : Polls s) : Polls s' := by
  intro task htask c hc
  rw [h.bytesRead]
  rcases h.polls task htask c hc with ⟨task', htask', hc'⟩ | hzero
  · exact hs task' htask' c hc'
  · exact hzero

end Quiet

/-! ### Operations -/

section
variable {J : ℕ → Prop} {s s' : State} {j c n : ℕ} {env : Env}

theorem sequenceRegister_quiet (s : State) (request : List IdRequest) (reply : Bool)
    (handler : ℕ) : Quiet J s (sequenceRegister request reply handler s) := by
  cases request with
  | nil => exact (Quiet.refl s).addTask rfl
  | cons thisRequest remainder => exact (Quiet.refl s).invoke _

theorem asyncTransmit_quiet (s : State) (request : List IdRequest) (reply : Bool)
    (handler : ℕ) : Quiet J s (asyncTransmit request reply handler s) := by
  rw [asyncTransmit]
  split_ifs
  · exact sequenceRegister_quiet s request reply handler
  · exact (Quiet.refl s).invoke _

theorem asyncWriteSome_quiet {data : Bytes} {handler : ℕ}
    (hstep : asyncWriteSome j data handler s = some s') : Quiet J s s' := by
  rw [asyncWriteSome] at hstep
  split_ifs at hstep
  · obtain rfl := Option.some.inj hstep
    exact (Quiet.refl s).addTask rfl
  · obtain rfl := Option.some.inj hstep
    have hwrite := (Quiet.refl (J := J) s).modifyTunnel (j := j)
      (f := fun t => { t with writeHandler := some handler }) (Or.inl rfl)
    exact (hwrite.invoke (.write j data)).modifyTunnel (Or.inl rfl)

theorem cancelRead_quiet (hstep : cancelRead j s = some s') : Quiet J s s' := by
  rw [cancelRead_eq, removeRead] at hstep
  have hmarked : Quiet J s (marked j s) := by
    rw [marked]
    cases (s.tunnel j).readContext with
    | none => exact .refl s
    | some c => exact (Quiet.refl s).modifyContext (fun _ => rfl) (fun _ => rfl) fun _ => rfl
  have hlock : Quiet J s { marked j s with
      lock := ((marked j s).lock.remove ((marked j s).tunnel j).readNonce).2 } :=
    hmarked.trans (.of_eq rfl rfl fun _ htask => Or.inl htask)
  dsimp only at hstep
  split_ifs at hstep
  · rw [tunnel_setLock] at hstep
    cases hcontext : ((marked j s).tunnel j).readContext with
    | none => simp [hcontext] at hstep
    | some c =>
      rw [hcontext] at hstep
      obtain rfl := Option.some.inj hstep
      exact (hlock.addTask rfl).modifyContext (fun _ => rfl) (fun _ => rfl) fun _ => rfl
  · obtain rfl := Option.some.inj hstep
    exact hlock

theorem cancelWrite_quiet (j : ℕ) (s : State) : Quiet J s (cancelWrite j s) := by
  obtain ⟨-, htunnels, hcontexts, -⟩ := cancelWrite_spec j s
  refine .of_eq hcontexts htunnels fun task htask => ?_
  rw [cancelWrite] at htask
  dsimp only at htask
  split_ifs at htask
  · rcases List.mem_append.mp htask with hold | hnew
    · exact Or.inl hold
    · rw [List.mem_singleton.mp hnew]
      exact Or.inr rfl
  · exact Or.inl htask

theorem cancel_quiet (hstep : cancel j s = some s') : Quiet (· = j) s s' := by
  rw [cancel] at hstep
  rcases hr : cancelRead j s with _ | s₁
  · simp [hr] at hstep
  rw [hr] at hstep
  obtain rfl := Option.some.inj hstep
  obtain ⟨s₂, hs₂⟩ : ∃ s₂, s₂ = (cancelTimer j s₁).modifyTunnel j
    fun t => { t with readContext := none } := ⟨_, rfl⟩
  have hread : Quiet (· = j) s s₂ := by
    rw [hs₂]
    exact ((cancelRead_quiet hr).cancelTimer j).modifyTunnel (Or.inr ⟨rfl, rfl⟩)
  rw [← hs₂]
  refine Quiet.modifyTunnel ?_ (Or.inl rfl)
  exact hread.trans (cancelWrite_quiet j s₂)

theorem makeTunnel_quiet (s : State) (server : UInt8) (channel : UInt32) :
    Quiet J s { s with
      tunnels := s.tunnels ++ [Tunnel.mk server channel none none none none] } :=
  ⟨rfl, fun _ => rfl, fun _ => rfl, fun _ => rfl,
    fun j => Or.inl ((makeTunnel_sameReads (h := 0) s server channel).readContext j),
    fun task htask _ hc => Or.inl ⟨task, htask, hc⟩⟩

/-- A command that is not a read is over. -/
theorem handle_quiet {command : Command} (hread : ∀ j c, command ≠ .read j c) {ec : ErrorCode}
    {size : ℕ} {b : Bool} (hstep : handle command ec size s = some (b, s')) : Quiet J s s' := by
  cases command with
  | transmit request handler =>
    obtain ⟨-, rfl⟩ := Prod.mk.injEq .. ▸ Option.some.inj hstep
    exact (Quiet.refl s).call handler ec 0
  | register r =>
    rw [handle] at hstep
    split_ifs at hstep
    · obtain ⟨-, rfl⟩ := Prod.mk.injEq .. ▸ Option.some.inj hstep
      exact (Quiet.refl s).addTask rfl
    · obtain ⟨-, rfl⟩ := Prod.mk.injEq .. ▸ Option.some.inj hstep
      exact sequenceRegister_quiet s r.remainder r.reply r.handler
  | read j c => exact absurd rfl (hread j c)
  | write j data =>
    have hforget := (Quiet.refl (J := J) s).modifyTunnel (j := j)
      (f := fun t => { t with writeHandler := none, writeNonce := none }) (Or.inl rfl)
    rw [handle] at hstep
    cases hhandler : (s.tunnel j).writeHandler with
    | none =>
      rw [hhandler] at hstep
      obtain ⟨-, rfl⟩ := Prod.mk.injEq .. ▸ Option.some.inj hstep
      exact hforget
    | some handler =>
      rw [hhandler] at hstep
      obtain ⟨-, rfl⟩ := Prod.mk.injEq .. ▸ Option.some.inj hstep
      exact hforget.call handler ec size

theorem release_quiet {command : Command} (hread : ∀ j c, command ≠ .read j c) {ec : ErrorCode}
    {size : ℕ} (hstep : release command ec size s = some s') : Quiet J s s' := by
  rw [release] at hstep
  rcases hr : handle command ec size s with _ | ⟨_ | _, s₁⟩
  · simp [hr] at hstep
  · rw [hr] at hstep
    obtain rfl := Option.some.inj hstep
    exact handle_quiet hread hr
  · rw [hr] at hstep
    dsimp only at hstep
    split_ifs at hstep
    obtain rfl := Option.some.inj hstep
    exact (handle_quiet hread hr).addTask rfl

theorem invokeCommand_quiet {w : Concrete Command} (hstep : invokeCommand env w s = some s') :
    Quiet J s s' := by
  obtain ⟨n, request | r | ⟨j, c⟩ | ⟨j, data⟩⟩ := w
  · obtain rfl := Option.some.inj hstep
    refine Quiet.addTask ?_ rfl
    exact .of_eq rfl rfl fun _ htask => Or.inl htask
  · obtain rfl := Option.some.inj hstep
    refine Quiet.addTask ?_ rfl
    exact .of_eq rfl rfl fun _ htask => Or.inl htask
  · have hforget := (Quiet.refl (J := J) s).modifyTunnel (j := j)
      (f := fun t => { t with readNonce := none }) (Or.inl rfl)
    rw [invokeCommand] at hstep
    dsimp only at hstep
    split_ifs at hstep
    · split at hstep
      · obtain rfl := Option.some.inj hstep
        exact hforget
      · obtain rfl := Option.some.inj hstep
        exact hforget.call _ .operationAborted 0
    · obtain rfl := Option.some.inj hstep
      refine Quiet.addTask (hforget.trans ?_) rfl
      exact .of_eq rfl rfl fun _ htask => Or.inl htask
  · rw [invokeCommand] at hstep
    dsimp only at hstep
    split at hstep
    · cases hstep
    · obtain rfl := Option.some.inj hstep
      refine Quiet.addTask ?_ rfl
      exact .of_eq rfl rfl fun _ htask => Or.inl htask

theorem itemDone_quiet (hstep : s.lock.itemDone.map s.setLock = some s') : Quiet J s s' := by
  obtain ⟨r, -, rfl⟩ := Option.map_eq_some_iff.mp hstep
  exact (Quiet.refl s).setLock r

theorem handleSingleWrite_quiet {r : RegisterCommand} {ec : ErrorCode}
    (hstep : handleSingleWrite n r ec s = some s') : Quiet J s s' := by
  rw [handleSingleWrite] at hstep
  split_ifs at hstep
  · obtain rfl := Option.some.inj hstep
    exact (Quiet.refl s).addTask rfl
  · obtain rfl := Option.some.inj hstep
    exact (Quiet.refl s).addTask rfl

theorem handleRead_quiet {r : RegisterCommand} {ec : ErrorCode} {rx : Frame}
    (hstep : handleRead n r ec rx s = some s') : Quiet J s s' := by
  rw [handleRead] at hstep
  split_ifs at hstep
  · obtain rfl := Option.some.inj hstep
    exact (Quiet.refl s).addTask rfl
  · obtain rfl := Option.some.inj hstep
    exact (Quiet.refl s).addTask rfl
  · obtain rfl := Option.some.inj hstep
    refine Quiet.addTask ?_ rfl
    exact .of_eq rfl rfl fun _ htask => Or.inl htask
  · obtain rfl := Option.some.inj hstep
    refine Quiet.addTask ?_ rfl
    exact .of_eq rfl rfl fun _ htask => Or.inl htask

end

/-! ### Reads -/

section
variable {J : ℕ → Prop} {s s' : State} {j c n size : ℕ} {handler : Option ℕ} {env : Env}

/-- A read is started, with a new context. -/
structure Starts (j size : ℕ) (handler : Option ℕ) (s s' : State) : Prop where
  contexts : s'.contexts = s.contexts ++ [ReadContext.mk handler size false 0 []]
  readContext : ∀ j', (s'.tunnel j').readContext
    = if j = j' then some s.contexts.length else (s.tunnel j').readContext
  tasks : ∀ task ∈ s'.tasks, task ∈ s.tasks ∨ task.polled? = none

theorem mem_tasks_setLock (s : State)
    (r : ExclusiveCommand Command × Option (Concrete Command)) {task : Task}
    (htask : task ∈ (s.setLock r).tasks) : task ∈ s.tasks ∨ task.polled? = none := by
  obtain ⟨l, _ | w⟩ := r
  · exact Or.inl htask
  · rcases List.mem_append.mp htask with hold | hnew
    · exact Or.inl hold
    · rw [List.mem_singleton.mp hnew]
      exact Or.inr rfl

theorem asyncReadSome_cases (hj : j < s.tunnels.length)
    (hstep : asyncReadSome j size handler s = some s') :
    (s.tunnel j).readContext = none ∧
      (size = 0 ∧ Quiet J s s' ∨ size ≠ 0 ∧ Starts j size handler s s') := by
  rw [asyncReadSome] at hstep
  split_ifs at hstep with hsome hsize
  · obtain rfl := Option.some.inj hstep
    exact ⟨by simpa using hsome, Or.inl ⟨hsize, (Quiet.refl s).addTask rfl⟩⟩
  obtain rfl := Option.some.inj hstep
  refine ⟨by simpa using hsome, Or.inr ⟨hsize, ?_⟩⟩
  obtain ⟨s₁, hs₁⟩ : ∃ s₁ : State, s₁ = { s with
      contexts := s.contexts ++ [ReadContext.mk handler size false 0 []] }.modifyTunnel j
        fun t => { t with readContext := some s.contexts.length } := ⟨_, rfl⟩
  obtain ⟨-, -, htunnels, hcontexts, -⟩ := invoke_spec s₁ (.read j s.contexts.length)
  rw [← hs₁]
  refine ⟨?_, fun j' => ?_, fun task htask => ?_⟩
  · refine hcontexts.trans ?_
    rw [hs₁]
    rfl
  · have hold : ∀ t : Tunnel, ({ t with readNonce := some s₁.lock.made } : Tunnel).readContext
        = t.readContext := fun _ => rfl
    have hnonce : (((s₁.invoke (.read j s.contexts.length)).2.modifyTunnel j fun t =>
        { t with readNonce := some s₁.lock.made }).tunnel j').readContext
          = (s₁.tunnel j').readContext := by
      rw [tunnel_modifyTunnel]
      split_ifs <;> rw [tunnel_eq_of_tunnels_eq htunnels]
    refine hnonce.trans ?_
    rw [hs₁, tunnel_modifyTunnel]
    by_cases hjj' : j = j'
    · subst hjj'
      rw [if_pos ⟨rfl, hj⟩, if_pos rfl]
    · rw [if_neg fun h => hjj' h.1, if_neg hjj']
      rfl
  · have hmem : task ∈ (s₁.invoke (.read j s.contexts.length)).2.tasks := htask
    have htasks : s₁.tasks = s.tasks := by rw [hs₁]; rfl
    rw [← htasks]
    exact mem_tasks_setLock s₁ (s₁.lock.invoke (Command.read j s.contexts.length)).2 hmem

/-- The read's buffers and handler are moved out of its context, and the tunnel is free. -/
def cleared (j c : ℕ) (s : State) : State :=
  (s.modifyContext c fun ctx => { ctx with handler := none, buffers := 0 }).modifyTunnel j
    fun t => { t with readContext := none }

theorem handlePollTimer_cases {ec : ErrorCode} (hstep : handlePollTimer ec j c s = some s') :
    ((s.context c).canceled = true ∧ Quiet J s s') ∨ ((s.context c).canceled = false ∧
      asyncReadSome j (s.context c).buffers (s.context c).handler (cleared j c s) = some s') := by
  rw [handlePollTimer] at hstep
  by_cases hcanceled : (s.context c).canceled = true
  · rw [if_pos hcanceled] at hstep
    obtain rfl := Option.some.inj hstep
    exact Or.inl ⟨hcanceled, ((Quiet.refl s).addTask rfl).modifyContext (fun _ => rfl)
      (fun _ => rfl) fun _ => rfl⟩
  rw [if_neg hcanceled] at hstep
  split_ifs at hstep
  exact Or.inr ⟨by simpa using hcanceled, hstep⟩

/-- What a read does when its command ends. -/
theorem release_read_cases {ec : ErrorCode}
    (hstep : release (.read j c) ec size s = some s') :
    ((s.context c).canceled = true ∧ Quiet J s s' ∧
      s'.tasks = s.tasks ++ [.complete (s.context c).handler .operationAborted 0, .itemDone]) ∨
    ((s.context c).canceled = false ∧ 0 < (s.context c).bytesRead ∧ Quiet (· = j) s s' ∧
      (s'.tunnel j).readContext = none ∧ s'.tasks = s.tasks
        ++ [.complete (s.context c).handler .success (s.context c).bytesRead, .itemDone]) ∨
    ((s.context c).canceled = false ∧ (s.context c).bytesRead = 0 ∧ Quiet J s s' ∧
      s'.tasks = (cancelTimer j s).tasks ++ [.wait j c, .itemDone]) := by
  rw [release, handle] at hstep
  rcases hretry : maybeRetry ec j c s with _ | s₁
  · simp [hretry] at hstep
  rw [hretry, Option.map_some] at hstep
  dsimp only at hstep
  split_ifs at hstep
  obtain rfl := Option.some.inj hstep
  rw [maybeRetry] at hretry
  by_cases hcanceled : (s.context c).canceled = true
  · rw [if_pos hcanceled] at hretry
    obtain rfl := Option.some.inj hretry
    refine Or.inl ⟨hcanceled, Quiet.addTask ?_ rfl, List.append_assoc ..⟩
    exact ((Quiet.refl s).addTask rfl).modifyContext (fun _ => rfl) (fun _ => rfl) fun _ => rfl
  have hcanceled' : (s.context c).canceled = false := by simpa using hcanceled
  rw [if_neg hcanceled] at hretry
  split_ifs at hretry with hec hread
  · obtain rfl := Option.some.inj hretry
    refine Or.inr (Or.inl ⟨hcanceled', hread, Quiet.addTask ?_ rfl, ?_, List.append_assoc ..⟩)
    · refine Quiet.modifyTunnel ?_ (Or.inr ⟨rfl, rfl⟩)
      exact ((Quiet.refl s).addTask rfl).modifyContext (fun _ => rfl) (fun _ => rfl) fun _ => rfl
    · change (State.tunnel (State.modifyTunnel j _ _) j).readContext = none
      rw [tunnel_modifyTunnel]
      split_ifs with hlt
      · rfl
      · rw [State.tunnel, List.getD_eq_getElem?_getD, List.getElem?_eq_none]
        · rfl
        · exact not_lt.mp fun hj => hlt ⟨rfl, hj⟩
  · obtain rfl := Option.some.inj hretry
    have hzero : (s.context c).bytesRead = 0 := Nat.eq_zero_of_not_pos hread
    refine Or.inr (Or.inr ⟨hcanceled', hzero, Quiet.addTask ?_ rfl, List.append_assoc ..⟩)
    exact ((Quiet.refl s).cancelTimer j).addPoll (c := c) rfl hzero

/-- The data of a reply is copied. -/
def copied (c : ℕ) (data : Bytes) (s : State) : State :=
  s.modifyContext c fun ctx => { ctx with
    received := ctx.received ++ data.take (s.context c).buffers
    bytesRead := ctx.bytesRead + data.length }

theorem tunnelHandleRead_cases {ec : ErrorCode} {rx : Frame} {queued : Bool}
    (hstep : tunnelHandleRead env n j c ec rx queued s = some s') :
    ((s.context c).canceled = true ∧ release (.read j c) .operationAborted 0 s = some s') ∨
    ((s.context c).canceled = false ∧
      (ec = .operationAborted ∨ tunnelData env (s.tunnel j) rx = none) ∧
      release (.read j c) .success 0 s = some s') ∨
    ((s.context c).canceled = false ∧ ec ≠ .operationAborted ∧
      ∃ data, tunnelData env (s.tunnel j) rx = some data ∧
        ((queued = true ∧ data.length < (s.context c).buffers) ∧
            s' = ((copied c data s).modifyContext c fun ctx =>
              { ctx with buffers := (s.context c).buffers - data.length }).addTask
                (.tunnelRead n j c) ∨
          ¬ (queued = true ∧ data.length < (s.context c).buffers) ∧
            release (.read j c) .success ((copied c data s).context c).bytesRead (copied c data s)
              = some s')) := by
  rw [tunnelHandleRead] at hstep
  by_cases hcanceled : (s.context c).canceled = true
  · rw [if_pos hcanceled] at hstep
    exact Or.inl ⟨hcanceled, hstep⟩
  have hcanceled' : (s.context c).canceled = false := by simpa using hcanceled
  rw [if_neg hcanceled] at hstep
  by_cases hec : ec = .operationAborted
  · rw [if_pos hec] at hstep
    exact Or.inr (Or.inl ⟨hcanceled', Or.inl hec, hstep⟩)
  rw [if_neg hec] at hstep
  rcases hdata : tunnelData env (s.tunnel j) rx with _ | data
  · rw [hdata] at hstep
    exact Or.inr (Or.inl ⟨hcanceled', Or.inr rfl, hstep⟩)
  rw [hdata] at hstep
  refine Or.inr (Or.inr ⟨hcanceled', hec, data, rfl, ?_⟩)
  dsimp only at hstep
  rw [← copied] at hstep
  split_ifs at hstep with hflush
  · exact Or.inl ⟨hflush, (Option.some.inj hstep).symm⟩
  · exact Or.inr ⟨hflush, hstep⟩

end

/-! ### Tasks -/

section
variable {J : ℕ → Prop} {s s' : State} {task : Task} {env : Env}

/-- An event is run that is no callback of a poll timer. -/
theorem runEvent_quiet (htask : ∀ j c ec, task ≠ .pollTimer j c ec)
    (hstep : runEvent env task s = some s') : Quiet J s s' := by
  cases task with
  | invoke w => exact invokeCommand_quiet hstep
  | itemDone => exact itemDone_quiet hstep
  | registerDone n r ec =>
    have hstep' : release (.register r) ec 0 s = some s' := hstep
    exact release_quiet (by nofun) hstep'
  | complete handler ec size =>
    cases handler with
    | none =>
      obtain rfl := Option.some.inj hstep
      exact .refl s
    | some handler =>
      obtain rfl := Option.some.inj hstep
      exact (Quiet.refl s).call handler ec size
  | pollTimer j c ec => exact absurd rfl (htask j c ec)
  | _ => simp [runEvent] at hstep

/-- An operation of the frame stream completes that is not the read of a reply for a tunnel. -/
theorem completeFrame_quiet (htask : ∀ n j c, task ≠ .tunnelRead n j c) {ec : ErrorCode}
    {rx : Frame} {queued : Bool} (hstep : completeFrame env task ec rx queued s = some s') :
    Quiet J s s' := by
  cases task with
  | writeMultiple n request handler =>
    have hstep' : release (.transmit request handler) ec 0 s = some s' := hstep
    exact release_quiet (fun _ _ h => by cases h) hstep'
  | registerWrite n r => exact handleSingleWrite_quiet hstep
  | registerRead n r => exact handleRead_quiet hstep
  | requestWrite n j c =>
    rw [completeFrame] at hstep
    split_ifs at hstep
    obtain rfl := Option.some.inj hstep
    exact (Quiet.refl s).addTask rfl
  | tunnelRead n j c => exact absurd rfl (htask n j c)
  | tunnelWrite n j data size =>
    have hstep' : release (.write j data) ec (if ec = .success then size else 0) s = some s' :=
      hstep
    exact release_quiet (fun _ _ h => by cases h) hstep'
  | _ => simp [completeFrame] at hstep

/-- A poll timer expires. -/
theorem expire_quiet {k : ℕ} {s₀ : State} (hs : Polls s) (htake : take k s = some (task, s₀))
    (hstep : expire task s₀ = some s') : Quiet J s s' := by
  have hmem : task ∈ s.tasks := List.mem_of_getElem? (take_eq_some htake).1
  cases task with
  | wait j c =>
    obtain rfl := Option.some.inj hstep
    exact (Quiet.take htake).addPoll (c := c) rfl (hs _ hmem c rfl)
  | _ => simp [expire] at hstep

end

end Mjlib.Multiplex.StreamAsioClient

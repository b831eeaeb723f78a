import Mjlib.Multiplex.Equiv.StreamAsioClient.Keeps
import Mjlib.Multiplex.StreamAsioBus

/-!
# Which request a reply belongs to

The transmissions take turns, so that `tx_frame_` is the frame of the request whose answer is being
read (`serial_step`).  A frame is taken for that answer if it comes from the device of the request;
no part of it says which request it answers.  So the values of a reply come from answers to requests
of its own transmission as long as no other answer of that device arrives meanwhile (`belongs`).
-/

namespace Mjlib.Multiplex.StreamAsioClient

open Io (Concrete ExclusiveCommand)

variable {env : Env}

/-! ### One command at a time -/

/-- The commands of transmissions. -/
def Command.IsTransmission : Command → Prop
  | .transmit _ _ => True
  | .register _ => True
  | _ => False

/-- The tasks that a command with the lock goes through. -/
def Task.holdsLock : Task → Bool
  | .complete _ _ _ => false
  | _ => true

/-- The tasks there are without tunnels; a request that is written or read for is the one in
`tx_frame_`. -/
def Task.Serial (env : Env) (txFrame : Frame) : Task → Prop
  | .invoke w => w.command.IsTransmission
  | .registerWrite _ r => txFrame.sourceId = env.sourceId ∧ txFrame.destId = r.request.id
  | .registerRead _ r => txFrame.sourceId = env.sourceId ∧ txFrame.destId = r.request.id
  | .itemDone => True
  | .registerDone _ _ _ => True
  | .complete _ _ _ => True
  | .writeMultiple _ _ _ => True
  | _ => False

/-- At most one task holds the lock, and none does while the lock is free. -/
structure Serial (env : Env) (s : State) : Prop where
  tasks : ∀ task ∈ s.tasks, task.Serial env s.txFrame
  queued : ∀ w ∈ s.lock.queued, w.command.IsTransmission
  holders : s.tasks.countP Task.holdsLock ≤ if s.lock.waiting.isSome then 1 else 0

/-- The state while a task is being run: it is the one that holds the lock. -/
structure Held (env : Env) (s : State) : Prop where
  tasks : ∀ task ∈ s.tasks, task.Serial env s.txFrame
  queued : ∀ w ∈ s.lock.queued, w.command.IsTransmission
  waiting : s.lock.waiting.isSome
  holders : s.tasks.countP Task.holdsLock = 0

theorem serial_init : Serial env {} where
  tasks := nofun
  queued := nofun
  holders := Nat.le_refl _

theorem Serial.addComplete {s : State} (hs : Serial env s) (handler : Option ℕ) (ec : ErrorCode)
    (size : ℕ) : Serial env (s.addTask (.complete handler ec size)) := by
  refine ⟨fun task htask => ?_, hs.queued, ?_⟩
  · obtain htask | htask := List.mem_append.mp htask
    · exact hs.tasks task htask
    · rw [List.mem_singleton.mp htask]
      trivial
  · show (s.tasks ++ [Task.complete handler ec size]).countP Task.holdsLock ≤ _
    rw [List.countP_append]
    exact hs.holders

theorem Held.addComplete {s : State} (hs : Held env s) (handler : Option ℕ) (ec : ErrorCode)
    (size : ℕ) : Held env (s.addTask (.complete handler ec size)) := by
  refine ⟨fun task htask => ?_, hs.queued, hs.waiting, ?_⟩
  · obtain htask | htask := List.mem_append.mp htask
    · exact hs.tasks task htask
    · rw [List.mem_singleton.mp htask]
      trivial
  · show (s.tasks ++ [Task.complete handler ec size]).countP Task.holdsLock = _
    rw [List.countP_append]
    exact hs.holders

/-- The task that was run passes the lock on to another one. -/
theorem Held.addTask {s : State} (hs : Held env s) {task : Task}
    (htask : task.Serial env s.txFrame) : Serial env (s.addTask task) := by
  refine ⟨fun task' htask' => ?_, hs.queued, ?_⟩
  · obtain htask' | htask' := List.mem_append.mp htask'
    · exact hs.tasks task' htask'
    · rw [List.mem_singleton.mp htask']
      exact htask
  · show (s.tasks ++ [task]).countP Task.holdsLock ≤ if s.lock.waiting.isSome then 1 else 0
    rw [List.countP_append, hs.holders, if_pos hs.waiting, Nat.zero_add]
    exact List.countP_le_length

/-- Without a task that holds the lock all tasks go with any frame. -/
theorem Held.withFrame {s : State} (hs : Held env s) (txFrame : Frame) :
    Held env { s with txFrame := txFrame } := by
  refine ⟨fun task htask => ?_, hs.queued, hs.waiting, hs.holders⟩
  have hno := List.countP_eq_zero.mp hs.holders task htask
  have htask' := hs.tasks task htask
  cases task with
  | complete handler ec size => trivial
  | _ => exact absurd rfl hno

theorem Held.withReplies {s : State} (hs : Held env s) (replies : List (ℕ × IdRegisterValue)) :
    Held env { s with replies := replies } :=
  ⟨hs.tasks, hs.queued, hs.waiting, hs.holders⟩

/-! ### The lock -/

/-- The lock is free: the first command that waits gets it. -/
theorem serial_setLock {s : State} {l : ExclusiveCommand Command}
    (htasks : ∀ task ∈ s.tasks, task.Serial env s.txFrame)
    (hqueued : ∀ w ∈ l.queued, w.command.IsTransmission)
    (hholders : s.tasks.countP Task.holdsLock ≤ if l.waiting.isSome then 1 else 0) :
    Serial env (s.setLock l.maybeStart) := by
  rw [ExclusiveCommand.maybeStart]
  by_cases hw : l.waiting.isSome
  · rw [if_pos hw]
    rw [if_pos hw] at hholders
    refine ⟨htasks, hqueued, ?_⟩
    show s.tasks.countP Task.holdsLock ≤ if l.waiting.isSome then 1 else 0
    rwa [if_pos hw]
  rw [if_neg hw] at hholders ⊢
  cases hq : l.queued with
  | nil =>
    refine ⟨htasks, ?_, ?_⟩
    · show ∀ w ∈ l.queued, _
      exact hqueued
    · exact hholders.trans (Nat.zero_le _)
  | cons front queued =>
    rw [hq] at hqueued
    refine ⟨fun task htask => ?_, fun w hw => hqueued w (List.mem_cons_of_mem _ hw), ?_⟩
    · obtain htask | htask := List.mem_append.mp htask
      · exact htasks task htask
      · rw [List.mem_singleton.mp htask]
        exact hqueued front List.mem_cons_self
    · show (s.tasks ++ [Task.invoke front]).countP Task.holdsLock ≤ 1
      rw [List.countP_append]
      exact Nat.add_le_add_right hholders 1

theorem Serial.invoke {s : State} (hs : Serial env s) {command : Command}
    (hcommand : command.IsTransmission) : Serial env (s.invoke command).2 := by
  refine serial_setLock hs.tasks (fun w hw => ?_) hs.holders
  obtain hw | hw := List.mem_append.mp hw
  · exact hs.queued w hw
  · rw [List.mem_singleton.mp hw]
    exact hcommand

theorem Held.invoke {s : State} (hs : Held env s) {command : Command}
    (hcommand : command.IsTransmission) : Held env (s.invoke command).2 := by
  have hw := hs.waiting
  simp only [State.invoke, ExclusiveCommand.invoke, ExclusiveCommand.maybeStart, hw, if_true,
    State.setLock]
  refine ⟨hs.tasks, fun w hw' => ?_, hw, hs.holders⟩
  obtain hw' | hw' := List.mem_append.mp hw'
  · exact hs.queued w hw'
  · rw [List.mem_singleton.mp hw']
    exact hcommand

/-! ### The tasks -/

/-- A task is taken out of the list: it holds the lock, and no other one does. -/
theorem Serial.take {s s₀ : State} {k : ℕ} {task : Task} (hs : Serial env s)
    (h : take k s = some (task, s₀)) :
    task.Serial env s₀.txFrame ∧ (task.holdsLock = true → Held env s₀) ∧
      (task.holdsLock = false → Serial env s₀) ∧ s.tasks[k]? = some task ∧
      s₀.replies = s.replies := by
  obtain ⟨task', htask, heq⟩ := Option.map_eq_some_iff.mp h
  obtain ⟨rfl, rfl⟩ := Prod.mk.inj heq
  have hmem : task' ∈ s.tasks := List.mem_of_getElem? htask
  have hsub : ∀ task ∈ s.tasks.eraseIdx k, task ∈ s.tasks :=
    fun task => List.mem_of_mem_eraseIdx
  have hcount := (perm_of_take htask).countP_eq Task.holdsLock
  rw [List.countP_cons] at hcount
  have hholders := hs.holders
  refine ⟨hs.tasks task' hmem, fun hholds => ?_, fun hholds => ?_, htask, rfl⟩
  · rw [if_pos hholds] at hcount
    have hwaiting : s.lock.waiting.isSome := by
      by_contra hw
      rw [if_neg hw] at hholders
      omega
    rw [if_pos hwaiting] at hholders
    exact ⟨fun task htask => hs.tasks task (hsub task htask), hs.queued, hwaiting, by
      show (s.tasks.eraseIdx k).countP Task.holdsLock = 0
      omega⟩
  · rw [hholds, if_neg Bool.false_ne_true] at hcount
    refine ⟨fun task htask => hs.tasks task (hsub task htask), hs.queued, ?_⟩
    show (s.tasks.eraseIdx k).countP Task.holdsLock ≤ if s.lock.waiting.isSome then 1 else 0
    omega

theorem Held.sequenceRegister {s : State} (hs : Held env s) (request : List IdRequest)
    (reply : Bool) (handler : ℕ) : Held env (sequenceRegister request reply handler s) := by
  cases request with
  | nil => exact hs.addComplete _ _ _
  | cons thisRequest remainder => exact hs.invoke trivial

theorem Serial.asyncTransmit {s : State} (hs : Serial env s) (request : List IdRequest)
    (reply : Bool) (handler : ℕ) : Serial env (asyncTransmit request reply handler s) := by
  unfold StreamAsioClient.asyncTransmit
  split
  · cases request with
    | nil => exact hs.addComplete _ _ _
    | cons thisRequest remainder => exact hs.invoke trivial
  · exact hs.invoke trivial

theorem replies_invoke (s : State) (command : Command) :
    (s.invoke command).2.replies = s.replies := by
  simp only [State.invoke, State.setLock]
  split
  · rfl
  · rfl

theorem replies_sequenceRegister (request : List IdRequest) (reply : Bool) (handler : ℕ)
    (s : State) : (sequenceRegister request reply handler s).replies = s.replies := by
  cases request with
  | nil => rfl
  | cons thisRequest remainder => exact replies_invoke _ _

theorem replies_asyncTransmit (request : List IdRequest) (reply : Bool) (handler : ℕ)
    (s : State) : (asyncTransmit request reply handler s).replies = s.replies := by
  unfold StreamAsioClient.asyncTransmit
  split
  · exact replies_sequenceRegister _ _ _ _
  · exact replies_invoke _ _

/-- The release of a transmission's command. -/
theorem Held.release {s s' : State} (hs : Held env s) {command : Command} {ec : ErrorCode}
    {size : ℕ} (hcommand : command.IsTransmission)
    (h : release command ec size s = some s') : Serial env s' ∧ s'.replies = s.replies := by
  cases command with
  | transmit request handler =>
    simp only [StreamAsioClient.release, handle, hs.waiting, State.call, if_true] at h
    obtain rfl := Option.some.inj h
    have hcalled : Held env (s.call handler ec 0) := ⟨hs.tasks, hs.queued, hs.waiting, hs.holders⟩
    exact ⟨hcalled.addTask trivial, rfl⟩
  | register r =>
    by_cases hec : ec = .success
    · simp only [StreamAsioClient.release, handle, hec, ne_eq, not_true_eq_false, if_false] at h
      have hheld := hs.sequenceRegister r.remainder r.reply r.handler
      rw [if_pos hheld.waiting] at h
      obtain rfl := Option.some.inj h
      exact ⟨hheld.addTask trivial, replies_sequenceRegister _ _ _ _⟩
    · simp only [StreamAsioClient.release, handle, ne_eq, hec, not_false_eq_true, if_true] at h
      have hheld := hs.addComplete (some r.handler) ec 0
      rw [if_pos hheld.waiting] at h
      obtain rfl := Option.some.inj h
      exact ⟨hheld.addTask trivial, rfl⟩
  | read i c => exact absurd hcommand id
  | write i data => exact absurd hcommand id

/-! ### One step of the client -/

/-- An event keeps the order of the commands, and adds nothing to the replies. -/
theorem serial_event {s s' : State} {k : ℕ} (hs : Serial env s)
    (h : step env s (.event k) = some s') : Serial env s' ∧ s'.replies = s.replies := by
  obtain ⟨⟨task, s₀⟩, htake, hrun⟩ := Option.bind_eq_some_iff.mp h
  obtain ⟨htask, hheld, hfree, -, hreplies⟩ := hs.take htake
  rw [← hreplies]
  cases task with
  | invoke w =>
    have hs₀ := hheld rfl
    obtain ⟨nonce, command⟩ := w
    cases command with
    | transmit request handler =>
      obtain rfl := Option.some.inj hrun
      have hframes : Held env { s₀ with txFrames := (request.map fun r =>
          Frame.mk env.sourceId false r.id r.request.buffer) } :=
        ⟨hs₀.tasks, hs₀.queued, hs₀.waiting, hs₀.holders⟩
      exact ⟨hframes.addTask trivial, rfl⟩
    | register r =>
      obtain rfl := Option.some.inj hrun
      have hframe := hs₀.withFrame (Frame.mk env.sourceId r.request.request.requestReply
        r.request.id r.request.request.buffer)
      refine ⟨hframe.addTask ?_, rfl⟩
      exact ⟨rfl, rfl⟩
    | read i c => exact absurd htask id
    | write i data => exact absurd htask id
  | itemDone =>
    have hs₀ := hheld rfl
    obtain ⟨r, hr, rfl⟩ := Option.map_eq_some_iff.mp hrun
    rw [ExclusiveCommand.itemDone, if_pos hs₀.waiting] at hr
    obtain rfl := Option.some.inj hr
    refine ⟨serial_setLock hs₀.tasks hs₀.queued ?_, ?_⟩
    · exact hs₀.holders.le.trans (Nat.zero_le _)
    · simp only [State.setLock]
      split
      · rfl
      · rfl
  | registerDone nonce r ec => exact (hheld rfl).release (show Command.IsTransmission (.register r) from trivial) hrun
  | complete handler ec size =>
    have hs₀ := hfree rfl
    cases handler with
    | none =>
      obtain rfl := Option.some.inj hrun
      exact ⟨hs₀, rfl⟩
    | some handler =>
      obtain rfl := Option.some.inj hrun
      exact ⟨⟨hs₀.tasks, hs₀.queued, hs₀.holders⟩, rfl⟩
  | pollTimer i c ec => exact absurd htask id
  | wait i c => exact nomatch hrun
  | writeMultiple nonce request handler => exact nomatch hrun
  | registerWrite nonce r => exact nomatch hrun
  | registerRead nonce r => exact nomatch hrun
  | requestWrite nonce i c => exact nomatch hrun
  | tunnelRead nonce i c => exact nomatch hrun
  | tunnelWrite nonce i data size => exact nomatch hrun

/-- **A completion** keeps the order of the commands, and the values it adds are those of a frame
that the device of the request has sent to the client. -/
theorem serial_frame {s s' : State} {k : ℕ} {ec : ErrorCode} {rx : Frame} {queued : Bool}
    (hs : Serial env s) (h : step env s (.frame k ec rx queued) = some s') :
    Serial env s' ∧ (s'.replies = s.replies ∨
      ∃ nonce r values, s.tasks[k]? = some (.registerRead nonce r) ∧ ec = .success ∧
        rx.sourceId = r.request.id ∧ rx.destId = env.sourceId ∧
        s'.replies = s.replies ++ values ∧ ∀ value ∈ values, value.1 = r.handler) := by
  obtain ⟨⟨task, s₀⟩, htake, hrun⟩ := Option.bind_eq_some_iff.mp h
  obtain ⟨htask, hheld, -, hget, hreplies⟩ := hs.take htake
  rw [← hreplies]
  cases task with
  | writeMultiple nonce request handler =>
    have hrelease : release (.transmit request handler) ec 0 s₀ = some s' := hrun
    obtain ⟨hs', hsame⟩ := (hheld rfl).release
      (show Command.IsTransmission (.transmit request handler) from trivial) hrelease
    exact ⟨hs', Or.inl hsame⟩
  | registerWrite nonce r =>
    have hs₀ := hheld rfl
    simp only [completeFrame, handleSingleWrite] at hrun
    split_ifs at hrun with hreply hec
    · obtain rfl := Option.some.inj hrun
      exact ⟨hs₀.addTask trivial, Or.inl rfl⟩
    · obtain rfl := Option.some.inj hrun
      exact ⟨hs₀.addTask htask, Or.inl rfl⟩
  | registerRead nonce r =>
    have hs₀ := hheld rfl
    have hframe : s₀.txFrame.sourceId = env.sourceId ∧
      s₀.txFrame.destId = r.request.id := htask
    obtain ⟨hsource, hdest⟩ := hframe
    simp only [completeFrame, handleRead] at hrun
    split at hrun
    · obtain rfl := Option.some.inj hrun
      exact ⟨hs₀.addTask trivial, Or.inl rfl⟩
    · split at hrun
      · cases hrun
      · rename_i hec
        split at hrun
        · -- a frame of somebody else: read again
          obtain rfl := Option.some.inj hrun
          exact ⟨hs₀.addTask htask, Or.inl rfl⟩
        · rename_i hother
          obtain rfl := Option.some.inj hrun
          rw [not_or, not_not, not_not, hsource, hdest] at hother
          have hdone : Task.Serial env s₀.txFrame (.registerDone nonce r ec) := trivial
          refine ⟨(hs₀.withReplies _).addTask hdone, ?_⟩
          refine Or.inr ⟨nonce, r, _, hget, not_not.mp hec, hother.1, hother.2, rfl, ?_⟩
          intro value hvalue
          split at hvalue
          · obtain ⟨p, -, rfl⟩ := List.mem_map.mp hvalue
            rfl
          · exact absurd hvalue List.not_mem_nil
  | invoke w => cases hrun
  | itemDone => cases hrun
  | registerDone nonce r ec => cases hrun
  | complete handler ec size => cases hrun
  | pollTimer i c ec => cases hrun
  | wait i c => cases hrun
  | requestWrite nonce i c => exact absurd htask id
  | tunnelRead nonce i c => exact absurd htask id
  | tunnelWrite nonce i data size => exact absurd htask id

/-! ### Runs -/

/-- Every value in a reply is from a frame that answers a request of that transmission. -/
def Belong (s : BusState) : Prop :=
  s.log.map (fun entry => (entry.handler, entry.value)) = s.client.replies ∧
    ∀ entry ∈ s.log, ∃ n request, entry.answers = some n ∧ s.sent[n]? = some request ∧
      request.handler = entry.handler

/-- No answer to another transmission is read from the device of the request whose answer is being
read. -/
def Timely (s : BusState) : BusAction → Prop
  | .frame k .success _ _ (some n) => ∀ nonce r request,
      s.client.tasks[k]? = some (.registerRead nonce r) → s.sent[n]? = some request →
      request.device = r.request.id → request.handler = r.handler
  | _ => True

theorem belong_step (s : BusState) (action : BusAction) (s' : BusState)
    (hs : Serial env s.client ∧ Belong s) (htimely : Timely s action)
    (h : busStep env s action = some s') : Serial env s'.client ∧ Belong s' := by
  obtain ⟨hserial, hreplies, hlog⟩ := hs
  cases action with
  | asyncTransmit request reply handler =>
    simp only [busStep, Option.map_eq_some_iff] at h
    obtain ⟨client, hclient, rfl⟩ := h
    obtain rfl := Option.some.inj hclient
    refine ⟨hserial.asyncTransmit request reply handler, ?_, hlog⟩
    exact hreplies.trans (replies_asyncTransmit _ _ _ _).symm
  | event k =>
    simp only [busStep, Option.map_eq_some_iff] at h
    obtain ⟨client, hclient, rfl⟩ := h
    obtain ⟨hserial', hsame⟩ := serial_event hserial hclient
    refine ⟨hserial', hreplies.trans hsame.symm, fun entry hentry => ?_⟩
    obtain ⟨n, request, hn, hrequest, hhandler⟩ := hlog entry hentry
    refine ⟨n, request, hn, ?_, hhandler⟩
    rw [List.getElem?_append_left (List.getElem?_eq_some_iff.mp hrequest).1]
    exact hrequest
  | frame k ec rx queued answers =>
    simp only [busStep] at h
    split_ifs at h with hanswers
    obtain ⟨client, hclient, rfl⟩ := Option.map_eq_some_iff.mp h
    obtain ⟨hserial', hsame | ⟨nonce, r, values, htask, rfl, hsource, hdest, hadded, hvalues⟩⟩ :=
      serial_frame hserial hclient
    · have hnone : entries s.client client answers = [] := by
        simp [entries, hsame]
      refine ⟨hserial', ?_, ?_⟩
      · rw [hnone, List.append_nil, hsame]
        exact hreplies
      · rw [hnone, List.append_nil]
        exact hlog
    · have hentries : entries s.client client answers =
          values.map fun reply => ⟨reply.1, reply.2, answers⟩ := by
        simp [entries, hadded]
      have hanswers' : Answers env s rx answers := by
        by_contra hno
        exact hanswers ⟨rfl, hno⟩
      refine ⟨hserial', ?_, ?_⟩
      · rw [List.map_append, hreplies, hentries, List.map_map, hadded]
        exact congrArg _ (List.map_id _)
      · intro entry hentry
        obtain hentry | hentry := List.mem_append.mp hentry
        · exact hlog entry hentry
        · rw [hentries] at hentry
          obtain ⟨reply, hreply, rfl⟩ := List.mem_map.mp hentry
          cases answers with
          | none => exact absurd hdest hanswers'
          | some n =>
            obtain ⟨request, hrequest, hdevice, -⟩ := hanswers'
            refine ⟨n, request, rfl, hrequest, ?_⟩
            rw [hvalues reply hreply]
            exact htimely nonce r request htask hrequest (hdevice.symm.trans hsource)

/-- **Replies.** In a run in which no answer to another transmission arrives from the device whose
answer is being read, the values of every reply come from frames that answer a request of its own
transmission. -/
theorem belong (env : Env) (actions : List BusAction)
    (h : Run.Guarded (busStep env) Timely {} actions) :
    Run.Always (busStep env) Belong {} actions :=
  Run.always_of_guarded (fun _ hs => hs.2) belong_step ⟨serial_init, rfl, nofun⟩ h

/-- A request for register 1 of device 1. -/
def readRequest : IdRequest := ⟨1, ⟨[0x11, 1], true⟩⟩

/-- The answer of device 1: the value 7. -/
def readAnswer : Frame := ⟨1, false, 0, [0x21, 1, 7]⟩

/-- A request and its answer. -/
theorem belong_answer : Run.Always (busStep ⟨0, -1⟩) Belong {}
    [.asyncTransmit [readRequest] true 1, .event 0, .frame 0 .success ⟨0, true, 1, []⟩ false none,
      .frame 0 .success readAnswer false (some 0)] := by
  apply belong
  refine Run.guarded_cons_of_eq rfl trivial (Run.guarded_cons_of_eq rfl trivial
    (Run.guarded_cons_of_eq rfl trivial (Run.guarded_cons_of_eq rfl ?_ trivial)))
  intro nonce r request htask hrequest _
  have hr : Task.registerRead 0 ⟨readRequest, [], true, 1⟩ = .registerRead nonce r :=
    Option.some.inj htask
  obtain ⟨-, rfl⟩ := Task.registerRead.inj hr
  obtain rfl : (⟨1, 1⟩ : SentRequest) = request := Option.some.inj hrequest
  rfl

/-- The answer to a request that has timed out arrives while the answer to the next one is read. -/
theorem not_belong : ∃ t, Run.run (busStep ⟨0, -1⟩) {}
    [.asyncTransmit [readRequest] true 1, .event 0, .frame 0 .success ⟨0, true, 1, []⟩ false none,
      .frame 0 .operationAborted ⟨0, true, 1, []⟩ false none, .event 0,
      .asyncTransmit [readRequest] true 2, .event 1, .event 1,
      .frame 1 .success ⟨0, true, 1, []⟩ false none,
      .frame 1 .success readAnswer false (some 0)] = some t ∧
    t.client.replies = [(2, ⟨1, 1, .value (.int8 7)⟩)] ∧ ¬ Belong t := by
  refine ⟨_, rfl, rfl, fun h => ?_⟩
  obtain ⟨n, request, hn, hrequest, hhandler⟩ := h.2 _ List.mem_cons_self
  obtain rfl := Option.some.inj hn
  obtain rfl : (⟨1, 1⟩ : SentRequest) = request := Option.some.inj hrequest
  exact absurd hhandler (by decide)

end Mjlib.Multiplex.StreamAsioClient

import Mjlib.Multiplex.Equiv.StreamAsioClient.Coherent

/-!
# What the operations of a `StreamAsioClient` keep

`Keeps s s'` says that a command which gets the lock between the states is held by a task, and that
what was held still is.  Every operation apart from `cancel` keeps the items coherent and the commands
held (`asyncReadSome_keeps`, `maybeRetry_keeps`, `invokeCommand_keeps`); an operation that takes the
release handler of a command either passes it on or posts the release (`release_keeps`).
-/

namespace Mjlib.Multiplex.StreamAsioClient

open Io (Concrete ExclusiveCommand)

/-! ### Holders -/

/-- A task holds the release handler of the command, or a release is posted. -/
def Holds (s : State) (w : Concrete Command) : Prop :=
  ∃ task ∈ s.tasks, task = .itemDone ∨ task.concrete? = some w

/-- If the lock is taken, its command can still be released. -/
def LockHeld (s : State) : Prop := ∀ w, s.lock.waiting = some w → Holds s w

/-- A command that has the lock in `s'` is held there, or had it in `s`; what is held in `s` still is.
-/
structure Keeps (s s' : State) : Prop where
  waiting : ∀ w, s'.lock.waiting = some w → Holds s' w ∨ s.lock.waiting = some w
  holds : ∀ w, Holds s w → Holds s' w

theorem Keeps.refl (s : State) : Keeps s s := ⟨fun _ h => Or.inr h, fun _ h => h⟩

theorem Keeps.trans {s s' s'' : State} (h : Keeps s s') (h' : Keeps s' s'') : Keeps s s'' where
  waiting := fun w hw => by
    rcases h'.waiting w hw with hh | hw'
    · exact Or.inl hh
    · exact (h.waiting w hw').imp_left (h'.holds w)
  holds := fun w hw => h'.holds w (h.holds w hw)

/-- The lock is left alone, and the tasks are kept. -/
theorem Keeps.of_subset {s s' : State} (hlock : s'.lock.waiting = s.lock.waiting)
    (htasks : s.tasks ⊆ s'.tasks) : Keeps s s' where
  waiting := fun _ hw => Or.inr (hlock ▸ hw)
  holds := fun _ ⟨task, hmem, hheld⟩ => ⟨task, htasks hmem, hheld⟩

theorem Keeps.addTask (s : State) (task : Task) : Keeps s (s.addTask task) :=
  .of_subset rfl (List.subset_append_left _ _)

theorem holds_addTask {task : Task} {w : Concrete Command} (h : task.concrete? = some w)
    (s : State) : Holds (s.addTask task) w :=
  ⟨task, List.mem_append_right _ (List.mem_singleton_self task), Or.inr h⟩

theorem holds_of_itemDone {s : State} (h : Task.itemDone ∈ s.tasks) (w : Concrete Command) :
    Holds s w := ⟨_, h, Or.inl rfl⟩

/-! ### Tasks -/

theorem items_addTask (s : State) (task : Task) :
    (items (s.addTask task)).Perm (task.item?.toList ++ items s) := by
  have h : items (s.addTask task) = items s ++ task.item?.toList := by
    rw [items, items, State.addTask, List.filterMap_append, List.append_assoc]
    cases h : task.item? <;> simp [h]
  rw [h]
  exact List.perm_append_comm

theorem sameView_addTask (s : State) (task : Task) : SameView s (s.addTask task) :=
  ⟨rfl, rfl, fun _ => rfl, fun _ => rfl⟩

theorem Coherent.addTask_of_none {s : State} (h : Coherent s) {task : Task}
    (hitem : task.item? = none) : Coherent (s.addTask task) := by
  have hperm := items_addTask s task
  rw [hitem] at hperm
  exact (CoherentOn.congr h (sameView_addTask s task)).perm hperm.symm

theorem CoherentOn.addTask_of_some {s : State} {task : Task} {x : Item}
    (h : CoherentOn (x :: items s) s) (hitem : task.item? = some x) :
    Coherent (s.addTask task) := by
  have hperm := items_addTask s task
  rw [hitem] at hperm
  exact (h.congr (sameView_addTask s task)).perm hperm.symm

/-- A task comes first in its list when it is taken out. -/
theorem perm_of_take {s : State} {k : ℕ} {task : Task} (h : s.tasks[k]? = some task) :
    (task :: s.tasks.eraseIdx k).Perm s.tasks := by
  obtain ⟨hk, hget⟩ := List.getElem?_eq_some_iff.mp h
  exact hget ▸ List.getElem_cons_eraseIdx_perm hk

/-- The item of a task that is taken out comes first. -/
theorem items_take {s : State} {k : ℕ} {task : Task} (h : s.tasks[k]? = some task) :
    (items s).Perm (task.item?.toList ++ items { s with tasks := s.tasks.eraseIdx k }) := by
  have hitems : (s.tasks.filterMap Task.item?).Perm
      (task.item?.toList ++ (s.tasks.eraseIdx k).filterMap Task.item?) := by
    refine ((perm_of_take h).filterMap Task.item?).symm.trans ?_
    rw [List.filterMap_cons]
    cases task.item? <;> exact .refl _
  refine (hitems.append_left _).trans ?_
  rw [items, ← List.append_assoc, ← List.append_assoc]
  exact List.perm_append_comm.append_right _

/-- A task is taken out of the list: what is known then. -/
theorem take_spec {s s₀ : State} {k : ℕ} {task : Task} (h : take k s = some (task, s₀)) :
    s₀.lock = s.lock ∧ s₀.tunnels = s.tunnels ∧
      (Coherent s → CoherentOn (task.item?.toList ++ items s₀) s₀) ∧
      ∀ w, Holds s w → Holds s₀ w ∨ task = .itemDone ∨ task.concrete? = some w := by
  obtain ⟨task', htask, heq⟩ := Option.map_eq_some_iff.mp h
  obtain ⟨rfl, rfl⟩ := Prod.mk.injEq .. ▸ heq
  refine ⟨rfl, rfl, fun hs => ?_, ?_⟩
  · have hview : SameView s { s with tasks := s.tasks.eraseIdx k } :=
      ⟨rfl, rfl, fun _ => rfl, fun _ => rfl⟩
    exact (CoherentOn.congr hs hview).perm (items_take htask)
  · rintro w ⟨held, hmem, hheld⟩
    rcases List.mem_cons.mp ((perm_of_take htask).mem_iff.mpr hmem) with rfl | hmem'
    · exact Or.inr hheld
    · exact Or.inl ⟨held, hmem', hheld⟩

/-! ### The lock -/

theorem setLock_spec (s : State) (l : ExclusiveCommand Command) :
    (s.setLock l.maybeStart).lock.made = l.made ∧
      (s.setLock l.maybeStart).tunnels = s.tunnels ∧
      (s.setLock l.maybeStart).contexts = s.contexts ∧
      (items (s.setLock l.maybeStart)).Perm
        (l.queued.map .pending ++ s.tasks.filterMap Task.item?) ∧
      s.tasks ⊆ (s.setLock l.maybeStart).tasks ∧
      ∀ w, (s.setLock l.maybeStart).lock.waiting = some w →
        Holds (s.setLock l.maybeStart) w ∨ l.waiting = some w := by
  rw [ExclusiveCommand.maybeStart]
  by_cases hw : l.waiting.isSome
  · rw [if_pos hw]
    exact ⟨rfl, rfl, rfl, .refl _, fun _ h => h, fun w h => Or.inr h⟩
  rw [if_neg hw]
  cases hq : l.queued with
  | nil =>
    refine ⟨rfl, rfl, rfl, ?_, fun _ h => h, fun w h => Or.inr h⟩
    change (l.queued.map Item.pending ++ s.tasks.filterMap Task.item?).Perm _
    rw [hq]
  | cons front queued =>
    refine ⟨rfl, rfl, rfl, ?_, List.subset_append_left _ _, ?_⟩
    · change (queued.map Item.pending ++ (s.tasks ++ [Task.invoke front]).filterMap
        Task.item?).Perm _
      rw [List.filterMap_append, List.map_cons, List.cons_append, ← List.append_assoc]
      exact List.perm_append_singleton ..
    · intro w hw'
      refine Or.inl ⟨.invoke front, List.mem_append_right _ (List.mem_singleton_self _), Or.inr ?_⟩
      exact hw'

theorem invoke_spec (s : State) (command : Command) :
    (s.invoke command).1 = s.lock.made ∧
      (s.invoke command).2.lock.made = s.lock.made + 1 ∧
      (s.invoke command).2.tunnels = s.tunnels ∧ (s.invoke command).2.contexts = s.contexts ∧
      (items (s.invoke command).2).Perm (.pending ⟨s.lock.made, command⟩ :: items s) ∧
      Keeps s (s.invoke command).2 := by
  obtain ⟨hmade, htunnels, hcontexts, hperm, htasks, hwaiting⟩ := setLock_spec s { s.lock with
    queued := s.lock.queued ++ [⟨s.lock.made, command⟩]
    made := s.lock.made + 1 }
  refine ⟨rfl, hmade, htunnels, hcontexts, hperm.trans ?_,
    ⟨hwaiting, fun w ⟨task, hmem, hheld⟩ => ⟨task, htasks hmem, hheld⟩⟩⟩
  rw [List.map_append, List.map_singleton, List.append_assoc]
  exact List.perm_middle

theorem context_eq_of_contexts_eq {s s' : State} (h : s'.contexts = s.contexts) (c : ℕ) :
    s'.context c = s.context c := by
  rw [State.context, State.context, h]

theorem tunnel_eq_of_tunnels_eq {s s' : State} (h : s'.tunnels = s.tunnels) (i : ℕ) :
    s'.tunnel i = s.tunnel i := by
  rw [State.tunnel, State.tunnel, h]

/-! ### Calls of the application -/

theorem invoke_other {s : State} (h : Coherent s) {command : Command}
    (hcommand : (∃ request handler, command = .transmit request handler) ∨
      ∃ r, command = .register r) :
    Coherent (s.invoke command).2 ∧ Keeps s (s.invoke command).2 := by
  obtain ⟨-, hmade, htunnels, hcontexts, hperm, hkeeps⟩ := invoke_spec s command
  refine ⟨CoherentOn.perm (CoherentOn.startOther h hcommand hmade (by rw [hcontexts])
    (fun c => ?_) (tunnel_eq_of_tunnels_eq htunnels)) hperm.symm, hkeeps⟩
  rw [context_eq_of_contexts_eq hcontexts]

theorem sequenceRegister_keeps {s : State} (h : Coherent s) (request : List IdRequest)
    (reply : Bool) (handler : ℕ) :
    Coherent (sequenceRegister request reply handler s) ∧
      Keeps s (sequenceRegister request reply handler s) := by
  cases request with
  | nil => exact ⟨h.addTask_of_none rfl, .addTask s _⟩
  | cons thisRequest remainder => exact invoke_other h (Or.inr ⟨_, rfl⟩)

theorem asyncTransmit_keeps {s : State} (h : Coherent s) (request : List IdRequest) (reply : Bool)
    (handler : ℕ) :
    Coherent (asyncTransmit request reply handler s) ∧
      Keeps s (asyncTransmit request reply handler s) := by
  rw [asyncTransmit]
  split_ifs
  · exact sequenceRegister_keeps h request reply handler
  · exact invoke_other h (Or.inl ⟨_, _, rfl⟩)

theorem asyncReadSome_keeps {s s' : State} (h : Coherent s) {i size : ℕ} {handler : Option ℕ}
    (hi : i < s.tunnels.length) (hstep : asyncReadSome i size handler s = some s') :
    Coherent s' ∧ Keeps s s' := by
  rw [asyncReadSome] at hstep
  split_ifs at hstep with hnone hsize
  · obtain rfl := Option.some.inj hstep
    exact ⟨h.addTask_of_none rfl, .addTask s _⟩
  obtain rfl := Option.some.inj hstep
  have hnone' : (s.tunnel i).readContext = none := by simpa using hnone
  -- the state in which the lock is asked
  obtain ⟨s₁, hs₁⟩ : ∃ s₁ : State, s₁ = { s with
      contexts := s.contexts ++ [ReadContext.mk handler size false 0 []] }.modifyTunnel i
        fun t => { t with readContext := some s.contexts.length } := ⟨_, rfl⟩
  obtain ⟨hnonce, hmade, htunnels, hcontexts, hperm, hkeeps⟩ :=
    invoke_spec s₁ (.read i s.contexts.length)
  have hitems : items s₁ = items s := by rw [hs₁]; rfl
  have hlock : s₁.lock = s.lock := by rw [hs₁]; rfl
  rw [← hs₁]
  have hcoherent : CoherentOn (.pending ⟨s.lock.made, .read i s.contexts.length⟩ :: items s)
      ((s₁.invoke (.read i s.contexts.length)).2.modifyTunnel i
        fun t => { t with readNonce := some (s₁.invoke (.read i s.contexts.length)).1 }) := by
    refine CoherentOn.startRead h (ReadContext.mk handler size false 0 []) hnone' rfl
      (hmade.trans (by rw [hlock])) ?_ ?_
    · exact hcontexts.trans (by rw [hs₁]; rfl)
    · intro j
      rw [tunnel_modifyTunnel, htunnels, tunnel_eq_of_tunnels_eq htunnels, hnonce, hlock, hs₁,
        tunnel_modifyTunnel]
      by_cases hij : i = j
      · subst hij
        simp only [State.modifyTunnel, List.length_modify, hi, and_self, if_true]
        rfl
      · simp only [hij, false_and, if_false]
        rfl
  refine ⟨hcoherent.perm ?_, ?_⟩
  · rw [← hitems, ← hlock]
    exact hperm.symm
  · refine Keeps.trans ?_ (hkeeps.trans ?_)
    · rw [hs₁]
      exact .of_subset rfl fun _ ht => ht
    · exact .of_subset rfl fun _ ht => ht

theorem asyncWriteSome_keeps {s s' : State} (h : Coherent s) {i handler : ℕ} {data : Bytes}
    (hi : i < s.tunnels.length) (hstep : asyncWriteSome i data handler s = some s') :
    Coherent s' ∧ Keeps s s' := by
  rw [asyncWriteSome] at hstep
  split_ifs at hstep with hnone hdata
  · obtain rfl := Option.some.inj hstep
    exact ⟨h.addTask_of_none rfl, .addTask s _⟩
  obtain rfl := Option.some.inj hstep
  have hnone' : (s.tunnel i).writeHandler = none := by simpa using hnone
  obtain ⟨s₁, hs₁⟩ : ∃ s₁ : State,
      s₁ = s.modifyTunnel i fun t => { t with writeHandler := some handler } := ⟨_, rfl⟩
  obtain ⟨hnonce, hmade, htunnels, hcontexts, hperm, hkeeps⟩ := invoke_spec s₁ (.write i data)
  have hitems : items s₁ = items s := by rw [hs₁]; rfl
  have hlock : s₁.lock = s.lock := by rw [hs₁]; rfl
  rw [← hs₁]
  have hcoherent : CoherentOn (.pending ⟨s.lock.made, .write i data⟩ :: items s)
      ((s₁.invoke (.write i data)).2.modifyTunnel i
        fun t => { t with writeNonce := some (s₁.invoke (.write i data)).1 }) := by
    refine CoherentOn.startWrite h handler hnone' (hmade.trans (by rw [hlock])) ?_ ?_
    · exact hcontexts.trans (by rw [hs₁]; rfl)
    · intro j
      rw [tunnel_modifyTunnel, htunnels, tunnel_eq_of_tunnels_eq htunnels, hnonce, hlock, hs₁,
        tunnel_modifyTunnel]
      by_cases hij : i = j
      · subst hij
        simp only [State.modifyTunnel, List.length_modify, hi, and_self, if_true]
      · simp only [hij, false_and, if_false]
  refine ⟨hcoherent.perm ?_, ?_⟩
  · rw [← hitems, ← hlock]
    exact hperm.symm
  · refine Keeps.trans ?_ (hkeeps.trans ?_)
    · rw [hs₁]
      exact .of_subset rfl fun _ ht => ht
    · exact .of_subset rfl fun _ ht => ht

/-! ### Commands -/

section
variable {s s' : State} {n i c : ℕ}

theorem filterMap_item_cancelTimer (i : ℕ) (s : State) :
    (cancelTimer i s).tasks.filterMap Task.item? = s.tasks.filterMap Task.item? := by
  rw [cancelTimer, List.filterMap_map]
  apply List.filterMap_congr
  intro task _
  cases task with
  | wait i' c =>
    change Task.item? (if i' = i then .pollTimer i' c .operationAborted else .wait i' c) = _
    split_ifs <;> rfl
  | _ => rfl

/-- A canceled wait is posted, and still is where its read context is. -/
theorem items_cancelTimer (i : ℕ) (s : State) : items (cancelTimer i s) = items s := by
  rw [items, items, filterMap_item_cancelTimer]
  rfl

theorem keeps_cancelTimer (i : ℕ) (s : State) : Keeps s (cancelTimer i s) where
  waiting := fun _ h => Or.inr h
  holds := by
    rintro w ⟨task, hmem, hheld⟩
    refine ⟨_, List.mem_map_of_mem hmem, ?_⟩
    cases task with
    | wait i' c => simp [Task.concrete?] at hheld
    | _ => exact hheld

theorem sameView_cancelTimer (i : ℕ) (s : State) : SameView s (cancelTimer i s) :=
  ⟨rfl, rfl, fun _ => rfl, fun _ => rfl⟩

/-- The handler of a read context is posted. -/
theorem post_handler (h : Coherent s) (handler : Option ℕ) (ec : ErrorCode) (size c : ℕ) :
    Coherent ((s.addTask (.complete handler ec size)).modifyContext c
      fun ctx => { ctx with handler := none }) ∧
    Keeps s ((s.addTask (.complete handler ec size)).modifyContext c
      fun ctx => { ctx with handler := none }) :=
  ⟨(h.addTask_of_none rfl).congr (.modifyContext _ c fun _ => rfl),
    .of_subset rfl (List.subset_append_left _ _)⟩

theorem maybeRetry_keeps (h : CoherentOn (.running ⟨n, .read i c⟩ :: items s) s) {ec : ErrorCode}
    (hstep : maybeRetry ec i c s = some s') : Coherent s' ∧ Keeps s s' := by
  rw [maybeRetry] at hstep
  by_cases hcanceled : (s.context c).canceled = true
  · rw [if_pos hcanceled] at hstep
    obtain rfl := Option.some.inj hstep
    exact post_handler h.tail _ _ _ c
  rw [if_neg hcanceled] at hstep
  split_ifs at hstep with hec hread
  · -- the read is over
    obtain rfl := Option.some.inj hstep
    obtain ⟨-, hfinish⟩ := h.finishRead rfl h.head.2 (by simpa using hcanceled)
    have hview : SameView (s.modifyTunnel i fun t => { t with readContext := none })
        (((s.addTask (.complete (s.context c).handler .success (s.context c).bytesRead)
          ).modifyContext c fun ctx => { ctx with handler := none }).modifyTunnel i
            fun t => { t with readContext := none }) :=
      ⟨rfl, List.length_modify .., fun c' => canceled_modifyContext s c' fun _ => rfl, fun _ => rfl⟩
    refine ⟨(hfinish.congr hview).perm ?_, .of_subset rfl (List.subset_append_left _ _)⟩
    exact (items_addTask s (.complete (s.context c).handler .success
      (s.context c).bytesRead)).symm
  · -- another poll
    obtain rfl := Option.some.inj hstep
    have hpoll : CoherentOn (.polling i c :: items s) s :=
      h.replace h.head.2 (by simp [Item.nonce?]) fun c' hc' => hc'
    have hpoll' := hpoll.congr (sameView_cancelTimer i s)
    rw [← items_cancelTimer i s] at hpoll'
    exact ⟨hpoll'.addTask_of_some rfl, (keeps_cancelTimer i s).trans (.addTask _ _)⟩

theorem handlePollTimer_keeps (h : CoherentOn (.polling i c :: items s) s) {ec : ErrorCode}
    (hstep : handlePollTimer ec i c s = some s') : Coherent s' ∧ Keeps s s' := by
  rw [handlePollTimer] at hstep
  by_cases hcanceled : (s.context c).canceled = true
  · rw [if_pos hcanceled] at hstep
    obtain rfl := Option.some.inj hstep
    exact post_handler h.tail _ _ _ c
  rw [if_neg hcanceled] at hstep
  split_ifs at hstep
  obtain ⟨hcontext, hfinish⟩ := h.finishRead rfl h.head (by simpa using hcanceled)
  obtain ⟨s₁, hs₁⟩ : ∃ s₁ : State, s₁ = (s.modifyContext c fun ctx =>
    { ctx with handler := none, buffers := 0 }).modifyTunnel i
      fun t => { t with readContext := none } := ⟨_, rfl⟩
  have hview : SameView (s.modifyTunnel i fun t => { t with readContext := none }) s₁ := by
    rw [hs₁]
    exact ⟨rfl, List.length_modify .., fun c' => canceled_modifyContext s c' fun _ => rfl,
      fun _ => rfl⟩
  have hitems : items s₁ = items s := by rw [hs₁]; rfl
  have h₁ : Coherent s₁ := by
    rw [Coherent, hitems]
    exact hfinish.congr hview
  have hlen : i < s₁.tunnels.length := by
    rw [hs₁]
    simp only [State.modifyTunnel, State.modifyContext, List.length_modify]
    exact lt_of_readContext hcontext
  dsimp only at hstep
  rw [← hs₁] at hstep
  obtain ⟨hcoherent, hkeeps⟩ := asyncReadSome_keeps h₁ hlen hstep
  refine ⟨hcoherent, Keeps.trans ?_ hkeeps⟩
  rw [hs₁]
  exact .of_subset rfl fun _ ht => ht

/-- The handler of a command that was invoked: it does not throw. -/
theorem handle_keeps {command : Command} (h : CoherentOn (.running ⟨n, command⟩ :: items s) s)
    {ec : ErrorCode} {size : ℕ} {b : Bool} (hstep : handle command ec size s = some (b, s')) :
    b = true ∧ Coherent s' ∧ Keeps s s' := by
  cases command with
  | transmit request handler =>
    rw [handle] at hstep
    obtain ⟨rfl, rfl⟩ := Prod.mk.injEq .. ▸ Option.some.inj hstep
    exact ⟨rfl, h.tail.congr ⟨rfl, rfl, fun _ => rfl, fun _ => rfl⟩,
      .of_subset rfl fun _ ht => ht⟩
  | register r =>
    rw [handle] at hstep
    split_ifs at hstep
    · obtain ⟨rfl, rfl⟩ := Prod.mk.injEq .. ▸ Option.some.inj hstep
      exact ⟨rfl, Coherent.addTask_of_none h.tail rfl, .addTask s _⟩
    · obtain ⟨rfl, rfl⟩ := Prod.mk.injEq .. ▸ Option.some.inj hstep
      exact ⟨rfl, sequenceRegister_keeps h.tail _ _ _⟩
  | read i c =>
    rw [handle] at hstep
    obtain ⟨s₁, hs₁, heq⟩ := Option.map_eq_some_iff.mp hstep
    obtain ⟨rfl, rfl⟩ := Prod.mk.injEq .. ▸ heq
    exact ⟨rfl, maybeRetry_keeps h hs₁⟩
  | write i data =>
    obtain ⟨hhandler, hfinish⟩ := h.finishWrite
    obtain ⟨handler, hsome⟩ := Option.isSome_iff_exists.mp hhandler
    rw [handle, hsome] at hstep
    obtain ⟨rfl, rfl⟩ := Prod.mk.injEq .. ▸ Option.some.inj hstep
    exact ⟨rfl, hfinish.congr ⟨rfl, rfl, fun _ => rfl, fun _ => rfl⟩,
      .of_subset rfl fun _ ht => ht⟩

/-- **Releases**: the end of the command is posted. -/
theorem release_keeps {command : Command} (h : CoherentOn (.running ⟨n, command⟩ :: items s) s)
    {ec : ErrorCode} {size : ℕ} (hstep : release command ec size s = some s') :
    Coherent s' ∧ Keeps s s' ∧ .itemDone ∈ s'.tasks := by
  rw [release] at hstep
  rcases hr : handle command ec size s with _ | ⟨b, s₁⟩
  · simp [hr] at hstep
  obtain ⟨rfl, hcoherent, hkeeps⟩ := handle_keeps h hr
  rw [hr] at hstep
  dsimp only at hstep
  split_ifs at hstep
  obtain rfl := Option.some.inj hstep
  exact ⟨hcoherent.addTask_of_none rfl, hkeeps.trans (.addTask _ _),
    List.mem_append_right _ (List.mem_singleton_self _)⟩

/-- A pending command that is about no tunnel's read is invoked. -/
theorem CoherentOn.running_of_pending {L : List Item} {w : Concrete Command}
    (h : CoherentOn (.pending w :: L) s) (hok : (Item.running w).Ok s) :
    CoherentOn (.running w :: L) s := by
  obtain ⟨n, command⟩ := w
  refine h.replace hok (fun n hn => hn) fun c hc => ?_
  cases command <;> exact hc

/-- **Invocations**: a command that is invoked goes on with its release handler. -/
theorem invokeCommand_keeps {env : Env} {w : Concrete Command}
    (h : CoherentOn (.pending w :: items s) s) (hstep : invokeCommand env w s = some s') :
    Coherent s' ∧ Keeps s s' ∧ Holds s' w := by
  obtain ⟨n, request | r | ⟨i, c⟩ | ⟨i, data⟩⟩ := w
  · rename_i handler
    rw [invokeCommand] at hstep
    obtain rfl := Option.some.inj hstep
    have h' : CoherentOn (.running ⟨n, .transmit request handler⟩ :: items s)
        { s with txFrames := (request.map fun r =>
          Frame.mk env.sourceId false r.id r.request.buffer) } :=
      (h.running_of_pending h.head).congr ⟨rfl, rfl, fun _ => rfl, fun _ => rfl⟩
    exact ⟨h'.addTask_of_some rfl, .of_subset rfl (List.subset_append_left _ _), holds_addTask rfl _⟩
  · rw [invokeCommand] at hstep
    obtain rfl := Option.some.inj hstep
    have h' : CoherentOn (.running ⟨n, .register r⟩ :: items s)
        { s with txFrame := (Frame.mk env.sourceId r.request.request.requestReply r.request.id
          r.request.request.buffer) } :=
      (h.running_of_pending h.head).congr ⟨rfl, rfl, fun _ => rfl, fun _ => rfl⟩
    exact ⟨h'.addTask_of_some rfl, .of_subset rfl (List.subset_append_left _ _), holds_addTask rfl _⟩
  · obtain ⟨hcanceled, h'⟩ := h.invokeRead
    rw [invokeCommand] at hstep
    have hnot : ¬ (s.context c).canceled = true := by simp [hcanceled]
    dsimp only at hstep
    change (if (s.context c).canceled = true then _ else _) = _ at hstep
    rw [if_neg hnot] at hstep
    obtain rfl := Option.some.inj hstep
    refine ⟨CoherentOn.addTask_of_some (x := .running ⟨n, .read i c⟩) ?_ rfl,
      .of_subset rfl (List.subset_append_left _ _), holds_addTask rfl _⟩
    exact h'.congr ⟨rfl, rfl, fun _ => rfl, fun _ => rfl⟩
  · rw [invokeCommand] at hstep
    dsimp only at hstep
    rcases hsize : writeSize env data with _ | size
    · simp [hsize] at hstep
    rw [hsize] at hstep
    obtain rfl := Option.some.inj hstep
    refine ⟨CoherentOn.addTask_of_some (x := .running ⟨n, .write i data⟩) ?_ rfl,
      .of_subset rfl (List.subset_append_left _ _), holds_addTask rfl _⟩
    exact (h.running_of_pending h.head).congr ⟨rfl, rfl, fun _ => rfl, fun _ => rfl⟩

theorem handleSingleWrite_keeps {r : RegisterCommand}
    (h : CoherentOn (.running ⟨n, .register r⟩ :: items s) s) {ec : ErrorCode}
    (hstep : handleSingleWrite n r ec s = some s') :
    Coherent s' ∧ Keeps s s' ∧ Holds s' ⟨n, .register r⟩ := by
  rw [handleSingleWrite] at hstep
  split_ifs at hstep
  · obtain rfl := Option.some.inj hstep
    exact ⟨h.addTask_of_some rfl, .addTask s _, holds_addTask rfl s⟩
  · obtain rfl := Option.some.inj hstep
    exact ⟨h.addTask_of_some rfl, .addTask s _, holds_addTask rfl s⟩

theorem handleRead_keeps {r : RegisterCommand}
    (h : CoherentOn (.running ⟨n, .register r⟩ :: items s) s) {ec : ErrorCode} {rx : Frame}
    (hstep : handleRead n r ec rx s = some s') :
    Coherent s' ∧ Keeps s s' ∧ Holds s' ⟨n, .register r⟩ := by
  have hpost : ∀ replies, Coherent ({ s with replies := replies }.addTask (.registerDone n r ec)) ∧
      Keeps s ({ s with replies := replies }.addTask (.registerDone n r ec)) ∧
      Holds ({ s with replies := replies }.addTask (.registerDone n r ec)) ⟨n, .register r⟩ := by
    intro replies
    have h' : CoherentOn (.running ⟨n, .register r⟩ :: items s) { s with replies := replies } :=
      h.congr ⟨rfl, rfl, fun _ => rfl, fun _ => rfl⟩
    exact ⟨h'.addTask_of_some rfl, .of_subset rfl (List.subset_append_left _ _),
      holds_addTask rfl _⟩
  rw [handleRead] at hstep
  split_ifs at hstep
  · obtain rfl := Option.some.inj hstep
    exact ⟨h.addTask_of_some rfl, .addTask s _, holds_addTask rfl s⟩
  · obtain rfl := Option.some.inj hstep
    exact ⟨h.addTask_of_some rfl, .addTask s _, holds_addTask rfl s⟩
  · obtain rfl := Option.some.inj hstep
    exact hpost _
  · obtain rfl := Option.some.inj hstep
    exact hpost _

theorem tunnelHandleRead_keeps {env : Env}
    (h : CoherentOn (.running ⟨n, .read i c⟩ :: items s) s) {ec : ErrorCode} {rx : Frame}
    {queued : Bool} (hstep : tunnelHandleRead env n i c ec rx queued s = some s') :
    Coherent s' ∧ Keeps s s' ∧ Holds s' ⟨n, .read i c⟩ := by
  have hrelease : ∀ {s₁ : State} {ec : ErrorCode} {size : ℕ},
      CoherentOn (.running ⟨n, .read i c⟩ :: items s₁) s₁ → Keeps s s₁ →
      release (.read i c) ec size s₁ = some s' →
      Coherent s' ∧ Keeps s s' ∧ Holds s' ⟨n, .read i c⟩ := by
    intro s₁ ec size h₁ hk hr
    obtain ⟨hcoherent, hkeeps, hdone⟩ := release_keeps h₁ hr
    exact ⟨hcoherent, hk.trans hkeeps, holds_of_itemDone hdone _⟩
  rw [tunnelHandleRead] at hstep
  by_cases hcanceled : (s.context c).canceled = true
  · rw [if_pos hcanceled] at hstep
    exact hrelease h (.refl s) hstep
  rw [if_neg hcanceled] at hstep
  by_cases hec : ec = .operationAborted
  · rw [if_pos hec] at hstep
    exact hrelease h (.refl s) hstep
  rw [if_neg hec] at hstep
  rcases hdata : tunnelData env (s.tunnel i) rx with _ | data
  · rw [hdata] at hstep
    exact hrelease h (.refl s) hstep
  rw [hdata] at hstep
  dsimp only at hstep
  -- the data is copied
  obtain ⟨s₁, hs₁⟩ : ∃ s₁, s₁ = s.modifyContext c fun ctx => { ctx with
    received := ctx.received ++ data.take (s.context c).buffers
    bytesRead := ctx.bytesRead + data.length } := ⟨_, rfl⟩
  have h₁ : CoherentOn (.running ⟨n, .read i c⟩ :: items s₁) s₁ := by
    rw [hs₁]
    exact h.congr (.modifyContext s c fun _ => rfl)
  have hk₁ : Keeps s s₁ := by
    rw [hs₁]
    exact .of_subset rfl fun _ ht => ht
  rw [← hs₁] at hstep
  split_ifs at hstep
  · obtain rfl := Option.some.inj hstep
    refine ⟨CoherentOn.addTask_of_some (x := .running ⟨n, .read i c⟩) ?_ rfl,
      hk₁.trans (.of_subset rfl (List.subset_append_left _ _)), holds_addTask rfl _⟩
    exact h₁.congr (.modifyContext s₁ c fun _ => rfl)
  · exact hrelease h₁ hk₁ hstep

end

end Mjlib.Multiplex.StreamAsioClient

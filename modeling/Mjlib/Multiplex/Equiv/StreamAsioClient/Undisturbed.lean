import Mjlib.Multiplex.Equiv.StreamAsioClient.LockHeld

/-!
# Operations of a `StreamAsioClient` that are not about a write

`Undisturbed env h s s'` says what an operation does that neither is given the handler `h` nor ends a
write with it: `h` comes to no other place, it is neither posted nor called, and the tunnel that has it
as its write handler still does.  The operations of the client are compositions of a few changes of the
state; each change has its lemma (`Undisturbed.addTask`, `Undisturbed.modifyTunnel` and so on), and the
lemmas of the operations put them together (`asyncReadSome_undisturbed`, `maybeRetry_undisturbed`).
-/

namespace Mjlib.Multiplex.StreamAsioClient

open Io (Concrete ExclusiveCommand)

/-! ### Where a handler can be -/

/-- The handlers of the application that a command carries. -/
def Command.handlers : Command → List ℕ
  | transmit _ handler => [handler]
  | register r => [r.handler]
  | _ => []

/-- The handlers that a task carries, apart from one that is posted. -/
def Task.handlers : Task → List ℕ
  | invoke w => w.command.handlers
  | registerDone _ r _ => [r.handler]
  | writeMultiple _ _ handler => [handler]
  | registerWrite _ r => [r.handler]
  | registerRead _ r => [r.handler]
  | _ => []

/-- The handler is posted by the task. -/
def Task.Completes (h : ℕ) : Task → Bool
  | complete (some handler) _ _ => handler = h
  | _ => false

/-- The tasks that post the handler. -/
def postedWith (h : ℕ) (s : State) : List Task := s.tasks.filter (Task.Completes h)

/-- The calls of the handler. -/
def calledWith (h : ℕ) (s : State) : List Completion := s.completions.filter fun c => c.handler = h

/-- The handler belongs to something else than a write. -/
def Elsewhere (h : ℕ) (s : State) : Prop :=
  (∃ w ∈ s.lock.queued, h ∈ w.command.handlers) ∨ (∃ task ∈ s.tasks, h ∈ task.handlers) ∨
    ∃ ctx ∈ s.contexts, ctx.handler = some h

/-- The handler is the write handler of a tunnel, with the nonce. -/
def HasHandler (h : ℕ) (s : State) (i : ℕ) (nonce : Option ℕ) : Prop :=
  (s.tunnel i).writeHandler = some h ∧ (s.tunnel i).writeNonce = nonce

/-- A frame that is written for a tunnel has the size that the options leave. -/
def Task.Sized (env : Env) : Task → Prop
  | tunnelWrite _ _ data size => writeSize env data = some size
  | _ => True

/-- What an operation does that is not about the handler. -/
structure Undisturbed (env : Env) (h : ℕ) (s s' : State) : Prop where
  elsewhere : ¬ Elsewhere h s → ¬ Elsewhere h s'
  posted : ¬ Elsewhere h s → postedWith h s' = postedWith h s
  called : ¬ Elsewhere h s → calledWith h s' = calledWith h s
  handler : ∀ i nonce, HasHandler h s' i nonce ↔ HasHandler h s i nonce
  sized : (∀ task ∈ s.tasks, task.Sized env) → ∀ task ∈ s'.tasks, task.Sized env
  idle : (s.lock.waiting = none → s.lock.queued = []) → s'.lock.waiting = none →
    s'.lock.queued = []
  made_le : s.lock.made ≤ s'.lock.made
  readNonce : ∀ i n, (s'.tunnel i).readNonce = some n →
    (s.tunnel i).readNonce = some n ∨ s.lock.made ≤ n ∧ n < s'.lock.made
  writeNonce : ∀ i n, (s'.tunnel i).writeNonce = some n →
    (s.tunnel i).writeNonce = some n ∨ s.lock.made ≤ n ∧ n < s'.lock.made
  /-- An item stays unless a tunnel has its nonce that does not have the handler. -/
  items : ∀ x ∈ items s, ∀ n, x.nonce? = some n → n < s.lock.made →
    (∀ i, (s.tunnel i).readNonce ≠ some n) →
    (∀ i, (s.tunnel i).writeNonce = some n → (s.tunnel i).writeHandler = some h) → x ∈ items s'

/-- A map that leaves alone what a filter selects, and selects nothing more. -/
theorem filter_map_of_fixed {α : Type*} {p : α → Bool} {f : α → α} {l : List α}
    (hp : ∀ x, p (f x) = p x) (hf : ∀ x, p x = true → f x = x) :
    (l.map f).filter p = l.filter p := by
  induction l with
  | nil => rfl
  | cons x l ih =>
    rw [List.map_cons, List.filter_cons, List.filter_cons, hp, ih]
    split_ifs with hx
    · rw [hf x hx]
    · rfl

namespace Undisturbed

variable {env : Env} {h : ℕ} {s s' s'' : State}

theorem refl (env : Env) (h : ℕ) (s : State) : Undisturbed env h s s :=
  ⟨id, fun _ => rfl, fun _ => rfl, fun _ _ => Iff.rfl, id, id, le_rfl, fun _ _ => Or.inl,
    fun _ _ => Or.inl, fun _ hx _ _ _ _ _ => hx⟩

theorem trans (h₁ : Undisturbed env h s s') (h₂ : Undisturbed env h s' s'') :
    Undisturbed env h s s'' where
  elsewhere := fun hs => h₂.elsewhere (h₁.elsewhere hs)
  posted := fun hs => (h₂.posted (h₁.elsewhere hs)).trans (h₁.posted hs)
  called := fun hs => (h₂.called (h₁.elsewhere hs)).trans (h₁.called hs)
  handler := fun i nonce => (h₂.handler i nonce).trans (h₁.handler i nonce)
  sized := fun hs => h₂.sized (h₁.sized hs)
  idle := fun hs => h₂.idle (h₁.idle hs)
  made_le := h₁.made_le.trans h₂.made_le
  readNonce := by
    intro i n hn
    have hle := h₂.made_le
    have hle' := h₁.made_le
    rcases h₂.readNonce i n hn with hn' | hn'
    · exact (h₁.readNonce i n hn').imp_right fun hlt => ⟨hlt.1, by omega⟩
    · exact Or.inr ⟨by omega, hn'.2⟩
  writeNonce := by
    intro i n hn
    have hle := h₂.made_le
    have hle' := h₁.made_le
    rcases h₂.writeNonce i n hn with hn' | hn'
    · exact (h₁.writeNonce i n hn').imp_right fun hlt => ⟨hlt.1, by omega⟩
    · exact Or.inr ⟨by omega, hn'.2⟩
  items := by
    intro x hx n hn hlt hread hwrite
    refine h₂.items x (h₁.items x hx n hn hlt hread hwrite) n hn (hlt.trans_le h₁.made_le) ?_ ?_
    · intro i hi
      rcases h₁.readNonce i n hi with hold | hnew
      · exact hread i hold
      · omega
    · intro i hi
      rcases h₁.writeNonce i n hi with hold | hnew
      · exact ((h₁.handler i (some n)).mpr ⟨hwrite i hold, hold⟩).1
      · omega

/-- Only the frames and the replies are different. -/
theorem of_eq (hlock : s'.lock = s.lock) (htasks : s'.tasks = s.tasks)
    (htunnels : s'.tunnels = s.tunnels) (hcontexts : s'.contexts = s.contexts)
    (hcompletions : s'.completions = s.completions) : Undisturbed env h s s' := by
  have htunnel := tunnel_eq_of_tunnels_eq htunnels
  constructor
  · unfold Elsewhere
    rw [hlock, htasks, hcontexts]
    exact id
  · intro _
    rw [postedWith, postedWith, htasks]
  · intro _
    rw [calledWith, calledWith, hcompletions]
  · intro i nonce
    rw [HasHandler, HasHandler, htunnel]
  · rw [htasks]
    exact id
  · rw [hlock]
    exact id
  · rw [hlock]
  · intro i n
    rw [htunnel]
    exact Or.inl
  · intro i n
    rw [htunnel]
    exact Or.inl
  · intro x hx _ _ _ _ _
    rwa [StreamAsioClient.items, hlock, htasks]

/-- The tasks are others, with the same posted handlers. -/
theorem of_tasks {tasks : List Task} (hmem : ∀ task ∈ tasks, task ∈ s.tasks ∨
      h ∉ task.handlers ∧ task.Sized env)
    (hposted : tasks.filter (Task.Completes h) = s.tasks.filter (Task.Completes h))
    (hitems : s.tasks.filterMap Task.item? ⊆ tasks.filterMap Task.item?) :
    Undisturbed env h s { s with tasks := tasks } := by
  constructor
  · rintro hs (hw | ⟨task, htask, hh⟩ | hc)
    · exact hs (Or.inl hw)
    · rcases hmem task htask with hold | hnew
      · exact hs (Or.inr (Or.inl ⟨task, hold, hh⟩))
      · exact hnew.1 hh
    · exact hs (Or.inr (Or.inr hc))
  · exact fun _ => hposted
  · exact fun _ => rfl
  · exact fun _ _ => Iff.rfl
  · exact fun hs task htask => (hmem task htask).elim (hs task) fun hnew => hnew.2
  · exact id
  · exact le_rfl
  · exact fun _ _ => Or.inl
  · exact fun _ _ => Or.inl
  · intro x hx _ _ _ _ _
    exact List.mem_append.mpr ((List.mem_append.mp hx).imp_right fun hx' => hitems hx')

theorem addTask {task : Task} (hh : h ∉ task.handlers) (hc : task.Completes h = false)
    (hsized : task.Sized env) : Undisturbed env h s (s.addTask task) := by
  refine of_tasks (fun task' htask' => ?_) ?_ ?_
  · rcases List.mem_append.mp htask' with hold | hnew
    · exact Or.inl hold
    · rw [List.mem_singleton.mp hnew]
      exact Or.inr ⟨hh, hsized⟩
  · rw [List.filter_append, List.filter_singleton, hc]
    exact List.append_nil _
  · rw [List.filterMap_append]
    exact List.subset_append_left _ _

/-- The frames and the replies are different, and a task is added. -/
theorem addTask_of_eq {s₁ : State} {task : Task} (hlock : s₁.lock = s.lock)
    (htasks : s₁.tasks = s.tasks) (htunnels : s₁.tunnels = s.tunnels)
    (hcontexts : s₁.contexts = s.contexts) (hcompletions : s₁.completions = s.completions)
    (hh : h ∉ task.handlers) (hc : task.Completes h = false) (hsized : task.Sized env) :
    Undisturbed env h s (s₁.addTask task) :=
  (of_eq hlock htasks htunnels hcontexts hcompletions).trans (addTask hh hc hsized)

theorem call {handler : ℕ} (hne : handler ≠ h) (ec : ErrorCode) (size : ℕ) :
    Undisturbed env h s (s.call handler ec size) := by
  constructor
  · exact id
  · exact fun _ => rfl
  · intro _
    rw [calledWith, calledWith, State.call, List.filter_append, List.filter_singleton]
    simp [hne]
  · exact fun _ _ => Iff.rfl
  · exact id
  · exact id
  · exact le_rfl
  · exact fun _ _ => Or.inl
  · exact fun _ _ => Or.inl
  · exact fun _ hx _ _ _ _ _ => hx

/-- A tunnel is changed: what is set is not about the handler, and a nonce is a new one. -/
theorem modifyTunnel {i : ℕ} {f : Tunnel → Tunnel}
    (hf : (f (s.tunnel i)).writeHandler = (s.tunnel i).writeHandler ∧
        (f (s.tunnel i)).writeNonce = (s.tunnel i).writeNonce ∨
      (f (s.tunnel i)).writeHandler ≠ some h ∧ (s.tunnel i).writeHandler ≠ some h ∧
        ((f (s.tunnel i)).writeNonce = (s.tunnel i).writeNonce ∨
          (f (s.tunnel i)).writeNonce = none))
    (hread : (f (s.tunnel i)).readNonce = (s.tunnel i).readNonce ∨
      (f (s.tunnel i)).readNonce = none) :
    Undisturbed env h s (s.modifyTunnel i f) := by
  have htunnel := fun j => tunnel_modifyTunnel s i j f
  constructor
  · exact id
  · exact fun _ => rfl
  · exact fun _ => rfl
  · intro j nonce
    unfold HasHandler
    rw [htunnel]
    split_ifs with hj
    · obtain ⟨rfl, -⟩ := hj
      rcases hf with ⟨h1, h2⟩ | ⟨h1, h2, -⟩
      · rw [h1, h2]
      · exact iff_of_false (fun hh => h1 hh.1) fun hh => h2 hh.1
    · exact Iff.rfl
  · exact id
  · exact id
  · exact le_rfl
  · intro j n hn
    rw [htunnel] at hn
    split_ifs at hn with hj
    · obtain ⟨rfl, -⟩ := hj
      rcases hread with h1 | h1
      · exact Or.inl (h1 ▸ hn)
      · rw [h1] at hn
        simp at hn
    · exact Or.inl hn
  · intro j n hn
    rw [htunnel] at hn
    split_ifs at hn with hj
    · obtain ⟨rfl, -⟩ := hj
      rcases hf with ⟨-, h1⟩ | ⟨-, -, h1 | h1⟩
      · exact Or.inl (h1 ▸ hn)
      · exact Or.inl (h1 ▸ hn)
      · rw [h1] at hn
        simp at hn
    · exact Or.inl hn
  · exact fun _ hx _ _ _ _ _ => hx

/-- The handler of a read context is kept, or taken. -/
theorem modifyContext {c : ℕ} {f : ReadContext → ReadContext}
    (hf : ∀ ctx, (f ctx).handler = ctx.handler ∨ (f ctx).handler = none) :
    Undisturbed env h s (s.modifyContext c f) := by
  constructor
  · rintro hs (hw | ht | ⟨ctx, hctx, hh⟩)
    · exact hs (Or.inl hw)
    · exact hs (Or.inr (Or.inl ht))
    · refine hs (Or.inr (Or.inr ?_))
      obtain ⟨k, hk⟩ := List.mem_iff_getElem?.mp hctx
      rw [State.modifyContext, List.getElem?_modify] at hk
      obtain ⟨ctx', hk', heq⟩ := Option.map_eq_some_iff.mp hk
      refine ⟨ctx', List.mem_iff_getElem?.mpr ⟨k, hk'⟩, ?_⟩
      split_ifs at heq
      · rcases hf ctx' with h1 | h1
        · rw [← h1, heq, hh]
        · rw [heq, hh] at h1
          simp at h1
      · rw [heq, hh]
  · exact fun _ => rfl
  · exact fun _ => rfl
  · exact fun _ _ => Iff.rfl
  · exact id
  · exact id
  · exact le_rfl
  · exact fun _ _ => Or.inl
  · exact fun _ _ => Or.inl
  · exact fun _ hx _ _ _ _ _ => hx

/-- The lock is another one, in which no command is about the handler. -/
theorem withLock {l : ExclusiveCommand Command} (hmade : s.lock.made ≤ l.made)
    (hqueued : ∀ w ∈ l.queued, w ∈ s.lock.queued ∨ h ∉ w.command.handlers)
    (hidle : (s.lock.waiting = none → s.lock.queued = []) → l.waiting = none → l.queued = [])
    (hitems : ∀ w ∈ s.lock.queued, w ∈ l.queued ∨ ∃ i, (s.tunnel i).readNonce = some w.nonce ∨
      (s.tunnel i).writeNonce = some w.nonce ∧ (s.tunnel i).writeHandler ≠ some h) :
    Undisturbed env h s { s with lock := l } := by
  constructor
  · rintro hs (⟨w, hw, hh⟩ | ht | hc)
    · rcases hqueued w hw with hold | hnew
      · exact hs (Or.inl ⟨w, hold, hh⟩)
      · exact hnew hh
    · exact hs (Or.inr (Or.inl ht))
    · exact hs (Or.inr (Or.inr hc))
  · exact fun _ => rfl
  · exact fun _ => rfl
  · exact fun _ _ => Iff.rfl
  · exact id
  · exact hidle
  · exact hmade
  · exact fun _ _ => Or.inl
  · exact fun _ _ => Or.inl
  · intro x hx n hn _ hread hwrite
    rcases List.mem_append.mp hx with hq | ht
    · obtain ⟨w, hw, rfl⟩ := List.mem_map.mp hq
      obtain rfl : w.nonce = n := Option.some.inj hn
      rcases hitems w hw with hold | ⟨i, hi | ⟨hi, hne⟩⟩
      · exact List.mem_append_left _ (List.mem_map_of_mem hold)
      · exact absurd hi (hread i)
      · exact absurd (hwrite i hi) hne
    · exact List.mem_append_right _ ht

/-- `MaybeStart` on a lock to which no command about the handler was added. -/
theorem setLock {l : ExclusiveCommand Command} (hmade : s.lock.made ≤ l.made)
    (hqueued : ∀ w ∈ l.queued, w ∈ s.lock.queued ∨ h ∉ w.command.handlers) (hsub : s.lock.queued ⊆ l.queued) :
    Undisturbed env h s (s.setLock l.maybeStart) := by
  obtain ⟨-, -, -, hperm, -, -⟩ := setLock_spec s l
  have hitems : ∀ x ∈ StreamAsioClient.items s,
      x ∈ StreamAsioClient.items (s.setLock l.maybeStart) := by
    intro x hx
    apply hperm.symm.subset
    rcases List.mem_append.mp hx with hq | ht
    · exact List.mem_append_left _ (List.map_subset _ hsub hq)
    · exact List.mem_append_right _ ht
  rw [ExclusiveCommand.maybeStart] at hitems ⊢
  by_cases hw : l.waiting.isSome
  · rw [if_pos hw]
    refine withLock hmade hqueued (fun _ (hnone : l.waiting = none) => ?_)
      fun w hw => Or.inl (hsub hw)
    simp [hnone] at hw
  rw [if_neg hw] at hitems ⊢
  cases hq : l.queued with
  | nil =>
    exact withLock hmade hqueued (fun _ _ => hq) fun w hw => Or.inl (hsub hw)
  | cons front queued =>
    rw [hq] at hitems
    have hnot : ¬ Elsewhere h s → ∀ w ∈ l.queued, h ∉ w.command.handlers := fun hs' w hw hh =>
      (hqueued w hw).elim (fun hold => hs' (Or.inl ⟨w, hold, hh⟩)) fun hnew => hnew hh
    constructor
    · rintro hs' (⟨w, hw, hh⟩ | ⟨task, htask, hh⟩ | hc)
      · exact hnot hs' w (hq ▸ List.mem_cons_of_mem front hw) hh
      · rcases List.mem_append.mp htask with hold | hnew
        · exact hs' (Or.inr (Or.inl ⟨task, hold, hh⟩))
        · rw [List.mem_singleton.mp hnew] at hh
          exact hnot hs' front (hq ▸ List.mem_cons_self) hh
      · exact hs' (Or.inr (Or.inr hc))
    · intro _
      exact (List.filter_append ..).trans (List.append_nil _)
    · exact fun _ => rfl
    · exact fun _ _ => Iff.rfl
    · intro hs' task htask
      rcases List.mem_append.mp htask with hold | hnew
      · exact hs' task hold
      · rw [List.mem_singleton.mp hnew]
        trivial
    · exact fun _ hnone => absurd hnone (Option.some_ne_none front)
    · exact hmade
    · exact fun _ _ => Or.inl
    · exact fun _ _ => Or.inl
    · exact fun x hx _ _ _ _ _ => hitems x hx

theorem invoke {command : Command} (hh : h ∉ command.handlers) :
    Undisturbed env h s (s.invoke command).2 := by
  refine setLock (Nat.le_succ _) (fun w hw => ?_) (List.subset_append_left _ _)
  rcases List.mem_append.mp hw with hold | hnew
  · exact Or.inl hold
  · rw [List.mem_singleton.mp hnew]
    exact Or.inr hh

theorem cancelTimer (i : ℕ) : Undisturbed env h s (cancelTimer i s) := by
  refine of_tasks (fun task' htask' => ?_) ?_
    (List.Perm.of_eq (filterMap_item_cancelTimer i s).symm).subset
  · obtain ⟨task, htask, rfl⟩ := List.mem_map.mp htask'
    cases task with
    | wait i' c =>
      right
      dsimp only
      split_ifs <;> exact ⟨List.not_mem_nil, trivial⟩
    | _ => exact Or.inl htask
  · apply filter_map_of_fixed
    · intro task
      cases task with
      | wait i' c =>
        dsimp only
        split_ifs <;> rfl
      | _ => rfl
    · intro task htask
      cases task with
      | wait i' c => simp [Task.Completes] at htask
      | _ => rfl

/-- A command is given to the lock, and its nonce is kept in the tunnel. -/
theorem invoke_modifyTunnel {command : Command} (hh : h ∉ command.handlers) {i : ℕ} {f : Tunnel → Tunnel}
    (hf : (f (s.tunnel i)).writeHandler = (s.tunnel i).writeHandler)
    (hread : (f (s.tunnel i)).readNonce = (s.tunnel i).readNonce ∨
      (f (s.tunnel i)).readNonce = some s.lock.made)
    (hwrite : (f (s.tunnel i)).writeNonce = (s.tunnel i).writeNonce ∨
      (s.tunnel i).writeHandler ≠ some h ∧ (f (s.tunnel i)).writeNonce = some s.lock.made) :
    Undisturbed env h s ((s.invoke command).2.modifyTunnel i f) := by
  have hinvoke : Undisturbed env h s (s.invoke command).2 := invoke hh
  obtain ⟨-, hmade, htunnels, -⟩ := invoke_spec s command
  have htunnel : ∀ j, ((s.invoke command).2.modifyTunnel i f).tunnel j
      = if i = j ∧ j < s.tunnels.length then f (s.tunnel j) else s.tunnel j := fun j => by
    rw [tunnel_modifyTunnel, htunnels, tunnel_eq_of_tunnels_eq htunnels]
  constructor
  · exact hinvoke.elsewhere
  · exact hinvoke.posted
  · exact hinvoke.called
  · intro j nonce
    unfold HasHandler
    rw [htunnel]
    split_ifs with hj
    · obtain ⟨rfl, -⟩ := hj
      rw [hf]
      rcases hwrite with h1 | ⟨h1, -⟩
      · rw [h1]
      · exact iff_of_false (fun hw => h1 hw.1) fun hw => h1 hw.1
    · exact Iff.rfl
  · exact hinvoke.sized
  · exact hinvoke.idle
  · exact hinvoke.made_le
  · intro j n hn
    rw [htunnel] at hn
    split_ifs at hn with hj
    · obtain ⟨rfl, -⟩ := hj
      rcases hread with h1 | h1
      · exact Or.inl (h1 ▸ hn)
      · obtain rfl := Option.some.inj (h1.symm.trans hn)
        exact Or.inr ⟨le_rfl, hmade ▸ Nat.lt_succ_self _⟩
    · exact Or.inl hn
  · intro j n hn
    rw [htunnel] at hn
    split_ifs at hn with hj
    · obtain ⟨rfl, -⟩ := hj
      rcases hwrite with h1 | ⟨-, h1⟩
      · exact Or.inl (h1 ▸ hn)
      · obtain rfl := Option.some.inj (h1.symm.trans hn)
        exact Or.inr ⟨le_rfl, hmade ▸ Nat.lt_succ_self _⟩
    · exact Or.inl hn
  · exact hinvoke.items

/-! ### The operations -/

theorem sequenceRegister {request : List IdRequest} {reply : Bool} {handler : ℕ}
    (hne : handler ≠ h) : Undisturbed env h s (sequenceRegister request reply handler s) := by
  cases request with
  | nil => exact addTask List.not_mem_nil (by simpa [Task.Completes] using hne) trivial
  | cons thisRequest remainder => exact invoke (by simpa [Command.handlers] using hne.symm)

theorem asyncTransmit {request : List IdRequest} {reply : Bool} {handler : ℕ}
    (hne : handler ≠ h) : Undisturbed env h s (asyncTransmit request reply handler s) := by
  unfold StreamAsioClient.asyncTransmit
  split_ifs
  · exact sequenceRegister hne
  · exact invoke (by simpa [Command.handlers] using hne.symm)

theorem newContext {ctx : ReadContext} (hne : ctx.handler ≠ some h) :
    Undisturbed env h s { s with contexts := s.contexts ++ [ctx] } := by
  constructor
  · rintro hs (hw | ht | ⟨ctx', hctx, hh⟩)
    · exact hs (Or.inl hw)
    · exact hs (Or.inr (Or.inl ht))
    · rcases List.mem_append.mp hctx with hold | hnew
      · exact hs (Or.inr (Or.inr ⟨ctx', hold, hh⟩))
      · rw [List.mem_singleton.mp hnew] at hh
        exact hne hh
  · exact fun _ => rfl
  · exact fun _ => rfl
  · exact fun _ _ => Iff.rfl
  · exact id
  · exact id
  · exact le_rfl
  · exact fun _ _ => Or.inl
  · exact fun _ _ => Or.inl
  · exact fun _ hx _ _ _ _ _ => hx

theorem complete {handler : Option ℕ} (hne : handler ≠ some h) (ec : ErrorCode) (size : ℕ) :
    Undisturbed env h s (s.addTask (.complete handler ec size)) := by
  refine addTask List.not_mem_nil ?_ trivial
  cases handler with
  | none => rfl
  | some handler => simpa [Task.Completes] using hne

theorem asyncReadSome {i size : ℕ} {handler : Option ℕ} (hne : handler ≠ some h) (hstep : asyncReadSome i size handler s = some s') :
    Undisturbed env h s s' := by
  unfold StreamAsioClient.asyncReadSome at hstep
  split_ifs at hstep with hcontext hsize
  · obtain rfl := Option.some.inj hstep
    exact complete hne _ _
  obtain rfl := Option.some.inj hstep
  -- the context, the tunnel, and then the lock
  have hcontexts : Undisturbed env h s
      { s with contexts := s.contexts ++ [ReadContext.mk handler size false 0 []] } := newContext hne
  refine hcontexts.trans ?_
  have htunnel : Undisturbed env h
      { s with contexts := s.contexts ++ [ReadContext.mk handler size false 0 []] }
      ({ s with contexts := s.contexts ++ [ReadContext.mk handler size false 0 []] }.modifyTunnel i
        fun t => { t with readContext := some s.contexts.length }) :=
    modifyTunnel (Or.inl ⟨rfl, rfl⟩) (Or.inl rfl)
  refine htunnel.trans ?_
  exact invoke_modifyTunnel List.not_mem_nil rfl (Or.inr rfl) (Or.inl rfl)

theorem asyncWriteSome {i handler : ℕ} {data : Bytes} (hne : handler ≠ h) (hstep : asyncWriteSome i data handler s = some s') :
    Undisturbed env h s s' := by
  unfold StreamAsioClient.asyncWriteSome at hstep
  split_ifs at hstep with hhandler hdata
  · obtain rfl := Option.some.inj hstep
    exact complete (by simpa using hne) _ _
  obtain rfl := Option.some.inj hstep
  have hnone : (s.tunnel i).writeHandler = none := by simpa using hhandler
  have htunnel : Undisturbed env h s
      (s.modifyTunnel i fun t => { t with writeHandler := some handler }) :=
    modifyTunnel (Or.inr ⟨by simpa using hne, by simp [hnone], Or.inl rfl⟩) (Or.inl rfl)
  refine htunnel.trans ?_
  refine invoke_modifyTunnel List.not_mem_nil rfl (Or.inl rfl) (Or.inr ⟨?_, rfl⟩)
  rw [tunnel_modifyTunnel]
  split_ifs
  · simpa using hne
  · simp [hnone]

end Undisturbed

/-- A handler that is nowhere else is not the handler of a read. -/
theorem handler_context_ne {h : ℕ} {s : State} (hs : ¬ Elsewhere h s) (c : ℕ) :
    (s.context c).handler ≠ some h := by
  intro hh
  apply hs
  right
  right
  unfold State.context at hh
  rw [List.getD_eq_getElem?_getD] at hh
  rcases hctx : s.contexts[c]? with _ | ctx
  · rw [hctx] at hh
    simp at hh
  · rw [hctx] at hh
    exact ⟨ctx, List.mem_of_getElem? hctx, hh⟩

namespace Undisturbed

variable {env : Env} {h : ℕ} {s s' : State} {i c : ℕ}

/-- The handler of a read is posted. -/
theorem postHandler (hs : ¬ Elsewhere h s) (ec : ErrorCode) (size : ℕ) :
    Undisturbed env h s ((s.addTask (.complete (s.context c).handler ec size)).modifyContext c
      fun ctx => { ctx with handler := none }) :=
  (complete (handler_context_ne hs c) ec size).trans (modifyContext fun _ => Or.inr rfl)

theorem maybeRetry {ec : ErrorCode} (hs : ¬ Elsewhere h s)
    (hstep : maybeRetry ec i c s = some s') : Undisturbed env h s s' := by
  unfold StreamAsioClient.maybeRetry at hstep
  dsimp only at hstep
  split_ifs at hstep
  · obtain rfl := Option.some.inj hstep
    exact postHandler hs _ _
  · obtain rfl := Option.some.inj hstep
    exact (postHandler hs _ _).trans (modifyTunnel (Or.inl ⟨rfl, rfl⟩) (Or.inl rfl))
  · obtain rfl := Option.some.inj hstep
    exact (cancelTimer i).trans (addTask List.not_mem_nil rfl trivial)

theorem handlePollTimer {ec : ErrorCode} (hs : ¬ Elsewhere h s)
    (hstep : handlePollTimer ec i c s = some s') : Undisturbed env h s s' := by
  unfold StreamAsioClient.handlePollTimer at hstep
  dsimp only at hstep
  split_ifs at hstep
  · obtain rfl := Option.some.inj hstep
    exact postHandler hs _ _
  · have hcontext : Undisturbed env h s
        (s.modifyContext c fun ctx => { ctx with handler := none, buffers := 0 }) :=
      modifyContext fun _ => Or.inr rfl
    have htunnel := hcontext.trans (modifyTunnel (i := i)
      (f := fun t => { t with readContext := none }) (Or.inl ⟨rfl, rfl⟩) (Or.inl rfl))
    exact htunnel.trans (asyncReadSome (handler_context_ne hs c) hstep)

/-- The handler of a command that is not the write with the handler. -/
theorem handle {command : Command} {ec : ErrorCode} {size : ℕ} {b : Bool}
    (hs : ¬ Elsewhere h s) (hh : h ∉ command.handlers)
    (hwrite : ∀ i data, command = .write i data → (s.tunnel i).writeHandler ≠ some h)
    (hstep : handle command ec size s = some (b, s')) : Undisturbed env h s s' := by
  cases command with
  | transmit request handler =>
    obtain ⟨rfl, rfl⟩ := Prod.mk.injEq .. ▸ Option.some.inj hstep
    exact call (fun heq => hh (by simp [Command.handlers, heq])) _ _
  | register r =>
    have hne : r.handler ≠ h := fun heq => hh (by simp [Command.handlers, heq])
    unfold StreamAsioClient.handle at hstep
    split_ifs at hstep
    · obtain ⟨rfl, rfl⟩ := Prod.mk.injEq .. ▸ Option.some.inj hstep
      exact complete (by simpa using hne) _ _
    · obtain ⟨rfl, rfl⟩ := Prod.mk.injEq .. ▸ Option.some.inj hstep
      exact sequenceRegister hne
  | read i c =>
    obtain ⟨s₁, hs₁, heq⟩ := Option.map_eq_some_iff.mp hstep
    obtain ⟨rfl, rfl⟩ := Prod.mk.injEq .. ▸ heq
    exact maybeRetry hs hs₁
  | write i data =>
    have hne := hwrite i data rfl
    have htunnel : Undisturbed env h s
        (s.modifyTunnel i fun t => { t with writeHandler := none, writeNonce := none }) :=
      modifyTunnel (Or.inr ⟨by simp, hne, Or.inr rfl⟩) (Or.inl rfl)
    unfold StreamAsioClient.handle at hstep
    dsimp only at hstep
    rcases hhandler : (s.tunnel i).writeHandler with _ | handler
    · rw [hhandler] at hstep
      obtain ⟨rfl, rfl⟩ := Prod.mk.injEq .. ▸ Option.some.inj hstep
      exact htunnel
    · rw [hhandler] at hstep hne
      obtain ⟨rfl, rfl⟩ := Prod.mk.injEq .. ▸ Option.some.inj hstep
      exact htunnel.trans (call (by simpa using hne) _ _)

theorem release {command : Command} {ec : ErrorCode} {size : ℕ} (hs : ¬ Elsewhere h s)
    (hh : h ∉ command.handlers)
    (hwrite : ∀ i data, command = .write i data → (s.tunnel i).writeHandler ≠ some h)
    (hstep : release command ec size s = some s') : Undisturbed env h s s' := by
  unfold StreamAsioClient.release at hstep
  rcases hr : StreamAsioClient.handle command ec size s with _ | ⟨b, s₁⟩
  · simp [hr] at hstep
  have hhandle : Undisturbed env h s s₁ := handle hs hh hwrite hr
  rw [hr] at hstep
  cases b with
  | false =>
    obtain rfl := Option.some.inj hstep
    exact hhandle
  | true =>
    dsimp only at hstep
    split_ifs at hstep
    obtain rfl := Option.some.inj hstep
    exact hhandle.trans (addTask List.not_mem_nil rfl trivial)

theorem invokeCommand {w : Concrete Command} (hs : ¬ Elsewhere h s) (hh : h ∉ w.command.handlers)
    (hstep : invokeCommand env w s = some s') : Undisturbed env h s s' := by
  obtain ⟨n, request | r | ⟨i, c⟩ | ⟨i, data⟩⟩ := w
  · rename_i handler
    obtain rfl := Option.some.inj hstep
    exact addTask_of_eq rfl rfl rfl rfl rfl hh rfl trivial
  · obtain rfl := Option.some.inj hstep
    exact addTask_of_eq rfl rfl rfl rfl rfl hh rfl trivial
  · have htunnel : Undisturbed env h s (s.modifyTunnel i fun t => { t with readNonce := none }) :=
      modifyTunnel (Or.inl ⟨rfl, rfl⟩) (Or.inr rfl)
    unfold StreamAsioClient.invokeCommand at hstep
    dsimp only at hstep
    split_ifs at hstep
    · have hne := handler_context_ne (htunnel.elsewhere hs) c
      rcases hhandler : ((s.modifyTunnel i fun t => { t with readNonce := none }).context c).handler
        with _ | handler
      · rw [hhandler] at hstep
        obtain rfl := Option.some.inj hstep
        exact htunnel
      · rw [hhandler] at hstep hne
        obtain rfl := Option.some.inj hstep
        exact htunnel.trans (call (by simpa using hne) _ _)
    · obtain rfl := Option.some.inj hstep
      exact htunnel.trans (addTask_of_eq rfl rfl rfl rfl rfl List.not_mem_nil rfl trivial)
  · unfold StreamAsioClient.invokeCommand at hstep
    dsimp only at hstep
    rcases hsize : writeSize env data with _ | size
    · simp [hsize] at hstep
    rw [hsize] at hstep
    obtain rfl := Option.some.inj hstep
    exact addTask_of_eq rfl rfl rfl rfl rfl List.not_mem_nil rfl hsize

theorem handleSingleWrite {n : ℕ} {r : RegisterCommand} {ec : ErrorCode} (hne : r.handler ≠ h)
    (hstep : handleSingleWrite n r ec s = some s') : Undisturbed env h s s' := by
  have hh : h ∉ [r.handler] := by simpa using hne.symm
  unfold StreamAsioClient.handleSingleWrite at hstep
  split_ifs at hstep
  · obtain rfl := Option.some.inj hstep
    exact addTask hh rfl trivial
  · obtain rfl := Option.some.inj hstep
    exact addTask hh rfl trivial

theorem handleRead {n : ℕ} {r : RegisterCommand} {ec : ErrorCode} {rx : Frame}
    (hne : r.handler ≠ h) (hstep : handleRead n r ec rx s = some s') :
    Undisturbed env h s s' := by
  have hh : h ∉ [r.handler] := by simpa using hne.symm
  unfold StreamAsioClient.handleRead at hstep
  split_ifs at hstep
  · obtain rfl := Option.some.inj hstep
    exact addTask hh rfl trivial
  · obtain rfl := Option.some.inj hstep
    exact addTask hh rfl trivial
  · obtain rfl := Option.some.inj hstep
    exact addTask_of_eq rfl rfl rfl rfl rfl hh rfl trivial
  · obtain rfl := Option.some.inj hstep
    exact addTask_of_eq rfl rfl rfl rfl rfl hh rfl trivial

theorem tunnelHandleRead {n : ℕ} {ec : ErrorCode} {rx : Frame} {queued : Bool}
    (hs : ¬ Elsewhere h s) (hstep : tunnelHandleRead env n i c ec rx queued s = some s') :
    Undisturbed env h s s' := by
  have hrelease : ∀ {s₁ : State} {ec : ErrorCode} {size : ℕ}, Undisturbed env h s s₁ →
      StreamAsioClient.release (.read i c) ec size s₁ = some s' → Undisturbed env h s s' :=
    fun hs₁ hr => hs₁.trans (release (hs₁.elsewhere hs) List.not_mem_nil (by simp) hr)
  unfold StreamAsioClient.tunnelHandleRead at hstep
  split_ifs at hstep
  · exact hrelease (refl env h s) hstep
  · exact hrelease (refl env h s) hstep
  rcases hdata : tunnelData env (s.tunnel i) rx with _ | data
  · rw [hdata] at hstep
    exact hrelease (refl env h s) hstep
  rw [hdata] at hstep
  dsimp only at hstep
  have hcopy : Undisturbed env h s (s.modifyContext c fun ctx => { ctx with
      received := ctx.received ++ data.take (s.context c).buffers
      bytesRead := ctx.bytesRead + data.length }) := modifyContext fun _ => Or.inl rfl
  split_ifs at hstep
  · obtain rfl := Option.some.inj hstep
    have htask : ∀ s₁, Undisturbed env h s₁ (State.addTask (.tunnelRead n i c) s₁) :=
      fun s₁ => addTask List.not_mem_nil rfl trivial
    refine (hcopy.trans ?_).trans (htask _)
    exact modifyContext fun _ => Or.inl rfl
  · exact hrelease hcopy hstep

/-! ### Calls of `cancel` -/

/-- What `remove` does to the lock, if the nonce is a tunnel's that does not have the handler. -/
theorem remove {nonce : Option ℕ} (hnonce : ∀ n, nonce = some n → ∃ j,
      (s.tunnel j).readNonce = some n ∨
        (s.tunnel j).writeNonce = some n ∧ (s.tunnel j).writeHandler ≠ some h) :
    Undisturbed env h s { s with lock := (s.lock.remove nonce).2 } := by
  refine withLock le_rfl (fun w hw => Or.inl (List.mem_of_mem_filter hw)) ?_ fun w hw => ?_
  · intro hidle hwaiting
    have hempty : (s.lock.remove nonce).2.queued = s.lock.queued.filter fun w =>
      some w.nonce != nonce := rfl
    rw [hempty, hidle hwaiting]
    rfl
  · by_cases hn : nonce = some w.nonce
    · exact Or.inr (hnonce w.nonce hn)
    · exact Or.inl (List.mem_filter.mpr ⟨hw, by simpa using fun heq => hn heq.symm⟩)

theorem cancelRead (hs : ¬ Elsewhere h s) (hstep : cancelRead i s = some s') :
    Undisturbed env h s s' := by
  unfold StreamAsioClient.cancelRead at hstep
  cases hcontext : (s.tunnel i).readContext with
  | none =>
    simp only [hcontext, tunnel_setLock] at hstep
    split_ifs at hstep
    obtain rfl := Option.some.inj hstep
    exact remove fun n hn => ⟨i, Or.inl hn⟩
  | some c =>
    simp only [hcontext, tunnel_setLock, tunnel_modifyContext] at hstep
    have hcanceled : Undisturbed env h s
        (s.modifyContext c fun ctx => { ctx with canceled := true }) :=
      modifyContext fun _ => Or.inl rfl
    have hremove : Undisturbed env h s
        { s.modifyContext c (fun ctx => { ctx with canceled := true }) with
          lock := (s.lock.remove (s.tunnel i).readNonce).2 } :=
      hcanceled.trans (remove fun n hn => ⟨i, Or.inl hn⟩)
    split_ifs at hstep
    · obtain rfl := Option.some.inj hstep
      exact hremove.trans (postHandler (hremove.elsewhere hs) _ _)
    · obtain rfl := Option.some.inj hstep
      exact hremove

theorem cancelWrite (hne : (s.tunnel i).writeHandler ≠ some h) :
    Undisturbed env h s (cancelWrite i s) := by
  have hremove : Undisturbed env h s
      { s with lock := (s.lock.remove (s.tunnel i).writeNonce).2 } :=
    remove fun n hn => ⟨i, Or.inr ⟨hn, hne⟩⟩
  unfold StreamAsioClient.cancelWrite
  dsimp only
  split_ifs
  · exact hremove.trans (complete hne _ _)
  · exact hremove

/-- `cancel` up to the part about the write. -/
theorem cancel_split (env : Env) (hs : ¬ Elsewhere h s) (hstep : cancel i s = some s') :
    ∃ s₁, Undisturbed env h s s₁ ∧
      (Coherent s → s₁.lock = (s.lock.remove (s.tunnel i).readNonce).2) ∧
      s' = (StreamAsioClient.cancelWrite i s₁).modifyTunnel i fun t => { t with
        writeHandler := none
        readNonce := none
        writeNonce := none } := by
  unfold StreamAsioClient.cancel at hstep
  rcases hr : StreamAsioClient.cancelRead i s with _ | s₁
  · simp [hr] at hstep
  rw [hr] at hstep
  obtain rfl := Option.some.inj hstep
  have hread : Undisturbed env h s s₁ := cancelRead hs hr
  exact ⟨_, (hread.trans (cancelTimer i)).trans (modifyTunnel (Or.inl ⟨rfl, rfl⟩) (Or.inl rfl)),
    fun hcoherent => (cancelRead_spec hcoherent hr).1, rfl⟩

theorem writeHandler_ne (hu : Undisturbed env h s s') (hne : (s.tunnel i).writeHandler ≠ some h) :
    (s'.tunnel i).writeHandler ≠ some h :=
  fun heq => hne ((hu.handler i _).mp ⟨heq, rfl⟩).1

/-- A tunnel that does not have the handler is canceled. -/
theorem cancel (hs : ¬ Elsewhere h s) (hne : (s.tunnel i).writeHandler ≠ some h)
    (hstep : cancel i s = some s') : Undisturbed env h s s' := by
  obtain ⟨s₁, hu, -, rfl⟩ := cancel_split env hs hstep
  have hne₁ := hu.writeHandler_ne hne
  have hwrite : Undisturbed env h s₁ (StreamAsioClient.cancelWrite i s₁) := cancelWrite hne₁
  refine (hu.trans hwrite).trans (modifyTunnel (Or.inr ⟨by simp, ?_, Or.inr rfl⟩) (Or.inr rfl))
  exact hwrite.writeHandler_ne hne₁

end Undisturbed

end Mjlib.Multiplex.StreamAsioClient

import Mjlib.Lib.Run
import Mjlib.Multiplex.Equiv.StreamAsioClient.Keeps

/-!
# Is the lock of a `StreamAsioClient` released?

While a command has the lock, a task holds its release handler, or its end is posted (`LockHeld`).
This holds in every state of a run whose calls of `cancel` find the tunnel's read and write in the
queue, if they were given to the lock at all (`always_notLeaked`).  A read that is canceled after it
has left the queue, and before it is invoked, returns without its release handler
(`not_always_notLeaked`); the handler of a write that is canceled then is empty when it is called, and
throws before the end of the command is posted.
-/

namespace Mjlib.Multiplex.StreamAsioClient

open Io (Concrete ExclusiveCommand)

/-- At a call of `cancel` the tunnel's read is in the queue, unless there is none that was not yet
invoked, and so is its write, unless there is none. -/
def CancelOk (s : State) : Action → Prop
  | .cancel i =>
    (∀ n, (s.tunnel i).readNonce = some n → ∃ w ∈ s.lock.queued, w.nonce = n) ∧
      ((s.tunnel i).writeHandler.isSome = true →
        ∃ w ∈ s.lock.queued, (s.tunnel i).writeNonce = some w.nonce)
  | _ => True

/-! ### Tasks that complete -/

section
variable {env : Env} {s s' : State} {task : Task}

/-- A task passes its release handler on. -/
def Passes (task : Task) (s s' : State) : Prop :=
  Coherent s' ∧ Keeps s s' ∧ ∀ w, task.concrete? = some w → Holds s' w

theorem runEvent_passes (h : CoherentOn (task.item?.toList ++ items s) s)
    (hnot : task ≠ .itemDone) (hstep : runEvent env task s = some s') : Passes task s s' := by
  cases task with
  | invoke w =>
    obtain ⟨hcoherent, hkeeps, hholds⟩ := invokeCommand_keeps h hstep
    refine ⟨hcoherent, hkeeps, fun w' hw' => ?_⟩
    obtain rfl : w = w' := Option.some.inj hw'
    exact hholds
  | itemDone => exact absurd rfl hnot
  | registerDone nonce r ec =>
    obtain ⟨hcoherent, hkeeps, hdone⟩ := release_keeps h hstep
    exact ⟨hcoherent, hkeeps, fun w _ => holds_of_itemDone hdone w⟩
  | complete handler ec size =>
    have hcalled : ∀ completions, Passes (.complete handler ec size) s
        { s with completions := completions } := fun completions =>
      ⟨CoherentOn.congr h ⟨rfl, rfl, fun _ => rfl, fun _ => rfl⟩, .of_subset rfl fun _ ht => ht,
        fun w hw => by simp [Task.concrete?] at hw⟩
    cases handler with
    | none =>
      obtain rfl := Option.some.inj hstep
      exact hcalled _
    | some handler =>
      obtain rfl := Option.some.inj hstep
      exact hcalled _
  | pollTimer i c ec =>
    obtain ⟨hcoherent, hkeeps⟩ := handlePollTimer_keeps h hstep
    exact ⟨hcoherent, hkeeps, fun w hw => by simp [Task.concrete?] at hw⟩
  | _ => simp [runEvent] at hstep

theorem expire_passes (h : CoherentOn (task.item?.toList ++ items s) s)
    (hstep : expire task s = some s') : Passes task s s' := by
  cases task with
  | wait i c =>
    obtain rfl := Option.some.inj hstep
    exact ⟨CoherentOn.addTask_of_some h rfl, .addTask s _, fun w hw => by
      simp [Task.concrete?] at hw⟩
  | _ => simp [expire] at hstep

theorem completeFrame_passes (h : CoherentOn (task.item?.toList ++ items s) s) {ec : ErrorCode}
    {rx : Frame} {queued : Bool} (hstep : completeFrame env task ec rx queued s = some s') :
    Passes task s s' := by
  -- what is known of a task whose handler is held, or was called, is the same for every command
  have hpass : ∀ {w : Concrete Command}, task.concrete? = some w →
      Coherent s' ∧ Keeps s s' ∧ Holds s' w → Passes task s s' := by
    rintro w hw ⟨hcoherent, hkeeps, hholds⟩
    refine ⟨hcoherent, hkeeps, fun w' hw' => ?_⟩
    obtain rfl : w = w' := Option.some.inj (hw.symm.trans hw')
    exact hholds
  have hrelease : Coherent s' ∧ Keeps s s' ∧ .itemDone ∈ s'.tasks → Passes task s s' := by
    rintro ⟨hcoherent, hkeeps, hdone⟩
    exact ⟨hcoherent, hkeeps, fun w _ => holds_of_itemDone hdone w⟩
  cases task with
  | writeMultiple nonce request handler =>
    have hstep' : release (.transmit request handler) ec 0 s = some s' := hstep
    exact hrelease (release_keeps h hstep')
  | registerWrite nonce r => exact hpass rfl (handleSingleWrite_keeps h hstep)
  | registerRead nonce r => exact hpass rfl (handleRead_keeps h hstep)
  | requestWrite nonce i c =>
    rw [completeFrame] at hstep
    split_ifs at hstep
    obtain rfl := Option.some.inj hstep
    exact hpass rfl ⟨CoherentOn.addTask_of_some h rfl, .addTask s _, holds_addTask rfl s⟩
  | tunnelRead nonce i c => exact hpass rfl (tunnelHandleRead_keeps h hstep)
  | tunnelWrite nonce i data size => exact hrelease (release_keeps h hstep)
  | _ => simp [completeFrame] at hstep

/-- The lock is given to the next command. -/
theorem itemDone_lockHeld (h : Coherent s) (hstep : s.lock.itemDone.map s.setLock = some s') :
    Coherent s' ∧ LockHeld s' := by
  obtain ⟨r, hr, rfl⟩ := Option.map_eq_some_iff.mp hstep
  rw [ExclusiveCommand.itemDone] at hr
  split_ifs at hr
  obtain rfl := Option.some.inj hr
  obtain ⟨hmade, htunnels, hcontexts, hperm, -, hwaiting⟩ :=
    setLock_spec s { s.lock with waiting := none }
  constructor
  · refine CoherentOn.perm (CoherentOn.congr h ⟨hmade, by rw [hcontexts], fun c => ?_,
      tunnel_eq_of_tunnels_eq htunnels⟩) hperm.symm
    rw [context_eq_of_contexts_eq hcontexts]
  · intro w hw
    exact (hwaiting w hw).resolve_right (by simp)

theorem LockHeld.of_keeps (h : LockHeld s) (hkeeps : Keeps s s') : LockHeld s' :=
  fun w hw => (hkeeps.waiting w hw).elim id fun hw' => hkeeps.holds w (h w hw')

/-- A task that is not the end of a command was taken out, and completed. -/
theorem LockHeld.of_passes {s₀ : State} {k : ℕ} (h : LockHeld s) (hs : Coherent s)
    (htake : take k s = some (task, s₀)) (hnot : task ≠ .itemDone)
    (hpasses : CoherentOn (task.item?.toList ++ items s₀) s₀ → Passes task s₀ s') :
    Coherent s' ∧ LockHeld s' := by
  obtain ⟨hlock, -, hcoherent, hholds⟩ := take_spec htake
  obtain ⟨hcoherent', hkeeps, hpass⟩ := hpasses (hcoherent hs)
  refine ⟨hcoherent', fun w hw => ?_⟩
  rcases hkeeps.waiting w hw with hheld | hwaiting
  · exact hheld
  rcases hholds w (h w (hlock ▸ hwaiting)) with hheld | hdone | hconcrete
  · exact hkeeps.holds w hheld
  · exact absurd hdone hnot
  · exact hpass w hconcrete

end

/-! ### Calls of `cancel` -/

section
variable {s s' : State} {i : ℕ}

/-- What `cancel` does to the state. -/
structure Canceled (i : ℕ) (s s' : State) : Prop where
  made : s'.lock.made = s.lock.made
  waiting : s'.lock.waiting = s.lock.waiting
  queued : ∀ w ∈ s'.lock.queued, some w.nonce ≠ (s.tunnel i).readNonce ∧
    some w.nonce ≠ (s.tunnel i).writeNonce
  sublist : s'.lock.queued.Sublist s.lock.queued
  taskItems : s'.tasks.filterMap Task.item? = s.tasks.filterMap Task.item?
  holds : ∀ w, Holds s w → Holds s' w
  length : s'.contexts.length = s.contexts.length
  canceled : ∀ c, (s'.context c).canceled = true ↔
    (s.context c).canceled = true ∨ (s.tunnel i).readContext = some c
  self : s'.tunnel i = { s.tunnel i with
    readNonce := none
    writeNonce := none
    writeHandler := none
    readContext := none }
  other : ∀ j, i ≠ j → s'.tunnel j = s.tunnel j

theorem remove_spec (l : ExclusiveCommand Command) (nonce : Option ℕ) :
    (l.remove nonce).2.made = l.made ∧ (l.remove nonce).2.waiting = l.waiting ∧
      (l.remove nonce).2.queued.Sublist l.queued ∧
      ∀ w ∈ (l.remove nonce).2.queued, some w.nonce ≠ nonce := by
  refine ⟨rfl, rfl, List.filter_sublist, fun w hw => ?_⟩
  have := (List.mem_filter.mp hw).2
  simpa using this

theorem canceled_setCanceled {c : ℕ} (hc : c < s.contexts.length) (c' : ℕ) :
    ((s.modifyContext c fun ctx => { ctx with canceled := true }).context c').canceled = true ↔
      (s.context c').canceled = true ∨ c = c' := by
  simp only [State.context, State.modifyContext, List.getD_eq_getElem?_getD, List.getElem?_modify]
  by_cases hcc' : c = c'
  · subst hcc'
    simp [hc]
  · cases s.contexts[c']? <;> simp [hcc']

theorem tunnel_setLock (s : State) (l : ExclusiveCommand Command) (i : ℕ) :
    State.tunnel { s with lock := l } i = s.tunnel i := rfl

theorem tunnel_modifyContext (s : State) (c : ℕ) (f : ReadContext → ReadContext) (i : ℕ) :
    (s.modifyContext c f).tunnel i = s.tunnel i := rfl

/-- A handler is posted that no item is about. -/
theorem filterMap_item_complete (s : State) (handler : Option ℕ) (ec : ErrorCode) (size : ℕ) :
    (s.tasks ++ [Task.complete handler ec size]).filterMap Task.item?
      = s.tasks.filterMap Task.item? := by
  rw [List.filterMap_append]
  exact List.append_nil _

/-- The part about the read: its context is canceled, and it is not in the queue any more. -/
theorem cancelRead_spec {s₁ : State} (hs : Coherent s) (h : cancelRead i s = some s₁) :
    s₁.lock = (s.lock.remove (s.tunnel i).readNonce).2 ∧ s₁.tunnels = s.tunnels ∧
      s₁.tasks.filterMap Task.item? = s.tasks.filterMap Task.item? ∧ s.tasks ⊆ s₁.tasks ∧
      s₁.contexts.length = s.contexts.length ∧
      ∀ c, (s₁.context c).canceled = true ↔
        (s.context c).canceled = true ∨ (s.tunnel i).readContext = some c := by
  rw [cancelRead] at h
  cases hcontext : (s.tunnel i).readContext with
  | none =>
    simp only [hcontext, tunnel_setLock] at h
    split_ifs at h
    obtain rfl := Option.some.inj h
    exact ⟨rfl, rfl, rfl, fun _ ht => ht, rfl, fun c => by simp [State.context]⟩
  | some c =>
    have hcanceled := canceled_setCanceled (hs.context_lt i c hcontext)
    simp only [hcontext, tunnel_setLock, tunnel_modifyContext] at h
    split_ifs at h
    · obtain rfl := Option.some.inj h
      refine ⟨rfl, rfl, filterMap_item_complete s _ _ _, List.subset_append_left _ _,
        (List.length_modify ..).trans (List.length_modify ..), fun c' => ?_⟩
      rw [Option.some_inj, ← hcanceled c',
        canceled_modifyContext (f := fun ctx => { ctx with handler := none }) _ c' fun _ => rfl]
      rfl
    · obtain rfl := Option.some.inj h
      refine ⟨rfl, rfl, rfl, fun _ ht => ht, List.length_modify .., fun c' => ?_⟩
      rw [Option.some_inj]
      exact hcanceled c'

/-- The part about the write: it is not in the queue any more. -/
theorem cancelWrite_spec (i : ℕ) (s : State) :
    (cancelWrite i s).lock = (s.lock.remove (s.tunnel i).writeNonce).2 ∧
      (cancelWrite i s).tunnels = s.tunnels ∧ (cancelWrite i s).contexts = s.contexts ∧
      (cancelWrite i s).tasks.filterMap Task.item? = s.tasks.filterMap Task.item? ∧
      s.tasks ⊆ (cancelWrite i s).tasks := by
  rw [cancelWrite]
  dsimp only
  split_ifs
  · exact ⟨rfl, rfl, rfl, filterMap_item_complete s _ _ _, List.subset_append_left _ _⟩
  · exact ⟨rfl, rfl, rfl, rfl, fun _ ht => ht⟩

theorem cancel_canceled (hs : Coherent s) (hi : i < s.tunnels.length)
    (h : cancel i s = some s') : Canceled i s s' := by
  rw [cancel] at h
  rcases hr : cancelRead i s with _ | s₁
  · simp [hr] at h
  rw [hr] at h
  obtain rfl := Option.some.inj h
  obtain ⟨hlock₁, htunnels₁, hitems₁, htasks₁, hlength₁, hcanceled₁⟩ := cancelRead_spec hs hr
  obtain ⟨s₂, hs₂⟩ : ∃ s₂ : State, s₂ = (cancelTimer i s₁).modifyTunnel i
    fun t => { t with readContext := none } := ⟨_, rfl⟩
  obtain ⟨hlock₃, htunnels₃, hcontexts₃, hitems₃, htasks₃⟩ := cancelWrite_spec i s₂
  rw [← hs₂]
  have hlen : i < (cancelTimer i s₁).tunnels.length := by rwa [← htunnels₁] at hi
  have hlock₂ : s₂.lock = s₁.lock := by rw [hs₂]; rfl
  have hself₂ : s₂.tunnel i = { s.tunnel i with readContext := none } := by
    rw [hs₂, tunnel_modifyTunnel_self hlen]
    exact congrArg (fun t : Tunnel => { t with readContext := none })
      (tunnel_eq_of_tunnels_eq htunnels₁ i)
  obtain ⟨hmade, hwaiting, hsub, hnonce⟩ := remove_spec s.lock (s.tunnel i).readNonce
  obtain ⟨hmade', hwaiting', hsub', hnonce'⟩ := remove_spec s₂.lock (s₂.tunnel i).writeNonce
  rw [← hlock₃] at hmade' hwaiting' hsub' hnonce'
  rw [hlock₂] at hmade' hwaiting' hsub'
  rw [← hlock₁] at hmade hwaiting hsub hnonce
  have htunnels : ∀ j, (cancelWrite i s₂).tunnel j = s₂.tunnel j :=
    tunnel_eq_of_tunnels_eq htunnels₃
  have hlen₃ : i < (cancelWrite i s₂).tunnels.length := by
    rw [htunnels₃, hs₂]
    exact lt_of_lt_of_eq hlen (List.length_modify ..).symm
  refine ⟨hmade'.trans hmade, hwaiting'.trans hwaiting, fun w hw => ⟨hnonce w (hsub'.subset hw), ?_⟩,
    hsub'.trans hsub, ?_, ?_, ?_, ?_, ?_, ?_⟩
  · have := hnonce' w hw
    rwa [hself₂] at this
  · refine hitems₃.trans (Eq.trans ?_ hitems₁)
    rw [hs₂]
    exact filterMap_item_cancelTimer i s₁
  · rintro w ⟨task, hmem, hheld⟩
    obtain ⟨task', hmem', hheld'⟩ := (keeps_cancelTimer i s₁).holds w ⟨task, htasks₁ hmem, hheld⟩
    refine ⟨task', htasks₃ ?_, hheld'⟩
    rw [hs₂]
    exact hmem'
  · refine (congrArg List.length hcontexts₃).trans (Eq.trans ?_ hlength₁)
    rw [hs₂]
    rfl
  · intro c
    rw [← hcanceled₁ c]
    refine Iff.of_eq (congrArg (fun ctx : ReadContext => ctx.canceled = true) ?_)
    refine (context_eq_of_contexts_eq hcontexts₃ c).trans ?_
    rw [hs₂]
    rfl
  · rw [tunnel_modifyTunnel_self hlen₃, htunnels, hself₂]
  · intro j hj
    rw [tunnel_modifyTunnel_of_ne _ hj, htunnels, hs₂, tunnel_modifyTunnel_of_ne _ hj]
    exact tunnel_eq_of_tunnels_eq htunnels₁ j

/-- No item that is left has the nonce of the tunnel's read or write: what was in the queue was
removed, and no task shares a nonce with the queue. -/
theorem Canceled.free (h : Canceled i s s') (hs : Coherent s) (hok : CancelOk s (.cancel i))
    {x : Item} (hx : x ∈ items s') {n : ℕ} (hn : x.nonce? = some n) :
    (s.tunnel i).readNonce ≠ some n ∧ ¬ HasWrite s i n := by
  have hapart := (List.pairwise_append.mp hs.apart).2.2
  rw [items, h.taskItems] at hx
  rcases List.mem_append.mp hx with hq | ht
  · obtain ⟨w, hw, rfl⟩ := List.mem_map.mp hq
    obtain rfl : w.nonce = n := Option.some.inj hn
    obtain ⟨hread, hwrite⟩ := h.queued w hw
    exact ⟨fun heq => hread heq.symm, fun hhas => hwrite hhas.2.symm⟩
  · -- a command in the queue would not be apart from the task
    have hqueue : ∀ w ∈ s.lock.queued, w.nonce ≠ n := by
      rintro w hw rfl
      exact (hapart _ (List.mem_map_of_mem hw) x ht).1 w.nonce rfl hn
    constructor
    · intro heq
      obtain ⟨w, hw, hwn⟩ := hok.1 n heq
      exact hqueue w hw hwn
    · rintro ⟨hhandler, heq⟩
      obtain ⟨w, hw, hwn⟩ := hok.2 hhandler
      exact hqueue w hw (Option.some.inj (hwn.symm.trans heq))

/-- **Cancellation**: with the read and the write in the queue, nothing in flight is about them. -/
theorem Canceled.coherent (h : Canceled i s s') (hs : Coherent s) (hok : CancelOk s (.cancel i)) :
    Coherent s' := by
  have hsub : (items s').Sublist (items s) := by
    rw [items, items, h.taskItems]
    exact (h.sublist.map _).append (List.Sublist.refl _)
  have hreadContext : ∀ j c, (s'.tunnel j).readContext = some c →
      (s.tunnel j).readContext = some c := by
    intro j c hj
    by_cases hij : i = j
    · subst hij
      simp [h.self] at hj
    · rwa [h.other j hij] at hj
  refine ⟨hs.apart.sublist hsub, fun x hx => (hs.ok x (hsub.subset hx)).mono h.made.ge ?_ ?_ ?_,
    ?_, ?_⟩
  · rintro n j c rfl ⟨hlt, hcanceled, hcontext, hnonce⟩
    have hij : i ≠ j := by
      rintro rfl
      exact (h.free hs hok hx rfl).1 hnonce
    refine ⟨by rwa [h.length], ?_, by rwa [h.other j hij], by rwa [h.other j hij]⟩
    -- the context that was canceled belongs to another tunnel
    rw [Bool.eq_false_iff, Ne, h.canceled, not_or]
    exact ⟨by simp [hcanceled], fun hi => hij (hs.owner i j c hi hcontext)⟩
  · rintro j c - ⟨hlt, hcanceled | ⟨hcontext, hnonce⟩⟩
    · exact ⟨by rwa [h.length], Or.inl ((h.canceled c).mpr (Or.inl hcanceled))⟩
    · refine ⟨by rwa [h.length], ?_⟩
      by_cases hij : i = j
      · subst hij
        exact Or.inl ((h.canceled c).mpr (Or.inr hcontext))
      · rw [h.other j hij]
        exact Or.inr ⟨hcontext, hnonce⟩
  · intro n j hn hwrite
    have hij : i ≠ j := by
      rintro rfl
      exact (h.free hs hok hx hn).2 hwrite
    rwa [HasWrite, h.other j hij]
  · exact fun j k c hj hk => hs.owner j k c (hreadContext j c hj) (hreadContext k c hk)
  · intro j c hj
    rw [h.length]
    exact hs.context_lt j c (hreadContext j c hj)

theorem Canceled.keeps (h : Canceled i s s') : Keeps s s' :=
  ⟨fun _ hw => Or.inr (h.waiting ▸ hw), h.holds⟩

end

/-! ### Runs -/

/-- A new tunnel has no read and no write. -/
theorem makeTunnel_keeps {s : State} (h : Coherent s) (id : UInt8) (channel : UInt32) :
    Coherent { s with tunnels := s.tunnels ++ [Tunnel.mk id channel none none none none] } ∧
      Keeps s { s with tunnels := s.tunnels ++ [Tunnel.mk id channel none none none none] } := by
  obtain ⟨s', hs'⟩ : ∃ s' : State, s' = { s with
    tunnels := s.tunnels ++ [Tunnel.mk id channel none none none none] } := ⟨_, rfl⟩
  rw [← hs']
  have hold : ∀ j < s.tunnels.length, s'.tunnel j = s.tunnel j := by
    intro j hj
    rw [hs', State.tunnel, State.tunnel, List.getD_eq_getElem?_getD, List.getD_eq_getElem?_getD,
      List.getElem?_append_left hj]
  have hreadContext : ∀ j c, (s'.tunnel j).readContext = some c →
      (s.tunnel j).readContext = some c := by
    intro j c hj
    by_cases hlt : j < s.tunnels.length
    · rwa [hold j hlt] at hj
    · rw [hs', State.tunnel, List.getD_eq_getElem?_getD,
        List.getElem?_append_right (not_lt.mp hlt), List.getElem?_singleton] at hj
      split_ifs at hj <;> simp at hj
  have hitems : items s' = items s := by rw [hs']; rfl
  have hcontext : ∀ c, s'.context c = s.context c := context_eq_of_contexts_eq (by rw [hs'])
  have hlength : s'.contexts.length = s.contexts.length := by rw [hs']
  constructor
  · refine ⟨hitems ▸ h.apart, fun x hx => (h.ok x (hitems ▸ hx)).mono (by rw [hs']) ?_ ?_ ?_,
      ?_, ?_⟩
    · rintro n j c - hread
      rwa [HasRead, hold j (lt_of_readContext hread.2.2.1), hcontext, hlength]
    · rintro j c - ⟨hlt, hcanceled | hcurrent⟩
      · exact ⟨by rwa [hlength], Or.inl (by rwa [hcontext])⟩
      · rw [Between, hold j (lt_of_readContext hcurrent.1), hlength]
        exact ⟨hlt, Or.inr hcurrent⟩
    · rintro n j - hwrite
      rwa [HasWrite, hold j (lt_of_writeHandler hwrite.1)]
    · exact fun j k c hj hk => h.owner j k c (hreadContext j c hj) (hreadContext k c hk)
    · intro j c hj
      rw [hlength]
      exact h.context_lt j c (hreadContext j c hj)
  · rw [hs']
    exact .of_subset rfl fun _ ht => ht

/-- **One step**: a lock that is taken can still be released. -/
theorem step_lockHeld {env : Env} {s s' : State} {a : Action} (h : Coherent s ∧ LockHeld s)
    (hok : CancelOk s a) (hstep : step env s a = some s') : Coherent s' ∧ LockHeld s' := by
  obtain ⟨hs, hheld⟩ := h
  have hkeeps : Coherent s' ∧ Keeps s s' → Coherent s' ∧ LockHeld s' := fun ⟨hs', hk⟩ =>
    ⟨hs', hheld.of_keeps hk⟩
  cases a with
  | makeTunnel id channel =>
    obtain rfl := Option.some.inj hstep
    exact hkeeps (makeTunnel_keeps hs id channel)
  | asyncTransmit request reply handler =>
    obtain rfl := Option.some.inj hstep
    exact hkeeps (asyncTransmit_keeps hs request reply handler)
  | asyncReadSome i size handler =>
    rw [step] at hstep
    split_ifs at hstep with hi
    exact hkeeps (asyncReadSome_keeps hs hi hstep)
  | asyncWriteSome i data handler =>
    rw [step] at hstep
    split_ifs at hstep with hi
    exact hkeeps (asyncWriteSome_keeps hs hi hstep)
  | cancel i =>
    rw [step] at hstep
    split_ifs at hstep with hi
    have hcanceled := cancel_canceled hs hi hstep
    exact hkeeps ⟨hcanceled.coherent hs hok, hcanceled.keeps⟩
  | event k =>
    obtain ⟨⟨task, s₀⟩, htake, hrun⟩ := Option.bind_eq_some_iff.mp hstep
    by_cases hdone : task = .itemDone
    · subst hdone
      exact itemDone_lockHeld ((take_spec htake).2.2.1 hs) hrun
    · exact hheld.of_passes hs htake hdone fun h₀ => runEvent_passes h₀ hdone hrun
  | timer k =>
    obtain ⟨⟨task, s₀⟩, htake, hrun⟩ := Option.bind_eq_some_iff.mp hstep
    refine hheld.of_passes hs htake ?_ fun h₀ => expire_passes h₀ hrun
    rintro rfl
    simp [expire] at hrun
  | frame k ec rx queued =>
    obtain ⟨⟨task, s₀⟩, htake, hrun⟩ := Option.bind_eq_some_iff.mp hstep
    refine hheld.of_passes hs htake ?_ fun h₀ => completeFrame_passes h₀ hrun
    rintro rfl
    simp [completeFrame] at hrun

/-- At the start nothing is in flight. -/
theorem coherent_init : Coherent {} :=
  ⟨List.Pairwise.nil, fun _ h => absurd h (List.not_mem_nil), fun i _ _ h => by
    simp [State.tunnel] at h, fun i _ h => by simp [State.tunnel] at h⟩

/-- The lock is not leaked: while it is taken it can be released, and when nothing is in flight it is
free. -/
def NotLeaked (s : State) : Prop := LockHeld s ∧ (s.tasks = [] → s.lock.waiting = none)

theorem LockHeld.notLeaked {s : State} (h : LockHeld s) : NotLeaked s := by
  refine ⟨h, fun htasks => Option.eq_none_iff_forall_ne_some.mpr fun w hw => ?_⟩
  obtain ⟨task, hmem, -⟩ := h w hw
  simp [htasks] at hmem

/-- **The lock is not leaked** in any state of a run that cancels only what is in the queue. -/
theorem always_notLeaked (env : Env) (as : List Action)
    (h : Run.Guarded (step env) CancelOk {} as) : Run.Always (step env) NotLeaked {} as := by
  refine Run.always_of_guarded (fun s (hs : Coherent s ∧ LockHeld s) => hs.2.notLeaked)
    (fun s a s' => step_lockHeld) ⟨coherent_init, fun w hw => ?_⟩ h
  simp at hw

/-- A read waits in the queue while a transmission has the lock, and is canceled there. -/
theorem always_notLeaked_queued : Run.Always (step ⟨0, -1⟩) NotLeaked {}
    [.makeTunnel 3 9, .asyncTransmit [] false 1, .asyncReadSome 0 16 7, .cancel 0, .event 0] := by
  apply always_notLeaked
  refine Run.guarded_cons_of_eq rfl trivial (Run.guarded_cons_of_eq rfl trivial
    (Run.guarded_cons_of_eq rfl trivial (Run.guarded_cons_of_eq rfl ?_
      (Run.guarded_cons_of_eq rfl trivial trivial))))
  refine ⟨fun n hn => ⟨⟨1, .read 0 0⟩, List.mem_singleton_self _, ?_⟩, fun h => ?_⟩
  · exact Option.some.inj hn
  · exact absurd h (by decide)

/-- A read is canceled between the start of its command and the invocation: the invocation returns, and
drops the release handler. -/
theorem not_always_notLeaked : ¬ ∀ env as, Run.Always (step env) NotLeaked {} as := by
  intro h
  have hrun := h ⟨0, -1⟩ [.makeTunnel 3 9, .asyncReadSome 0 16 7, .cancel 0, .event 0]
  have hlast := hrun.last rfl
  exact absurd (hlast.2 (by rfl)) (by decide)

end Mjlib.Multiplex.StreamAsioClient

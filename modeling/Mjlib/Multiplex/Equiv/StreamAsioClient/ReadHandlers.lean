import Mjlib.Multiplex.Equiv.StreamAsioClient.Carries
import Mjlib.Multiplex.Equiv.StreamAsioClient.WriteHandlers

/-!
# Is every read handler of a tunnel called once?

A handler that `async_read_some` is given is in one place until it is called: the context of a read
that is in the queue, invoked, or between two polls, or an event that was posted (`carriers`).  This is
so in every run, whatever `cancel` finds (`readHandler_carried`): a read that is canceled in the queue
is posted, and any other one meets the flag of its context later.
-/

namespace Mjlib.Multiplex.StreamAsioClient

open Io (Concrete ExclusiveCommand)

/-! ### Calls of `cancel` -/

section
variable {h k i : ℕ} {ab : Prop} {s s' : State} {j c n : ℕ}

/-- The first assignment of `cancel`: the tunnel's current read is canceled. -/
def marked (j : ℕ) (s : State) : State :=
  match (s.tunnel j).readContext with
  | none => s
  | some c => s.modifyContext c fun ctx => { ctx with canceled := true }

/-- What `cancel` does then about the read. -/
def removeRead (j : ℕ) (s : State) : Option State :=
  let (removed, lock) := s.lock.remove (s.tunnel j).readNonce
  let s := { s with lock := lock }
  if removed then
    match (s.tunnel j).readContext with
    | none => none
    | some c =>
      some ((s.addTask (.complete (s.context c).handler .operationAborted 0)).modifyContext c
        fun ctx => { ctx with handler := none })
  else some s

theorem cancelRead_eq (j : ℕ) (s : State) : cancelRead j s = removeRead j (marked j s) := rfl

theorem marked_tunnel (j : ℕ) (s : State) (j' : ℕ) : (marked j s).tunnel j' = s.tunnel j' := by
  rw [marked]
  cases (s.tunnel j).readContext <;> rfl

theorem marked_carries (hc : Carries h k i ab s) (j : ℕ) : Carries h k i ab (marked j s) := by
  rw [marked]
  cases (s.tunnel j).readContext with
  | none => exact hc
  | some c => exact Carried.modifyContext hc (fun _ => rfl) fun _ _ => rfl

/-- The current read of the tunnel is canceled now. -/
theorem marked_canceled (hc : Carries h k i ab s) (hcurrent : (s.tunnel j).readContext = some c) :
    ((marked j s).context c).canceled = true := by
  rw [marked, hcurrent]
  exact (canceled_setCanceled ((Carried.reads hc).current_lt j c hcurrent) c).mpr (Or.inr rfl)

/-- A handler that is not posted and was not called is only called with `operation_aborted` once its
tunnel is canceled. -/
theorem marked_aborts (hc : Carries h k i ab s) (ho : outcomes h s = []) :
    Carries h k i True (marked i s) := by
  have hmarked := marked_carries hc i
  have houtcomes : outcomes h (marked i s) = [] := by
    rw [← ho, marked]
    cases (s.tunnel i).readContext <;> rfl
  refine ⟨hmarked.reads, ?_⟩
  obtain ⟨hweight, habout, -, helsewhere, hwrite⟩ := hmarked.tracks
  refine ⟨hweight, fun x hx j c hread hh => ⟨(habout x hx j c hread hh).1, fun _ => ?_⟩, ?_,
    helsewhere, hwrite⟩
  · obtain ⟨rfl, -⟩ := habout x hx j c hread hh
    rcases hmarked.reads.known x hx j c hread with hcanceled | hcurrent
    · exact hcanceled
    · rw [marked_tunnel] at hcurrent
      exact marked_canceled hc hcurrent
  · intro _ e he
    rw [houtcomes] at he
    exact absurd he List.not_mem_nil

/-- What is removed from the queue was in it. -/
theorem items_remove (s : State) (nonce : Option ℕ) :
    (items s).Perm ((s.lock.queued.filter fun w => some w.nonce == nonce).map .pending
      ++ items { s with lock := (s.lock.remove nonce).2 }) := by
  have hqueue := (List.filter_append_perm (fun w => some w.nonce == nonce) s.lock.queued).symm
  rw [items, items, ← List.append_assoc]
  refine List.Perm.append_right _ ((hqueue.map Item.pending).trans (.of_eq ?_))
  rw [List.map_append]
  rfl

theorem removeRead_carries (hc : Carries h k i ab s) (hstep : removeRead j s = some s') :
    Carries h k i ab s' ∧ s'.tunnels = s.tunnels ∧
      ∀ c, (s'.context c).canceled = (s.context c).canceled := by
  obtain ⟨s₁, hs₁⟩ : ∃ s₁ : State,
      s₁ = { s with lock := (s.lock.remove (s.tunnel j).readNonce).2 } := ⟨_, rfl⟩
  have hview : SameReads h s s₁ := by
    rw [hs₁]
    exact .of_eq le_rfl rfl rfl rfl
  have hperm := items_remove s (s.tunnel j).readNonce
  rw [← hs₁] at hperm
  have hcontext : ∀ c, s₁.context c = s.context c := fun c => by rw [hs₁]; rfl
  rw [removeRead] at hstep
  change (if (s.lock.queued.any fun w => some w.nonce == (s.tunnel j).readNonce) = true then
    match (s.tunnel j).readContext with
      | none => none
      | some c => _ else _) = _ at hstep
  obtain ⟨removed, hremoved⟩ : ∃ removed, removed = s.lock.queued.filter fun w =>
    some w.nonce == (s.tunnel j).readNonce := ⟨_, rfl⟩
  rw [← hremoved] at hperm
  have hnonce : ∀ w ∈ removed, some w.nonce = (s.tunnel j).readNonce := by
    intro w hw
    rw [hremoved] at hw
    simpa using (List.mem_filter.mp hw).2
  cases removed with
  | nil =>
    -- the read is not in the queue
    have hnot : ¬ (s.lock.queued.any fun w => some w.nonce == (s.tunnel j).readNonce) = true := by
      intro hany
      obtain ⟨w, hw, hw'⟩ := List.any_eq_true.mp hany
      have hmem : w ∈ s.lock.queued.filter fun w => some w.nonce == (s.tunnel j).readNonce :=
        List.mem_filter.mpr ⟨hw, hw'⟩
      rw [← hremoved] at hmem
      exact List.not_mem_nil hmem
    rw [if_neg hnot] at hstep
    obtain rfl := Option.some.inj hstep
    have hc₁ : Carries h k i ab s₁ := (Carried.perm hc hperm).congr hview
    rw [hs₁] at hc₁
    exact ⟨hc₁, rfl, fun _ => rfl⟩
  | cons w rest =>
    have hc₁ : Carried h k i ab (.pending w :: (rest.map .pending ++ items s₁)) s :=
      Carried.perm hc hperm
    obtain ⟨c, hw, hcurrent⟩ := hc₁.reads.readNonce j w.nonce
      (hnonce w List.mem_cons_self).symm (.pending w) List.mem_cons_self rfl
    have hread : (Item.pending w).read? = some (j, c) := by rw [hw]; rfl
    -- nothing else has the nonce
    have hrest : rest = [] := by
      rw [List.eq_nil_iff_forall_not_mem]
      intro w' hw'
      have hapart := (List.pairwise_cons.mp hc₁.reads.apart).1 (.pending w')
        (List.mem_append_left _ (List.mem_map_of_mem hw'))
      refine hapart.1 w.nonce rfl ?_
      exact (hnonce w' (List.mem_cons_of_mem w hw')).trans (hnonce w List.mem_cons_self).symm
    rw [hrest, List.map_nil, List.nil_append] at hc₁
    have hany : (s.lock.queued.any fun w => some w.nonce == (s.tunnel j).readNonce) = true := by
      have hmem : w ∈ s.lock.queued.filter fun w => some w.nonce == (s.tunnel j).readNonce :=
        hremoved ▸ List.mem_cons_self
      exact List.any_eq_true.mpr ⟨w, (List.mem_filter.mp hmem).1, (List.mem_filter.mp hmem).2⟩
    rw [if_pos hany, hcurrent] at hstep
    obtain rfl := Option.some.inj hstep
    have hposted := (hc₁.congr hview).postHandler hread .operationAborted 0
      fun _ _ => rfl
    rw [hs₁] at hposted
    refine ⟨hposted, rfl, fun c' => ?_⟩
    exact canceled_modifyContext (State.addTask _ _) c' fun _ => rfl

theorem cancelWrite_carries (hc : Carries h k i ab s) (j : ℕ) :
    Carries h k i ab (cancelWrite j s) := by
  have hperm := items_remove s (s.tunnel j).writeNonce
  have hview : SameReads h s { s with lock := (s.lock.remove (s.tunnel j).writeNonce).2 } :=
    .of_eq le_rfl rfl rfl rfl
  have hother := Carried.perm hc hperm
  have hc₁ : Carries h k i ab { s with lock := (s.lock.remove (s.tunnel j).writeNonce).2 } := by
    refine (hother.dropOthers ?_).congr hview
    intro x hx
    obtain ⟨w, hw, rfl⟩ := List.mem_map.mp hx
    have hnonce : some w.nonce = (s.tunnel j).writeNonce := by
      simpa using (List.mem_filter.mp hw).2
    exact hother.reads.writeNonce j w.nonce hnonce.symm (.pending w)
      (List.mem_append_left _ hx) rfl
  rw [cancelWrite]
  dsimp only
  split_ifs
  · have hne := (Carried.tracks hc).write j
    have hposted := Carried.carries_post hc₁ (s.tunnel j).writeHandler .operationAborted 0
      fun _ _ => rfl
    rwa [inHand_of_ne hne] at hposted
  · exact hc₁

/-- What a tunnel forgets about its read does not matter for its write. -/
theorem cancelWrite_modifyTunnel (j : ℕ) (s : State) :
    cancelWrite j (s.modifyTunnel j fun t => { t with readContext := none })
      = (cancelWrite j s).modifyTunnel j fun t => { t with readContext := none } := by
  have htunnel : ((s.modifyTunnel j fun t => { t with readContext := none }).tunnel j).writeNonce
        = (s.tunnel j).writeNonce ∧
      ((s.modifyTunnel j fun t => { t with readContext := none }).tunnel j).writeHandler
        = (s.tunnel j).writeHandler := by
    rw [tunnel_modifyTunnel]
    split_ifs <;> exact ⟨rfl, rfl⟩
  have hlock : (s.modifyTunnel j fun t => { t with readContext := none }).lock = s.lock := rfl
  rw [cancelWrite, cancelWrite]
  dsimp only [tunnel_setLock]
  rw [tunnel_setLock, tunnel_setLock, htunnel.1, htunnel.2, hlock]
  split_ifs <;> rfl

theorem modifyTunnel_modifyTunnel (s : State) (j : ℕ) (f g : Tunnel → Tunnel) :
    (s.modifyTunnel j f).modifyTunnel j g = s.modifyTunnel j (g ∘ f) := by
  rw [State.modifyTunnel, State.modifyTunnel, State.modifyTunnel, List.modify_modify_eq]

/-- **Cancellation**, after the current read is canceled. -/
theorem cancel_carries (hs : Carries h k i ab (marked j s))
    (hcanceled : ∀ c, (s.tunnel j).readContext = some c → ((marked j s).context c).canceled = true)
    (hstep : cancel j s = some s') : Carries h k i ab s' := by
  rw [cancel, cancelRead_eq] at hstep
  rcases hr : removeRead j (marked j s) with _ | s₁
  · simp [hr] at hstep
  rw [hr] at hstep
  dsimp only at hstep
  obtain ⟨hc₁, htunnels₁, hcanceled₁⟩ := removeRead_carries hs hr
  obtain ⟨s₂, hs₂⟩ : ∃ s₂, s₂ = cancelWrite j (cancelTimer j s₁) := ⟨_, rfl⟩
  rw [cancelWrite_modifyTunnel, ← hs₂] at hstep
  have hc₂ : Carries h k i ab s₂ := hs₂ ▸ cancelWrite_carries (hc₁.cancelTimer j) j
  obtain ⟨-, htunnels₂, hcontexts₂, -⟩ := cancelWrite_spec j (cancelTimer j s₁)
  rw [← hs₂] at htunnels₂ hcontexts₂
  have htunnel : s₂.tunnel j = s.tunnel j := by
    rw [tunnel_eq_of_tunnels_eq htunnels₂]
    exact (tunnel_eq_of_tunnels_eq htunnels₁ j).trans (marked_tunnel j s j)
  have hcontext : ∀ c, (s₂.context c).canceled = ((marked j s).context c).canceled := by
    intro c
    rw [context_eq_of_contexts_eq hcontexts₂]
    exact hcanceled₁ c
  -- every read of the tunnel is canceled now
  have hall : ∀ x ∈ items s₂, ∀ c, x.read? = some (j, c) → (s₂.context c).canceled = true := by
    intro x hx c hread
    rcases (Carried.reads hc₂).known x hx j c hread with hold | hcurrent
    · exact hold
    · rw [hcontext]
      exact hcanceled c (htunnel ▸ hcurrent)
  rw [modifyTunnel_modifyTunnel] at hstep
  obtain rfl := Option.some.inj hstep
  exact Carried.modifyTunnel hc₂ (Or.inr rfl) (Or.inr rfl) (Or.inr ⟨rfl, hall, Or.inl rfl⟩)
    (by simp)

end

/-! ### Steps -/

section
variable {h k i : ℕ} {ab : Prop} {s s' s₀ : State} {task : Task} {env : Env}

/-- A task is taken out of the list; what it posts is in hand. -/
theorem take_carries {p : ℕ} (hc : Carries h k i ab s) (htake : take p s = some (task, s₀)) :
    ∃ k', k = k' + (task.outcome? h).toList.length ∧
      Carried h k' i ab (task.item?.toList ++ items s₀) s₀ ∧
      ∀ e, task.outcome? h = some e → ab → e = .operationAborted := by
  obtain ⟨hreads, hweight, habout, haborted, helsewhere, hwrite⟩ := hc
  have houtcomes := outcomes_take (h := h) htake
  obtain ⟨task', htask, heq⟩ := Option.map_eq_some_iff.mp htake
  obtain ⟨rfl, rfl⟩ := Prod.mk.injEq .. ▸ heq
  have hperm := items_take htask
  refine ⟨_, ?_, Carried.perm (L := items s) ⟨?_, rfl, habout, ?_, helsewhere, hwrite⟩ hperm, ?_⟩
  · have hlength := houtcomes.length_eq
    rw [List.length_append] at hlength
    change k = (items s).countP (Item.Holds h s) + _ + _
    omega
  · exact ⟨hreads.apart, hreads.nonce_lt, hreads.context_lt, hreads.known, hreads.current_lt,
      hreads.readNonce_lt, hreads.writeNonce_lt, hreads.readNonce, hreads.writeNonce⟩
  · exact fun ha e he => haborted ha e (houtcomes.mem_iff.mpr (List.mem_append_right _ he))
  · intro e he ha
    refine haborted ha e (houtcomes.mem_iff.mpr (List.mem_append_left _ ?_))
    rw [he]
    exact List.mem_singleton_self e

theorem itemDone_carries (hc : Carries h k i ab s)
    (hstep : s.lock.itemDone.map s.setLock = some s') : Carries h k i ab s' := by
  obtain ⟨r, hr, rfl⟩ := Option.map_eq_some_iff.mp hstep
  rw [ExclusiveCommand.itemDone] at hr
  split_ifs at hr
  obtain rfl := Option.some.inj hr
  obtain ⟨hmade, htunnels, hcontexts, hperm, -, -⟩ :=
    setLock_spec s { s.lock with waiting := none }
  have hview : SameReads h s (s.setLock { s.lock with waiting := none }.maybeStart) :=
    .of_eq hmade.ge hcontexts htunnels (outcomes_setLock h s _)
  exact Carried.perm (Carried.congr hc hview) hperm.symm

theorem runEvent_carries (hc : Carried h k i ab (task.item?.toList ++ items s) s)
    (hab : ∀ e, task.outcome? h = some e → ab → e = .operationAborted)
    (hstep : runEvent env task s = some s') :
    Carries h (k + (task.outcome? h).toList.length) i ab s' := by
  cases task with
  | invoke w => exact invokeCommand_carries hc hstep
  | itemDone => exact itemDone_carries hc hstep
  | registerDone nonce r ec =>
    have hstep' : release (.register r) ec 0 s = some s' := hstep
    exact release_carries hc hstep'
  | complete handler ec size =>
    cases handler with
    | none =>
      obtain rfl := Option.some.inj hstep
      exact hc
    | some handler =>
      obtain rfl := Option.some.inj hstep
      have hcalled := Carried.call hc handler ec size fun heq => hab ec (by
        rw [heq]
        exact if_pos rfl)
      have hlength : (Task.outcome? h (.complete (some handler) ec size)).toList.length
          = inHand h (some handler) := by
        rw [Task.outcome?, inHand]
        split_ifs <;> rfl
      rw [hlength]
      exact hcalled
  | pollTimer j c ec => exact handlePollTimer_carries hc hstep
  | _ => simp [runEvent] at hstep

theorem expire_carries (hc : Carried h k i ab (task.item?.toList ++ items s) s)
    (hstep : expire task s = some s') : Carries h k i ab s' := by
  cases task with
  | wait j c =>
    obtain rfl := Option.some.inj hstep
    exact Carried.addTask (.pollTimer j c .success) hc rfl
  | _ => simp [expire] at hstep

theorem completeFrame_carries (hc : Carried h k i ab (task.item?.toList ++ items s) s)
    {ec : ErrorCode} {rx : Frame} {queued : Bool}
    (hstep : completeFrame env task ec rx queued s = some s') : Carries h k i ab s' := by
  cases task with
  | writeMultiple nonce request handler =>
    have hstep' : release (.transmit request handler) ec 0 s = some s' := hstep
    exact release_carries hc hstep'
  | registerWrite nonce r => exact handleSingleWrite_carries hc hstep
  | registerRead nonce r => exact handleRead_carries hc hstep
  | requestWrite nonce j c =>
    rw [completeFrame] at hstep
    split_ifs at hstep
    obtain rfl := Option.some.inj hstep
    exact Carried.addTask (.tunnelRead nonce j c) hc rfl
  | tunnelRead nonce j c => exact tunnelHandleRead_carries hc hstep
  | tunnelWrite nonce j data size =>
    have hstep' : release (.write j data) ec (if ec = .success then size else 0) s = some s' :=
      hstep
    exact release_carries hc hstep'
  | _ => simp [completeFrame] at hstep

theorem makeTunnel_sameReads (s : State) (server : UInt8) (channel : UInt32) :
    SameReads h s
      { s with tunnels := s.tunnels ++ [Tunnel.mk server channel none none none none] } := by
  obtain ⟨s', hs'⟩ : ∃ s' : State, s' = { s with
    tunnels := s.tunnels ++ [Tunnel.mk server channel none none none none] } := ⟨_, rfl⟩
  have htunnel : ∀ j, (s'.tunnel j).readContext = (s.tunnel j).readContext ∧
      (s'.tunnel j).readNonce = (s.tunnel j).readNonce ∧
      (s'.tunnel j).writeNonce = (s.tunnel j).writeNonce ∧
      (s'.tunnel j).writeHandler = (s.tunnel j).writeHandler := by
    intro j
    rw [hs', State.tunnel, State.tunnel, List.getD_eq_getElem?_getD, List.getD_eq_getElem?_getD]
    rcases lt_or_ge j s.tunnels.length with hj | hj
    · rw [List.getElem?_append_left hj]
      exact ⟨rfl, rfl, rfl, rfl⟩
    · rw [List.getElem?_append_right hj, List.getElem?_eq_none hj, List.getElem?_singleton]
      split_ifs <;> exact ⟨rfl, rfl, rfl, rfl⟩
  rw [← hs']
  exact ⟨by rw [hs'], by rw [hs'], fun _ => by rw [hs']; rfl, fun _ => by rw [hs']; rfl,
    fun j => (htunnel j).1, fun j => (htunnel j).2.1, fun j => (htunnel j).2.2.1,
    fun j => (htunnel j).2.2.2, by rw [hs']; exact .refl _⟩

/-- **One step** that does not bring the handler keeps the number of its places. -/
theorem step_carries {a : Action} (hc : Carries h k i ab s) (hne : a.handler? ≠ some h)
    (hstep : step env s a = some s') : Carries h k i ab s' := by
  cases a with
  | makeTunnel server channel =>
    obtain rfl := Option.some.inj hstep
    exact Carried.congr hc (makeTunnel_sameReads s server channel)
  | asyncTransmit request reply handler =>
    obtain rfl := Option.some.inj hstep
    exact hc.asyncTransmit request reply fun heq => hne (congrArg some heq)
  | asyncReadSome j size handler =>
    rw [step] at hstep
    split_ifs at hstep with hj
    have hread := hc.asyncReadSome hj (fun heq => absurd heq hne) hstep
    rwa [inHand_of_ne hne] at hread
  | asyncWriteSome j data handler =>
    rw [step] at hstep
    split_ifs at hstep
    exact hc.asyncWriteSome (fun heq => hne (congrArg some heq)) hstep
  | cancel j =>
    rw [step] at hstep
    split_ifs at hstep
    exact cancel_carries (marked_carries hc j) (fun c => marked_canceled hc) hstep
  | event p =>
    obtain ⟨⟨task, s₀⟩, htake, hrun⟩ := Option.bind_eq_some_iff.mp hstep
    obtain ⟨k', hk, hc₀, hab⟩ := take_carries hc htake
    rw [hk]
    exact runEvent_carries hc₀ hab hrun
  | timer p =>
    obtain ⟨⟨task, s₀⟩, htake, hrun⟩ := Option.bind_eq_some_iff.mp hstep
    obtain ⟨k', hk, hc₀, -⟩ := take_carries hc htake
    have hwait : task.outcome? h = none := by
      cases task <;> first | rfl | simp [expire] at hrun
    rw [hk, hwait]
    exact expire_carries hc₀ hrun
  | frame p ec rx queued =>
    obtain ⟨⟨task, s₀⟩, htake, hrun⟩ := Option.bind_eq_some_iff.mp hstep
    obtain ⟨k', hk, hc₀, -⟩ := take_carries hc htake
    have hframe : task.outcome? h = none := by
      cases task <;> first | rfl | simp [completeFrame] at hrun
    rw [hk, hframe]
    exact completeFrame_carries hc₀ hrun

/-- **A run** that does not bring the handler. -/
theorem run_carries {xs : List Action} (hc : Carries h k i ab s)
    (hne : ∀ a ∈ xs, a.handler? ≠ some h) (hrun : Run.run (step env) s xs = some s') :
    Carries h k i ab s' := by
  have hstep : ∀ u a u', Carries h k i ab u → a.handler? ≠ some h → step env u a = some u' →
      Carries h k i ab u' := fun _ _ _ hu ha hstep => step_carries hu ha hstep
  exact Run.run_induction_of_guarded hstep hc (Run.guarded_of_forall hne) hrun

theorem carries_init (h i : ℕ) : Carries h 0 i False {} := by
  refine ⟨⟨List.Pairwise.nil, ?_, ?_, ?_, ?_, ?_, ?_, ?_, ?_⟩, rfl, ?_, ?_, ?_, ?_⟩ <;>
    simp [items, State.tunnel]

end

/-! ### Carriers -/

/-- The command is a read whose context has the handler. -/
def Command.Carries (h : ℕ) (s : State) : Command → Bool
  | read _ c => (s.context c).handler = some h
  | _ => false

/-- The task has the handler of a read: as the start of its command, the frame that is written or
read for it, its poll timer, or the event that calls it. -/
def Task.Carries (h : ℕ) (s : State) : Task → Bool
  | invoke w => w.command.Carries h s
  | requestWrite _ _ c => (s.context c).handler = some h
  | tunnelRead _ _ c => (s.context c).handler = some h
  | wait _ c => (s.context c).handler = some h
  | pollTimer _ c _ => (s.context c).handler = some h
  | complete handler _ _ => handler = some h
  | _ => false

/-- What has the handler of a read: commands in the queue, and tasks. -/
def carriers (h : ℕ) (s : State) : List (Concrete Command ⊕ Task) :=
  (s.lock.queued.filter fun w => w.command.Carries h s).map Sum.inl
    ++ (s.tasks.filter (Task.Carries h s)).map Sum.inr

section
variable {h : ℕ} {s : State}

theorem holds_pending (w : Concrete Command) :
    (Item.pending w).Holds h s = w.command.Carries h s := by
  obtain ⟨n, _ | _ | _ | _⟩ := w <;> rfl

/-- A task has the handler in its item, or calls it, and not both. -/
theorem Task.carries_toNat (task : Task) :
    (task.Carries h s).toNat = ((task.item?.map (Item.Holds h s)).getD false).toNat
      + (task.outcome? h).isSome.toNat := by
  cases task with
  | invoke w =>
    change _ = ((Item.pending w).Holds h s).toNat + 0
    rw [holds_pending]
    rfl
  | complete handler ec size =>
    simp only [Task.Carries, Task.item?, Task.concrete?, Task.outcome?]
    split_ifs with heq <;> simp [heq]
  | _ => rfl

theorem countP_eq_add {α : Type*} {p q r : α → Bool} {l : List α}
    (hx : ∀ x, (p x).toNat = (q x).toNat + (r x).toNat) :
    l.countP p = l.countP q + l.countP r := by
  induction l with
  | nil => rfl
  | cons x l ih =>
    have hp := hx x
    rw [List.countP_cons, List.countP_cons, List.countP_cons, ih]
    simp only [Bool.toNat, Bool.cond_eq_ite] at hp
    omega

theorem countP_carries (tasks : List Task) :
    tasks.countP (Task.Carries h s)
      = (tasks.filterMap Task.item?).countP (Item.Holds h s)
        + (tasks.filterMap (Task.outcome? h)).length := by
  rw [List.countP_filterMap, List.length_filterMap_eq_countP]
  exact countP_eq_add Task.carries_toNat

/-- The carriers and the calls are the places that are counted. -/
theorem length_carriers (h : ℕ) (s : State) :
    (carriers h s).length + (calledWith h s).length
      = (items s).countP (Item.Holds h s) + (outcomes h s).length := by
  have hqueued : (s.lock.queued.map Item.pending).countP (Item.Holds h s)
      = (s.lock.queued.filter fun w => w.command.Carries h s).length := by
    rw [List.countP_map, ← List.countP_eq_length_filter]
    congr 1
    funext w
    exact holds_pending w
  have hcalled : (calledWith h s).length
      = (s.completions.filterMap (Completion.outcome? h)).length := by
    rw [calledWith, ← List.countP_eq_length_filter, List.length_filterMap_eq_countP]
    congr 1
    funext c
    rw [Completion.outcome?]
    split_ifs with hh <;> simp [hh]
  rw [carriers, items, outcomes, List.length_append, List.length_map, List.length_map,
    List.countP_append, List.length_append, hqueued, hcalled,
    ← List.countP_eq_length_filter (p := Task.Carries h s), countP_carries]
  omega

/-- A handler that is neither posted nor called has no outcome. -/
theorem outcomes_eq_nil (hposted : postedWith h s = []) (hcalled : calledWith h s = []) :
    outcomes h s = [] := by
  rw [outcomes, List.append_eq_nil_iff, List.filterMap_eq_nil_iff, List.filterMap_eq_nil_iff]
  rw [postedWith, List.filter_eq_nil_iff] at hposted
  rw [calledWith, List.filter_eq_nil_iff] at hcalled
  constructor
  · intro task htask
    have hnot := hposted task htask
    cases task with
    | complete handler ec size =>
      rw [Task.outcome?, if_neg]
      rintro rfl
      exact hnot (by simp [Task.Completes])
    | _ => rfl
  · intro c hc
    rw [Completion.outcome?, if_neg]
    simpa using hcalled c hc

theorem mem_outcomes_of_called {c : Completion} (hc : c ∈ calledWith h s) :
    c.ec ∈ outcomes h s := by
  obtain ⟨hmem, hh⟩ := List.mem_filter.mp hc
  refine List.mem_append_right _ (List.mem_filterMap.mpr ⟨c, hmem, ?_⟩)
  rw [Completion.outcome?, if_pos (of_decide_eq_true hh)]

end

/-! ### Every read handler -/

/-- **Every read handler has one carrier until it is called**, in every run: the commands, frames,
waits and events that have it, together with its calls, are exactly one.  If its tunnel is canceled
while no event for it is posted and it was not called, it is only called with `operation_aborted`. -/
theorem readHandler_carried (env : Env) (xs ys : List Action) (i size h : ℕ) (s s₁ t : State)
    (hs : Run.run (step env) {} xs = some s)
    (hcall : step env s (.asyncReadSome i size h) = some s₁)
    (ht : Run.run (step env) s₁ ys = some t) (hfresh : ∀ a ∈ xs ++ ys, a.handler? ≠ some h) :
    (carriers h t).length + (calledWith h t).length = 1 ∧
      ∀ (ys₁ ys₂ : List Action) (u : State), ys = ys₁ ++ .cancel i :: ys₂ →
        Run.run (step env) s₁ ys₁ = some u → postedWith h u = [] → calledWith h u = [] →
          ∀ c ∈ calledWith h t, c.ec = .operationAborted := by
  have hbefore : Carries h 0 i False s :=
    run_carries (carries_init h i) (fun a ha => hfresh a (List.mem_append_left _ ha)) hs
  have hafter : ∀ a ∈ ys, a.handler? ≠ some h := fun a ha => hfresh a (List.mem_append_right _ ha)
  have hstart : Carries h 1 i False s₁ := by
    rw [step] at hcall
    split_ifs at hcall with hi
    have hread := hbefore.asyncReadSome hi (fun _ => ⟨rfl, id⟩) hcall
    have hhand : inHand h (some h) = 1 := if_pos rfl
    rwa [hhand] at hread
  refine ⟨?_, ?_⟩
  · rw [length_carriers]
    exact (Carried.tracks (run_carries hstart hafter ht)).weight
  · rintro ys₁ ys₂ u rfl hu hposted hcalled c hc
    have hatCancel : Carries h 1 i False u :=
      run_carries hstart (fun a ha => hafter a (List.mem_append_left _ ha)) hu
    obtain ⟨u', hu', hrest⟩ := (Run.run_append_eq_some _).mp ht
    obtain rfl : u = u' := Option.some.inj (hu.symm.trans hu')
    obtain ⟨v, hcancel, hlast⟩ := (Run.run_cons_eq_some _).mp hrest
    -- from the call of cancel on, the handler has no other outcome
    have hmarked := marked_aborts hatCancel (outcomes_eq_nil hposted hcalled)
    have hv : Carries h 1 i True v := by
      rw [step] at hcancel
      split_ifs at hcancel
      exact cancel_carries hmarked (fun c => marked_canceled hatCancel) hcancel
    have hend : Carries h 1 i True t :=
      run_carries hv (fun a ha => hafter a (by simp [ha])) hlast
    exact hend.tracks.aborted trivial c.ec (mem_outcomes_of_called hc)

/-- A read is canceled while its reply is awaited; the reply comes with data, and the handler is
called with an error. -/
theorem readHandler_carried_awaited : ∃ s₁ t : State,
    calledWith 7 t = [⟨7, .operationAborted, 0⟩] ∧
      (carriers 7 t).length + (calledWith 7 t).length = 1 ∧
      ∀ (ys₁ ys₂ : List Action) (u : State),
        [.event 0, .frame 0 .success ⟨0, false, 0, []⟩ false, .cancel 0,
          .frame 0 .success ⟨3, false, 0, [65, 9, 1, 5]⟩ false, .event 0] = ys₁ ++ .cancel 0 :: ys₂ →
        Run.run (step ⟨0, -1⟩) s₁ ys₁ = some u → postedWith 7 u = [] → calledWith 7 u = [] →
          ∀ c ∈ calledWith 7 t, c.ec = .operationAborted := by
  have hcarried := readHandler_carried ⟨0, -1⟩ [.makeTunnel 3 9]
    [.event 0, .frame 0 .success ⟨0, false, 0, []⟩ false, .cancel 0,
      .frame 0 .success ⟨3, false, 0, [65, 9, 1, 5]⟩ false, .event 0] 0 8 7 _ _ _ rfl rfl rfl
    (by decide)
  exact ⟨_, _, rfl, hcarried⟩

end Mjlib.Multiplex.StreamAsioClient

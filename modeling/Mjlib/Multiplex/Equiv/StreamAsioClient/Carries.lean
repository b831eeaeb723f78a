import Mjlib.Multiplex.Equiv.StreamAsioClient.Carried

/-!
# The places of a read's handler in a `StreamAsioClient`

`Carries h k i ab s` is `Carried` for all items of a state.  Every operation keeps it, apart from a
call of `async_read_some` with the handler, which adds a place; a command that is invoked, and a poll
timer, have their item in hand (`maybeRetry_carries`, `handlePollTimer_carries`,
`invokeCommand_carries`).
-/

namespace Mjlib.Multiplex.StreamAsioClient

open Io (Concrete ExclusiveCommand)

/-! ### Calls of the application -/

/-- The handler `h` is of a read of tunnel `i`, and has `k` places in the state. -/
def Carries (h k i : ℕ) (ab : Prop) (s : State) : Prop := Carried h k i ab (items s) s

section
variable {h k i : ℕ} {ab : Prop} {s s' : State} {j c n : ℕ}

theorem Carried.addTask (task : Task) (hc : Carried h k i ab (task.item?.toList ++ items s) s)
    (ho : task.outcome? h = none) : Carries h k i ab (s.addTask task) := by
  have hview : SameReads h s (s.addTask task) := by
    refine ⟨le_rfl, rfl, fun _ => rfl, fun _ => rfl, fun _ => rfl, fun _ => rfl, fun _ => rfl,
      fun _ => rfl, ?_⟩
    refine (outcomes_addTask h s task).trans (.of_eq ?_)
    rw [ho]
    rfl
  exact (hc.congr hview).perm (items_addTask s task).symm

theorem Carried.carries_post (hc : Carried h k i ab (items s) s) (handler : Option ℕ)
    (ec : ErrorCode) (size : ℕ) (hec : handler = some h → ab → ec = .operationAborted) :
    Carries h (k + inHand h handler) i ab (s.addTask (.complete handler ec size)) :=
  (hc.post handler ec size hec).perm (items_addTask s (.complete handler ec size)).symm

theorem inHand_of_ne {handler : Option ℕ} (hne : handler ≠ some h) : inHand h handler = 0 :=
  if_neg hne

/-- A command that is not a read is given to the lock. -/
theorem Carries.invokeOther (hc : Carries h k i ab s) (command : Command)
    (hread : (Item.pending ⟨s.lock.made, command⟩).read? = none) (hh : h ∉ command.handlers) :
    Carries h k i ab (s.invoke command).2 := by
  obtain ⟨-, hmade, htunnels, hcontexts, hperm, -⟩ := invoke_spec s command
  have hview : SameReads h s (s.invoke command).2 :=
    .of_eq (by omega) hcontexts htunnels (outcomes_setLock h s _)
  refine Carried.perm ⟨?_, ?_⟩ hperm.symm
  · exact Carried.reads hc |>.startOther hread (by omega) hview
  · exact ((Carried.tracks hc).congr hview).consOther hread hh

theorem Carries.sequenceRegister (hc : Carries h k i ab s) (request : List IdRequest) (reply : Bool)
    {handler : ℕ} (hne : handler ≠ h) :
    Carries h k i ab (sequenceRegister request reply handler s) := by
  cases request with
  | nil =>
    have hpost := Carried.carries_post hc (some handler) .success 0
      fun heq => absurd (Option.some.inj heq) hne
    rwa [inHand_of_ne fun heq => hne (Option.some.inj heq)] at hpost
  | cons thisRequest remainder =>
    refine hc.invokeOther _ rfl fun hmem => hne ?_
    exact (List.mem_singleton.mp hmem).symm

theorem Carries.asyncTransmit (hc : Carries h k i ab s) (request : List IdRequest) (reply : Bool)
    {handler : ℕ} (hne : handler ≠ h) :
    Carries h k i ab (asyncTransmit request reply handler s) := by
  rw [StreamAsioClient.asyncTransmit]
  split_ifs
  · exact hc.sequenceRegister request reply hne
  · refine hc.invokeOther _ rfl fun hmem => hne ?_
    exact (List.mem_singleton.mp hmem).symm

/-- A read is started; its handler is in hand before. -/
theorem Carries.asyncReadSome (hc : Carries h k i ab s) {size : ℕ} {handler : Option ℕ}
    (hj : j < s.tunnels.length) (hown : handler = some h → j = i ∧ ¬ ab)
    (hstep : asyncReadSome j size handler s = some s') :
    Carries h (k + inHand h handler) i ab s' := by
  rw [StreamAsioClient.asyncReadSome] at hstep
  split_ifs at hstep with hnone hsize
  · obtain rfl := Option.some.inj hstep
    exact Carried.carries_post hc handler .success 0 fun heq ha => absurd ha (hown heq).2
  obtain rfl := Option.some.inj hstep
  have hnone' : (s.tunnel j).readContext = none := by simpa using hnone
  -- the state in which the lock is asked
  obtain ⟨s₁, hs₁⟩ : ∃ s₁ : State, s₁ = { s with
      contexts := s.contexts ++ [ReadContext.mk handler size false 0 []] }.modifyTunnel j
        fun t => { t with readContext := some s.contexts.length } := ⟨_, rfl⟩
  obtain ⟨hnonce, hmade, htunnels, hcontexts, hperm, -⟩ :=
    invoke_spec s₁ (.read j s.contexts.length)
  have hitems : items s₁ = items s := by rw [hs₁]; rfl
  have hlock : s₁.lock = s.lock := by rw [hs₁]; rfl
  rw [← hs₁]
  obtain ⟨s₂, hs₂⟩ : ∃ s₂ : State, s₂ = (s₁.invoke (.read j s.contexts.length)).2.modifyTunnel j
      fun t => { t with readNonce := some (s₁.invoke (.read j s.contexts.length)).1 } := ⟨_, rfl⟩
  have hcontexts₂ : s₂.contexts = s.contexts ++ [ReadContext.mk handler size false 0 []] := by
    rw [hs₂]
    refine hcontexts.trans ?_
    rw [hs₁]
    rfl
  have htunnel : ∀ j', s₂.tunnel j' = if j = j' then { s.tunnel j' with
      readContext := some s.contexts.length
      readNonce := some s.lock.made } else s.tunnel j' := by
    intro j'
    rw [hs₂, tunnel_modifyTunnel, htunnels, tunnel_eq_of_tunnels_eq htunnels, hnonce, hlock, hs₁,
      tunnel_modifyTunnel]
    by_cases hij : j = j'
    · subst hij
      simp only [State.modifyTunnel, List.length_modify, hj, and_self, if_true]
      rfl
    · simp only [hij, false_and, if_false]
      rfl
  have houtcomes : outcomes h s₂ = outcomes h s := by
    rw [hs₂]
    refine (outcomes_setLock h s₁ _).trans ?_
    rw [hs₁]
    rfl
  have hold : ∀ c < s.contexts.length, s₂.context c = s.context c := by
    intro c hlt
    simp only [State.context, hcontexts₂, List.getD_eq_getElem?_getD, List.getElem?_append_left hlt]
  have hnew : s₂.context s.contexts.length = ReadContext.mk handler size false 0 [] := by
    simp only [State.context, hcontexts₂, List.getD_eq_getElem?_getD, List.getElem?_concat_length,
      Option.getD_some]
  have hreads := Carried.reads hc
  have htracks : Tracks h k i ab (items s) s₂ := by
    refine (Carried.tracks hc).congr_on ?_ ?_ ?_ (houtcomes ▸ .refl _)
    · intro x hx j' c hread
      rw [hold c (hreads.context_lt x hx j' c hread)]
    · intro x hx j' c hread
      rw [hold c (hreads.context_lt x hx j' c hread)]
      exact id
    · intro j'
      rw [htunnel]
      split_ifs <;> exact id
  have hcons := htracks.consRead (x := .pending ⟨s.lock.made, .read j s.contexts.length⟩) rfl rfl
    fun heq => by
      rw [hnew] at heq
      exact ⟨(hown heq).1, fun ha => absurd ha (hown heq).2⟩
  rw [hnew] at hcons
  suffices hgoal : Carries h (k + inHand h handler) i ab s₂ by
    rw [hs₂] at hgoal
    exact hgoal
  refine Carried.perm ⟨hreads.startRead (ReadContext.mk handler size false 0 []) hnone' ?_
    hcontexts₂ htunnel, hcons⟩ ?_
  · rw [hs₂]
    exact hmade.trans (by rw [hlock])
  · rw [hs₂, ← hitems, ← hlock]
    exact hperm.symm

/-- A write is started. -/
theorem Carries.asyncWriteSome (hc : Carries h k i ab s) {data : Bytes} {handler : ℕ}
    (hne : handler ≠ h) (hstep : asyncWriteSome j data handler s = some s') :
    Carries h k i ab s' := by
  rw [StreamAsioClient.asyncWriteSome] at hstep
  split_ifs at hstep with hnone hdata
  · obtain rfl := Option.some.inj hstep
    have hpost := Carried.carries_post hc (some handler) .success 0
      fun heq => absurd (Option.some.inj heq) hne
    rwa [inHand_of_ne fun heq => hne (Option.some.inj heq)] at hpost
  obtain rfl := Option.some.inj hstep
  obtain ⟨s₁, hs₁⟩ : ∃ s₁ : State,
      s₁ = s.modifyTunnel j fun t => { t with writeHandler := some handler } := ⟨_, rfl⟩
  rw [← hs₁]
  have h₁ : Carries h k i ab s₁ := by
    rw [hs₁]
    exact Carried.modifyTunnel hc (Or.inl rfl) (Or.inl rfl) (Or.inl rfl)
      fun heq => absurd (Option.some.inj heq) hne
  obtain ⟨-, hmade, -, -, hperm, -⟩ := invoke_spec s₁ (.write j data)
  have h₂ := h₁.invokeOther (.write j data) rfl List.not_mem_nil
  change Carries h k i ab ((s₁.invoke (.write j data)).2.modifyTunnel j
    fun t => { t with writeNonce := some s₁.lock.made })
  refine ⟨(Carried.reads h₂).startWrite (by omega) ?_, (Carried.tracks h₂).congr_on
    (fun _ _ _ _ _ => rfl) (fun _ _ _ _ _ => id) ?_ (.refl _)⟩
  · intro x hx hn
    rcases List.mem_cons.mp (hperm.subset hx) with rfl | hx₁
    · rfl
    · exact absurd ((Carried.reads h₁).nonce_lt x hx₁ _ hn) (lt_irrefl _)
  · intro j'
    rw [tunnel_modifyTunnel]
    split_ifs <;> exact id

/-- A canceled wait is where it was, with the same context. -/
theorem Carries.cancelTimer (hc : Carries h k i ab s) (j : ℕ) :
    Carries h k i ab (cancelTimer j s) := by
  refine Carried.perm (Carried.congr hc ?_) (.of_eq (items_cancelTimer j s).symm)
  exact .of_eq le_rfl rfl rfl (outcomes_cancelTimer h j s)

end

/-! ### Commands -/

section
variable {h k i : ℕ} {ab : Prop} {s s' : State} {j c n : ℕ} {env : Env}

/-- The handler is taken out of its context, and posted. -/
theorem Carried.postHandler {x : Item} (hc : Carried h k i ab (x :: items s) s)
    (hx : x.read? = some (j, c)) (ec : ErrorCode) (size : ℕ)
    (hec : (s.context c).handler = some h → ab → ec = .operationAborted) :
    Carries h k i ab ((s.addTask (.complete (s.context c).handler ec size)).modifyContext c
      fun ctx => { ctx with handler := none }) := by
  obtain ⟨k', hk, hrest, -⟩ := hc.takeRead hx
  have hne := hc.reads.context_ne hx
  have hposted := hrest.post (s.context c).handler ec size hec
  rw [← hk] at hposted
  have hempty := hposted.modifyContext_of_ne (f := fun ctx => { ctx with handler := none })
    (fun _ => rfl) hne
  exact hempty.perm (items_addTask s (.complete (s.context c).handler ec size)).symm

theorem maybeRetry_carries (hc : Carried h k i ab (.running ⟨n, .read j c⟩ :: items s) s)
    {ec : ErrorCode} (hstep : maybeRetry ec j c s = some s') : Carries h k i ab s' := by
  rw [maybeRetry] at hstep
  by_cases hcanceled : (s.context c).canceled = true
  · rw [if_pos hcanceled] at hstep
    obtain rfl := Option.some.inj hstep
    exact hc.postHandler rfl .operationAborted 0 fun _ _ => rfl
  have hcanceled' : (s.context c).canceled = false := by simpa using hcanceled
  rw [if_neg hcanceled] at hstep
  split_ifs at hstep
  · -- the read is over
    obtain rfl := Option.some.inj hstep
    obtain ⟨k', hk, hown, hrest, -⟩ := hc.finishRead rfl hcanceled'
    have hne := hc.reads.context_ne rfl
    have hposted := hrest.post (s.context c).handler .success (s.context c).bytesRead
      fun heq ha => absurd ha (hown heq).2
    rw [← hk] at hposted
    have hempty := hposted.modifyContext_of_ne (f := fun ctx => { ctx with handler := none })
      (fun _ => rfl) hne
    exact hempty.perm (items_addTask s (.complete (s.context c).handler .success
      (s.context c).bytesRead)).symm
  · -- another poll
    obtain rfl := Option.some.inj hstep
    have hpoll : Carried h k i ab (.polling j c :: items s) s :=
      hc.replace (by simp [Item.nonce?]) rfl List.not_mem_nil fun _ _ _ => by simp [Item.nonce?]
    have hview : SameReads h s (cancelTimer j s) :=
      .of_eq le_rfl rfl rfl (outcomes_cancelTimer h j s)
    have hpoll' := hpoll.congr hview
    rw [← items_cancelTimer j s] at hpoll'
    exact Carried.addTask (.wait j c) hpoll' rfl

theorem handlePollTimer_carries (hc : Carried h k i ab (.polling j c :: items s) s)
    {ec : ErrorCode} (hstep : handlePollTimer ec j c s = some s') : Carries h k i ab s' := by
  rw [handlePollTimer] at hstep
  by_cases hcanceled : (s.context c).canceled = true
  · rw [if_pos hcanceled] at hstep
    obtain rfl := Option.some.inj hstep
    exact hc.postHandler rfl .operationAborted 0 fun _ _ => rfl
  have hcanceled' : (s.context c).canceled = false := by simpa using hcanceled
  rw [if_neg hcanceled] at hstep
  split_ifs at hstep
  -- the handler is moved from the old context into the next one
  obtain ⟨k', hk, hown, hrest, hlt⟩ := hc.finishRead rfl hcanceled'
  have hne := hc.reads.context_ne rfl
  have hmoved := hrest.modifyContext_of_ne (c := c)
    (f := fun ctx => { ctx with handler := none, buffers := 0 }) (fun _ => rfl) hne
  obtain ⟨s₁, hs₁⟩ : ∃ s₁ : State, s₁ = (s.modifyContext c fun ctx =>
    { ctx with handler := none, buffers := 0 }).modifyTunnel j
      fun t => { t with readContext := none } := ⟨_, rfl⟩
  have h₁ : Carries h k' i ab s₁ := by
    rw [hs₁]
    exact hmoved
  have hlt₁ : j < s₁.tunnels.length := by
    rw [hs₁]
    exact hlt.trans_eq (List.length_modify ..).symm
  dsimp only at hstep
  rw [← hs₁] at hstep
  rw [hk]
  exact h₁.asyncReadSome hlt₁ hown hstep

/-- The handler of a command that was invoked. -/
theorem handle_carries {command : Command}
    (hc : Carried h k i ab (.running ⟨n, command⟩ :: items s) s) {ec : ErrorCode} {size : ℕ}
    {b : Bool} (hstep : handle command ec size s = some (b, s')) : Carries h k i ab s' := by
  have helsewhere := hc.tracks.elsewhere _ List.mem_cons_self
  cases command with
  | transmit request handler =>
    rw [handle] at hstep
    obtain ⟨-, rfl⟩ := Prod.mk.injEq .. ▸ Option.some.inj hstep
    have hne : handler ≠ h := fun heq => helsewhere (List.mem_singleton.mpr heq.symm)
    have hcalled := (hc.dropOther rfl).call handler ec 0 fun heq => absurd heq hne
    rwa [inHand_of_ne fun heq => hne (Option.some.inj heq)] at hcalled
  | register r =>
    have hne : r.handler ≠ h := fun heq => helsewhere (List.mem_singleton.mpr heq.symm)
    rw [handle] at hstep
    split_ifs at hstep
    · obtain ⟨-, rfl⟩ := Prod.mk.injEq .. ▸ Option.some.inj hstep
      have hposted := (hc.dropOther rfl).carries_post (some r.handler) ec 0
        fun heq => absurd (Option.some.inj heq) hne
      rwa [inHand_of_ne fun heq => hne (Option.some.inj heq)] at hposted
    · obtain ⟨-, rfl⟩ := Prod.mk.injEq .. ▸ Option.some.inj hstep
      exact Carries.sequenceRegister (hc.dropOther rfl) r.remainder r.reply hne
  | read j c =>
    rw [handle] at hstep
    obtain ⟨s₁, hs₁, heq⟩ := Option.map_eq_some_iff.mp hstep
    obtain ⟨-, rfl⟩ := Prod.mk.injEq .. ▸ heq
    exact maybeRetry_carries hc hs₁
  | write j data =>
    have hforget : Carried h k i ab (items s)
        (s.modifyTunnel j fun t => { t with writeHandler := none, writeNonce := none }) :=
      (hc.dropOther rfl).modifyTunnel (Or.inl rfl) (Or.inr rfl) (Or.inl rfl) (by simp)
    rw [handle] at hstep
    cases hhandler : (s.tunnel j).writeHandler with
    | none =>
      rw [hhandler] at hstep
      obtain ⟨-, rfl⟩ := Prod.mk.injEq .. ▸ Option.some.inj hstep
      exact hforget
    | some handler =>
      rw [hhandler] at hstep
      obtain ⟨-, rfl⟩ := Prod.mk.injEq .. ▸ Option.some.inj hstep
      have hne : handler ≠ h := fun heq => hc.tracks.write j (heq ▸ hhandler)
      have hcalled := hforget.call handler ec size fun heq => absurd heq hne
      rwa [inHand_of_ne fun heq => hne (Option.some.inj heq)] at hcalled

theorem release_carries {command : Command}
    (hc : Carried h k i ab (.running ⟨n, command⟩ :: items s) s) {ec : ErrorCode} {size : ℕ}
    (hstep : release command ec size s = some s') : Carries h k i ab s' := by
  rw [release] at hstep
  rcases hr : handle command ec size s with _ | ⟨_ | _, s₁⟩
  · simp [hr] at hstep
  · rw [hr] at hstep
    obtain rfl := Option.some.inj hstep
    exact handle_carries hc hr
  · rw [hr] at hstep
    dsimp only at hstep
    split_ifs at hstep
    obtain rfl := Option.some.inj hstep
    exact Carried.addTask (.itemDone) (handle_carries hc hr) rfl

/-- A command that is not a read is invoked. -/
theorem Carried.running {L : List Item} {command : Command}
    (hc : Carried h k i ab (.pending ⟨n, command⟩ :: L) s)
    (hread : (Item.pending ⟨n, command⟩).read? = none) :
    Carried h k i ab (.running ⟨n, command⟩ :: L) s := by
  have hread' : (Item.running ⟨n, command⟩).read? = none := by
    cases command <;> first | rfl | exact hread
  have helsewhere : h ∉ (Item.running ⟨n, command⟩).handlers :=
    hc.tracks.elsewhere (.pending ⟨n, command⟩) List.mem_cons_self
  refine hc.replace (fun _ hn => hn) (hread'.trans hread.symm) helsewhere fun j m hj hm => ?_
  -- a tunnel has the nonces of reads only
  obtain ⟨c, hx, -⟩ := hc.reads.readNonce j m hj _ List.mem_cons_self hm
  rw [hx] at hread
  simp [Item.read?] at hread

/-- A read is invoked. -/
theorem invokeRead_carries (hc : Carried h k i ab (.pending ⟨n, .read j c⟩ :: items s) s)
    (hstep : invokeCommand env ⟨n, .read j c⟩ s = some s') : Carries h k i ab s' := by
  have hforget := hc.modifyTunnel (j := j) (f := fun t => { t with readNonce := none })
    (Or.inr rfl) (Or.inl rfl) (Or.inl rfl) id
  rw [invokeCommand] at hstep
  dsimp only at hstep
  have hcontext : (s.modifyTunnel j fun t => { t with readNonce := none }).context c =
      s.context c := rfl
  rw [hcontext] at hstep
  split_ifs at hstep with hcanceled
  · -- the handler is called, and nothing goes on
    obtain ⟨k', hk, hrest, -⟩ := hforget.takeRead (j := j) (c := c) rfl
    change k = k' + inHand h (s.context c).handler at hk
    cases hhandler : (s.context c).handler with
    | none =>
      rw [hhandler] at hstep hk
      obtain rfl := Option.some.inj hstep
      rw [hk]
      exact hrest
    | some handler =>
      rw [hhandler] at hstep hk
      obtain rfl := Option.some.inj hstep
      rw [hk]
      exact hrest.call handler .operationAborted 0 fun _ _ => rfl
  · obtain rfl := Option.some.inj hstep
    have hrunning : Carried h k i ab (.running ⟨n, .read j c⟩ :: items s)
        (s.modifyTunnel j fun t => { t with readNonce := none }) := by
      refine hforget.replace (fun _ hn => hn) rfl List.not_mem_nil fun j' m hj' hm => ?_
      -- only the tunnel itself had the nonce
      obtain rfl : n = m := Option.some.inj hm
      obtain ⟨c', hx, -⟩ := hforget.reads.readNonce j' n hj' _ List.mem_cons_self rfl
      simp only [Item.pending.injEq, Concrete.mk.injEq, Command.read.injEq, true_and] at hx
      obtain ⟨rfl, -⟩ := hx
      rw [tunnel_modifyTunnel] at hj'
      split_ifs at hj' with hlt
      have hnone : (s.tunnel j).readNonce = none := by
        rw [State.tunnel, List.getD_eq_getElem?_getD, List.getElem?_eq_none]
        · rfl
        · exact not_lt.mp fun hlt' => hlt ⟨rfl, hlt'⟩
      rw [hnone] at hj'
      simp at hj'
    refine Carried.addTask (.requestWrite n j c) (hrunning.congr ?_) rfl
    exact .of_eq le_rfl rfl rfl rfl

theorem invokeCommand_carries {w : Concrete Command}
    (hc : Carried h k i ab (.pending w :: items s) s)
    (hstep : invokeCommand env w s = some s') : Carries h k i ab s' := by
  obtain ⟨n, request | r | ⟨j, c⟩ | ⟨j, data⟩⟩ := w
  · rename_i handler
    rw [invokeCommand] at hstep
    obtain rfl := Option.some.inj hstep
    exact Carried.addTask (.writeMultiple n request handler)
      ((hc.running rfl).congr (.of_eq le_rfl rfl rfl rfl)) rfl
  · rw [invokeCommand] at hstep
    obtain rfl := Option.some.inj hstep
    exact Carried.addTask (.registerWrite n r)
      ((hc.running rfl).congr (.of_eq le_rfl rfl rfl rfl)) rfl
  · exact invokeRead_carries hc hstep
  · rw [invokeCommand] at hstep
    dsimp only at hstep
    rcases hsize : writeSize env data with _ | size
    · simp [hsize] at hstep
    rw [hsize] at hstep
    obtain rfl := Option.some.inj hstep
    exact Carried.addTask (.tunnelWrite n j data size)
      ((hc.running rfl).congr (.of_eq le_rfl rfl rfl rfl)) rfl

theorem handleSingleWrite_carries {r : RegisterCommand}
    (hc : Carried h k i ab (.running ⟨n, .register r⟩ :: items s) s) {ec : ErrorCode}
    (hstep : handleSingleWrite n r ec s = some s') : Carries h k i ab s' := by
  rw [handleSingleWrite] at hstep
  split_ifs at hstep
  · obtain rfl := Option.some.inj hstep
    exact Carried.addTask (.registerDone n r ec) hc rfl
  · obtain rfl := Option.some.inj hstep
    exact Carried.addTask (.registerRead n r) hc rfl

theorem handleRead_carries {r : RegisterCommand}
    (hc : Carried h k i ab (.running ⟨n, .register r⟩ :: items s) s) {ec : ErrorCode} {rx : Frame}
    (hstep : handleRead n r ec rx s = some s') : Carries h k i ab s' := by
  have hdone : ∀ replies, Carries h k i ab
      ({ s with replies := replies }.addTask (.registerDone n r ec)) := fun replies =>
    Carried.addTask (s := { s with replies := replies }) (.registerDone n r ec)
      (hc.congr (.of_eq le_rfl rfl rfl rfl)) rfl
  rw [handleRead] at hstep
  split_ifs at hstep
  · obtain rfl := Option.some.inj hstep
    exact hdone s.replies
  · obtain rfl := Option.some.inj hstep
    exact Carried.addTask (.registerRead n r) hc rfl
  · obtain rfl := Option.some.inj hstep
    exact hdone _
  · obtain rfl := Option.some.inj hstep
    exact hdone _

theorem tunnelHandleRead_carries (hc : Carried h k i ab (.running ⟨n, .read j c⟩ :: items s) s)
    {ec : ErrorCode} {rx : Frame} {queued : Bool}
    (hstep : tunnelHandleRead env n j c ec rx queued s = some s') : Carries h k i ab s' := by
  rw [tunnelHandleRead] at hstep
  split_ifs at hstep
  · exact release_carries hc hstep
  · exact release_carries hc hstep
  rcases hdata : tunnelData env (s.tunnel j) rx with _ | data
  · rw [hdata] at hstep
    exact release_carries hc hstep
  rw [hdata] at hstep
  dsimp only at hstep
  -- the data is copied
  obtain ⟨s₁, hs₁⟩ : ∃ s₁, s₁ = s.modifyContext c fun ctx => { ctx with
    received := ctx.received ++ data.take (s.context c).buffers
    bytesRead := ctx.bytesRead + data.length } := ⟨_, rfl⟩
  have h₁ : Carried h k i ab (.running ⟨n, .read j c⟩ :: items s₁) s₁ := by
    rw [hs₁]
    exact hc.modifyContext (fun _ => rfl) fun _ hcanceled => hcanceled
  rw [← hs₁] at hstep
  split_ifs at hstep
  · obtain rfl := Option.some.inj hstep
    exact Carried.addTask (s := s₁.modifyContext c fun ctx =>
        { ctx with buffers := (s.context c).buffers - data.length })
      (.tunnelRead n j c) (h₁.modifyContext (fun _ => rfl) fun _ hcanceled => hcanceled) rfl
  · exact release_carries h₁ hstep

end

end Mjlib.Multiplex.StreamAsioClient

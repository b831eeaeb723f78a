import Mjlib.Multiplex.Equiv.StreamAsioClient.Quiet
import Mjlib.Multiplex.StreamAsioBuffers

/-!
# The bytes of the reads of a tunnel

The data of the replies that the reads of a tunnel receive is what its completed reads have delivered,
and then what its current read holds (`Logged`).  The current read's context has in its buffers what
is left of the application's (`Streams`).  Here is how the parts of a step keep this: a read that
starts or ends, data that is copied, buffers that are moved on.
-/

namespace Mjlib.Multiplex.StreamAsioClient

open Io (MutableBuffer UserBuffers bufferCopy bufferSize cells offsetBufferSequence length_cells)

/-! ### Statements -/

/-- The data of the replies that the reads of a tunnel received. -/
def receivedOf (i : ℕ) (s : BufferState) : Bytes :=
  (s.received.filter fun p => p.1 = i).flatMap Prod.snd

/-- The bytes delivered to the completed reads of a tunnel. -/
def deliveredOf (i : ℕ) (s : BufferState) : Bytes :=
  (s.completed.filter fun r => r.tunnel = i).flatMap CompletedRead.bytes

/-- The completed reads of a tunnel report no more than the size of their buffers, and are delivered
the data of the replies in order. -/
structure Delivers (i : ℕ) (s : BufferState) : Prop where
  size_le : ∀ r ∈ s.completed, r.tunnel = i → r.size ≤ bufferSize r.target.user.buffers
  inOrder : deliveredOf i s <+: receivedOf i s

/-! ### The invariant -/

/-- The bytes that the current read of a tunnel holds. -/
def pendingOf (i : ℕ) (s : State) : Bytes :=
  match (s.tunnel i).readContext with
  | none => []
  | some c => (s.context c).received

/-- What a context has read is at the start of the application's buffers. -/
structure Filled (s : BufferState) (c : ℕ) : Prop where
  counted : (s.client.context c).received.length = (s.client.context c).bytesRead
  copied : ((cells (s.target c).user.buffers).take (s.client.context c).bytesRead).map
    (s.target c).memory = (s.client.context c).received

/-- What is left of a context's buffers is what it has not read. -/
def Remains (s : BufferState) (c : ℕ) : Prop :=
  cells (s.target c).buffers
    = (cells (s.target c).user.buffers).drop (s.client.context c).bytesRead

/-- What was received was delivered, or is held by the current read. -/
structure Logged (i : ℕ) (s : BufferState) : Prop where
  polls : Polls s.client
  owner : ∀ j j' c, (s.client.tunnel j).readContext = some c →
    (s.client.tunnel j').readContext = some c → j = j'
  current_lt : ∀ j c, (s.client.tunnel j).readContext = some c → c < s.client.contexts.length
  length : s.targets.length = s.client.contexts.length
  room : ∀ c, bufferSize (s.target c).buffers = (s.client.context c).buffers
  size_le : ∀ r ∈ s.completed, r.tunnel = i → r.size ≤ bufferSize r.target.user.buffers
  log : receivedOf i s = deliveredOf i s ++ pendingOf i s.client
  filled : ∀ c, (s.client.tunnel i).readContext = some c → Filled s c

/-- And the current read has the rest of its buffers left. -/
structure Streams (i : ℕ) (s : BufferState) : Prop extends Logged i s where
  left : ∀ c, (s.client.tunnel i).readContext = some c → Remains s c

theorem delivers_of_logged {i : ℕ} {s : BufferState} (h : Logged i s) : Delivers i s :=
  ⟨h.size_le, h.log ▸ List.prefix_append _ _⟩

/-! ### Operations -/

section
variable {J : ℕ → Prop} {i j c : ℕ} {s s' : BufferState}

theorem targets_getD_modify (targets : List Target) (c c' : ℕ) (f : Target → Target)
    (hc : c < targets.length) (d : Target) :
    (targets.modify c f).getD c' d = if c = c' then f (targets.getD c' d) else targets.getD c' d := by
  rw [List.getD_eq_getElem?_getD, List.getElem?_modify, List.getD_eq_getElem?_getD]
  split_ifs with hcc
  · subst hcc
    rw [List.getElem?_eq_getElem hc]
    rfl
  · cases targets[c']? <;> rfl

theorem target_congr (h : s'.targets = s.targets) (c : ℕ) : s'.target c = s.target c := by
  rw [BufferState.target, h]
  rfl

theorem pendingOf_congr {u u' : State} (hcontext : (u'.tunnel i).readContext =
    (u.tunnel i).readContext) (hreceived : ∀ c, (u.tunnel i).readContext = some c →
      (u'.context c).received = (u.context c).received) : pendingOf i u' = pendingOf i u := by
  rw [pendingOf, pendingOf, hcontext]
  cases h : (u.tunnel i).readContext with
  | none => rfl
  | some c => exact hreceived c h

theorem Filled.congr (h : Filled s c) (hbytes : (s'.client.context c).bytesRead =
    (s.client.context c).bytesRead) (hreceived : (s'.client.context c).received =
    (s.client.context c).received) (huser : (s'.target c).user = (s.target c).user)
    (hmemory : (s'.target c).memory = (s.target c).memory) : Filled s' c where
  counted := by rw [hreceived, hbytes, h.counted]
  copied := by rw [huser, hbytes, hmemory, hreceived, h.copied]

/-- What a read has counted fits into the application's buffers. -/
theorem Filled.le (h : Filled s c) :
    (s.client.context c).bytesRead ≤ bufferSize (s.target c).user.buffers := by
  have hlength := congrArg List.length h.copied
  rw [List.length_map, List.length_take, length_cells, h.counted] at hlength
  omega

theorem Filled.bytes_eq (h : Filled s c) (j : ℕ) (handler : Option ℕ) :
    (CompletedRead.mk j handler (s.client.context c).bytesRead (s.target c)).bytes =
      (s.client.context c).received := by
  rw [CompletedRead.bytes, ← List.map_take]
  exact h.copied

/-- The reads are left alone. -/
theorem Logged.quiet {client : State} (h : Logged i s) (hq : Quiet J s.client client)
    (hJ : ¬ J i) : Logged i { s with client := client } := by
  have hi : (client.tunnel i).readContext = (s.client.tunnel i).readContext :=
    (hq.readContext i).resolve_right fun hnone => hJ hnone.1
  have hold : ∀ j c, (client.tunnel j).readContext = some c →
      (s.client.tunnel j).readContext = some c := by
    intro j c hj
    rcases hq.readContext j with heq | ⟨-, hnone⟩
    · rwa [heq] at hj
    · rw [hnone] at hj
      cases hj
  refine ⟨hq.keepsPolls h.polls, fun j j' c hj hj' => h.owner j j' c (hold j c hj) (hold j' c hj'),
    fun j c hj => hq.length ▸ h.current_lt j c (hold j c hj), h.length.trans hq.length.symm,
    fun c => (h.room c).trans (hq.buffers c).symm, h.size_le, ?_, fun c hc => ?_⟩
  · refine h.log.trans ?_
    rw [pendingOf_congr hi fun c _ => hq.received c]
    rfl
  · exact (h.filled c (hi ▸ hc)).congr (hq.bytesRead c) (hq.received c) rfl rfl

theorem Streams.quiet {client : State} (h : Streams i s) (hq : Quiet J s.client client)
    (hJ : ¬ J i) : Streams i { s with client := client } := by
  refine ⟨h.toLogged.quiet hq hJ, fun c hc => ?_⟩
  have hi : (client.tunnel i).readContext = (s.client.tunnel i).readContext :=
    (hq.readContext i).resolve_right fun hnone => hJ hnone.1
  exact (h.left c (hi ▸ hc)).trans (congrArg (List.drop · _) (hq.bytesRead c)).symm

/-- **A read is completed**, with what its context has. -/
theorem Logged.complete (h : Logged i s) (hq : Quiet (· = j) s.client s'.client)
    (hcurrent : (s.client.tunnel j).readContext = some c)
    (hnone : (s'.client.tunnel j).readContext = none) {handler : Option ℕ}
    (ht : s'.targets = s.targets) (hr : s'.received = s.received)
    (hc : s'.completed =
      s.completed ++ [⟨j, handler, (s.client.context c).bytesRead, s.target c⟩]) :
    Logged i s' := by
  have hold : ∀ j' c, (s'.client.tunnel j').readContext = some c →
      j' ≠ j ∧ (s.client.tunnel j').readContext = some c := by
    intro j' c hj'
    refine ⟨?_, ?_⟩
    · rintro rfl
      rw [hnone] at hj'
      cases hj'
    · rcases hq.readContext j' with heq | ⟨-, hnone'⟩
      · rwa [heq] at hj'
      · rw [hnone'] at hj'
        cases hj'
  refine ⟨hq.keepsPolls h.polls, fun j₁ j₂ c h₁ h₂ => h.owner j₁ j₂ c (hold j₁ c h₁).2 (hold j₂ c h₂).2,
    fun j' c hj' => hq.length ▸ h.current_lt j' c (hold j' c hj').2, ?_, fun c => ?_, ?_, ?_,
    fun c hc => ?_⟩
  · rw [ht, hq.length, h.length]
  · rw [target_congr ht, hq.buffers, h.room]
  · intro r hr' hi
    rw [hc] at hr'
    rcases List.mem_append.mp hr' with hr' | hr'
    · exact h.size_le r hr' hi
    · obtain rfl := List.mem_singleton.mp hr'
      obtain rfl : j = i := hi
      exact (h.filled c hcurrent).le
  · have hlog := h.log
    rw [receivedOf, deliveredOf, hr, hc, List.filter_append, List.flatMap_append]
    by_cases hij : j = i
    · subst hij
      rw [pendingOf, hcurrent] at hlog
      have hmine : [(⟨j, handler, (s.client.context c).bytesRead, s.target c⟩ :
          CompletedRead)].filter (fun r => r.tunnel = j)
            = [⟨j, handler, (s.client.context c).bytesRead, s.target c⟩] :=
        List.filter_eq_self.mpr fun r hr => by simp [List.mem_singleton.mp hr]
      rw [pendingOf, hnone, hmine, List.flatMap_singleton, (h.filled c hcurrent).bytes_eq,
        List.append_nil]
      exact hlog
    · have hi : (s'.client.tunnel i).readContext = (s.client.tunnel i).readContext :=
        (hq.readContext i).resolve_right fun hnone => hij hnone.1.symm
      have hother : [(⟨j, handler, (s.client.context c).bytesRead, s.target c⟩ :
          CompletedRead)].filter (fun r => r.tunnel = i) = [] := by
        simp [hij]
      rw [pendingOf_congr hi fun c _ => hq.received c, hother, List.flatMap_nil, List.append_nil]
      exact hlog
  · obtain ⟨-, hold⟩ := hold i c hc
    have htarget := target_congr ht c
    exact (h.filled c hold).congr (hq.bytesRead c) (hq.received c) (by rw [htarget])
      (by rw [htarget])

theorem context_append {u u' : State} {ctx : ReadContext}
    (h : u'.contexts = u.contexts ++ [ctx]) (c : ℕ) :
    u'.context c = if c = u.contexts.length then ctx else u.context c := by
  rw [State.context, State.context, h]
  split_ifs with hc
  · subst hc
    simp [List.getD_eq_getElem?_getD]
  · rw [List.getD_eq_getElem?_getD, List.getD_eq_getElem?_getD]
    rcases Nat.lt_or_gt_of_ne hc with hlt | hgt
    · rw [List.getElem?_append_left hlt]
    · rw [List.getElem?_eq_none (by rw [List.length_append, List.length_singleton]; omega),
        List.getElem?_eq_none (by omega)]

theorem target_append {t : Target} (h : s'.targets = s.targets ++ [t]) (c : ℕ) :
    s'.target c = if c = s.targets.length then t else s.target c := by
  rw [BufferState.target, BufferState.target, h]
  split_ifs with hc
  · subst hc
    simp [List.getD_eq_getElem?_getD]
  · rw [List.getD_eq_getElem?_getD, List.getD_eq_getElem?_getD]
    rcases Nat.lt_or_gt_of_ne hc with hlt | hgt
    · rw [List.getElem?_append_left hlt]
    · rw [List.getElem?_eq_none (by rw [List.length_append, List.length_singleton]; omega),
        List.getElem?_eq_none (by omega)]

/-- **A read is started**, with a new context. -/
theorem Streams.start (h : Streams i s) {t : Target} {handler : Option ℕ}
    (hfree : (s.client.tunnel j).readContext = none)
    (hstart : Starts j (bufferSize t.buffers) handler s.client s'.client)
    (hcells : j = i → cells t.buffers = cells t.user.buffers)
    (ht : s'.targets = s.targets ++ [t]) (hr : s'.received = s.received)
    (hc : s'.completed = s.completed) : Streams i s' := by
  have hlength : s.targets.length = s.client.contexts.length := h.length
  have hcontext := context_append hstart.contexts
  have htarget := target_append ht
  rw [hlength] at htarget
  -- A current context is the new one, of `j`, or it was there.
  have hcurrent : ∀ j' c, (s'.client.tunnel j').readContext = some c →
      j' = j ∧ c = s.client.contexts.length ∨
        c < s.client.contexts.length ∧ (s.client.tunnel j').readContext = some c := by
    intro j' c hj'
    rw [hstart.readContext] at hj'
    split_ifs at hj' with hjj
    · exact Or.inl ⟨hjj.symm, (Option.some.inj hj').symm⟩
    · exact Or.inr ⟨h.current_lt j' c hj', hj'⟩
  have hold : ∀ c < s.client.contexts.length,
      s'.client.context c = s.client.context c ∧ s'.target c = s.target c := by
    intro c hlt
    rw [hcontext, htarget, if_neg hlt.ne, if_neg hlt.ne]
    exact ⟨rfl, rfl⟩
  have hnew : s'.client.context s.client.contexts.length
      = ⟨handler, bufferSize t.buffers, false, 0, []⟩ ∧
        s'.target s.client.contexts.length = t := by
    rw [hcontext, htarget, if_pos rfl, if_pos rfl]
    exact ⟨rfl, rfl⟩
  refine ⟨⟨?_, ?_, ?_, ?_, ?_, ?_, ?_, ?_⟩, ?_⟩
  · intro task htask c hc
    rcases hstart.tasks task htask with hmem | hpolled
    · have hzero := h.polls task hmem c hc
      rw [hcontext]
      split_ifs
      · rfl
      · exact hzero
    · rw [hpolled] at hc
      exact nomatch hc
  · intro j₁ j₂ c h₁ h₂
    rcases hcurrent j₁ c h₁ with ⟨rfl, rfl⟩ | ⟨hlt₁, h₁⟩ <;>
      rcases hcurrent j₂ _ h₂ with ⟨rfl, hc₂⟩ | ⟨hlt₂, h₂⟩
    · rfl
    · exact absurd hlt₂ (lt_irrefl _)
    · exact absurd (hc₂ ▸ hlt₁) (lt_irrefl _)
    · exact h.owner j₁ j₂ c h₁ h₂
  · intro j' c hj'
    rw [hstart.contexts, List.length_append, List.length_singleton]
    rcases hcurrent j' c hj' with ⟨-, rfl⟩ | ⟨hlt, -⟩ <;> omega
  · rw [ht, hstart.contexts, List.length_append, List.length_append, hlength]
    rfl
  · intro c
    rw [hcontext, htarget]
    split_ifs
    · rfl
    · exact h.room c
  · rw [hc]
    exact h.size_le
  · have hpending : pendingOf i s'.client = pendingOf i s.client := by
      by_cases hij : j = i
      · subst hij
        rw [pendingOf, pendingOf, hfree, hstart.readContext, if_pos rfl]
        dsimp only
        rw [hnew.1]
      · refine pendingOf_congr ?_ fun c hc => ?_
        · rw [hstart.readContext, if_neg hij]
        · rw [(hold c (h.current_lt i c hc)).1]
    rw [receivedOf, deliveredOf, hr, hc, hpending]
    exact h.log
  · intro c hc
    rcases hcurrent i c hc with ⟨-, rfl⟩ | ⟨hlt, hci⟩
    · constructor
      · rw [hnew.1]
        rfl
      · rw [hnew.1]
        rfl
    · obtain ⟨hctx, htar⟩ := hold c hlt
      exact (h.filled c hci).congr (by rw [hctx]) (by rw [hctx]) (by rw [htar]) (by rw [htar])
  · intro c hc
    rcases hcurrent i c hc with ⟨hij, rfl⟩ | ⟨hlt, hci⟩
    · rw [Remains, hnew.1, hnew.2]
      exact hcells hij.symm
    · obtain ⟨hctx, htar⟩ := hold c hlt
      rw [Remains, hctx, htar]
      exact h.left c hci

end

/-! ### Changes of one context -/

section
variable {i j c c' : ℕ} {s s' : BufferState} {f : ReadContext → ReadContext} {g : Target → Target}

/-- One context and its buffers are changed. -/
structure Touches (c : ℕ) (f : ReadContext → ReadContext) (g : Target → Target)
    (s s' : BufferState) : Prop where
  contexts : s'.client.contexts = s.client.contexts.modify c f
  targets : s'.targets = s.targets.modify c g
  tasks : s'.client.tasks = s.client.tasks
  completed : s'.completed = s.completed

namespace Touches

theorem context_self (h : Touches c f g s s') (hc : c < s.client.contexts.length) :
    s'.client.context c = f (s.client.context c) := by
  refine (context_eq_of_contexts_eq (s := s.client.modifyContext c f) h.contexts c).trans ?_
  rw [context_modifyContext, if_pos ⟨rfl, hc⟩]

theorem context_of_ne (h : Touches c f g s s') (hne : c' ≠ c) :
    s'.client.context c' = s.client.context c' := by
  refine (context_eq_of_contexts_eq (s := s.client.modifyContext c f) h.contexts c').trans ?_
  exact context_modifyContext_of_ne s.client hne.symm f

theorem target_self (h : Touches c f g s s') (hc : c < s.targets.length) :
    s'.target c = g (s.target c) := by
  rw [BufferState.target, h.targets]
  exact (targets_getD_modify s.targets c c g hc _).trans (if_pos rfl)

theorem target_of_ne (h : Touches c f g s s') (hc : c < s.targets.length) (hne : c' ≠ c) :
    s'.target c' = s.target c' := by
  rw [BufferState.target, h.targets]
  exact (targets_getD_modify s.targets c c' g hc _).trans (if_neg hne.symm)

theorem length (h : Touches c f g s s') : s'.client.contexts.length = s.client.contexts.length :=
  (congrArg List.length h.contexts).trans (List.length_modify ..)

end Touches

/-- What has to be seen to when one context is changed. -/
theorem Logged.touch (h : Logged i s) (ht : Touches c f g s s')
    (hlt : c < s.client.contexts.length)
    (hcurrent : ∀ j c', (s'.client.tunnel j).readContext = some c' →
      (s.client.tunnel j).readContext = some c')
    (hpolls : (∃ task ∈ s.client.tasks, task.polled? = some c) →
      (f (s.client.context c)).bytesRead = 0)
    (hroom : bufferSize (g (s.target c)).buffers = (f (s.client.context c)).buffers)
    (hlog : receivedOf i s' = deliveredOf i s ++ pendingOf i s'.client)
    (hfilled : (s'.client.tunnel i).readContext = some c → Filled s' c) : Logged i s' := by
  have hlt' : c < s.targets.length := h.length.symm ▸ hlt
  refine ⟨?_, fun j j' c' h₁ h₂ => h.owner j j' c' (hcurrent j c' h₁) (hcurrent j' c' h₂),
    fun j c' hj => ht.length ▸ h.current_lt j c' (hcurrent j c' hj), ?_, fun c' => ?_,
    ht.completed ▸ h.size_le, ?_, fun c' hc' => ?_⟩
  · intro task htask c' hc'
    rw [ht.tasks] at htask
    by_cases hne : c' = c
    · subst hne
      rw [ht.context_self hlt]
      exact hpolls ⟨task, htask, hc'⟩
    · rw [ht.context_of_ne hne]
      exact h.polls task htask c' hc'
  · rw [ht.targets, ht.length, List.length_modify, h.length]
  · by_cases hne : c' = c
    · rw [hne, ht.target_self hlt', ht.context_self hlt]
      exact hroom
    · rw [ht.target_of_ne hlt' hne, ht.context_of_ne hne]
      exact h.room c'
  · rw [hlog, deliveredOf, deliveredOf, ht.completed]
  · by_cases hne : c' = c
    · subst hne
      exact hfilled hc'
    · have hctx := ht.context_of_ne hne
      have htar := ht.target_of_ne hlt' hne
      exact (h.filled c' (hcurrent i c' hc')).congr (by rw [hctx]) (by rw [hctx]) (by rw [htar])
        (by rw [htar])

theorem Remains.touch (h : Remains s c') (ht : Touches c f g s s') (hlt : c < s.targets.length)
    (hne : c' ≠ c) : Remains s' c' := by
  rw [Remains, ht.context_of_ne hne, ht.target_of_ne hlt hne]
  exact h

/-- **A poll is over**: the buffers leave the context, which has read nothing, and the tunnel is
free. -/
theorem Streams.clear (h : Streams i s) (hcurrent : (s.client.tunnel j).readContext = some c)
    (hzero : (s.client.context c).bytesRead = 0) (hclient : s'.client = cleared j c s.client)
    (htargets : s'.targets = s.targets.modify c fun t => { t with buffers := [] })
    (hreceived : s'.received = s.received) (hcompleted : s'.completed = s.completed) :
    Streams i s' ∧ (s'.client.tunnel j).readContext = none := by
  have hlt : c < s.client.contexts.length := h.current_lt j c hcurrent
  have ht : Touches c (fun ctx => { ctx with handler := none, buffers := 0 })
      (fun t => { t with buffers := [] }) s s' :=
    ⟨by rw [hclient]; rfl, htargets, by rw [hclient]; rfl, hcompleted⟩
  have htunnel : ∀ j', (s'.client.tunnel j').readContext
      = if j = j' then none else (s.client.tunnel j').readContext := by
    intro j'
    rw [hclient, cleared, tunnel_modifyTunnel]
    by_cases hjj : j = j'
    · subst hjj
      rw [if_pos ⟨rfl, lt_of_readContext hcurrent⟩, if_pos rfl]
    · rw [if_neg fun hj => hjj hj.1, if_neg hjj]
      rfl
  have hold : ∀ j' c', (s'.client.tunnel j').readContext = some c' →
      c' ≠ c ∧ (s.client.tunnel j').readContext = some c' := by
    intro j' c' hj'
    rw [htunnel] at hj'
    split_ifs at hj' with hjj
    refine ⟨?_, hj'⟩
    rintro rfl
    exact hjj (h.owner j j' c' hcurrent hj')
  have hpending : pendingOf i s'.client = pendingOf i s.client := by
    by_cases hij : j = i
    · subst hij
      have hlength := (h.filled c hcurrent).counted
      rw [hzero] at hlength
      rw [pendingOf, pendingOf, htunnel, if_pos rfl, hcurrent]
      exact (List.length_eq_zero_iff.mp hlength).symm
    · refine pendingOf_congr ?_ fun c' hc' => ?_
      · rw [htunnel, if_neg hij]
      · rw [ht.context_of_ne]
        rintro rfl
        exact hij (h.owner j i c' hcurrent hc')
  refine ⟨⟨h.touch ht hlt (fun j' c' hj' => (hold j' c' hj').2) (fun _ => hzero) rfl ?_
    fun hc => absurd rfl (hold i c hc).1, fun c' hc' => ?_⟩, by rw [htunnel, if_pos rfl]⟩
  · rw [hpending, receivedOf, hreceived]
    exact h.log
  · obtain ⟨hne, hc'⟩ := hold i c' hc'
    exact (h.left c' hc').touch ht (h.length.symm ▸ hlt) hne

/-- The data of a reply comes to the context. -/
def storeContext (room : ℕ) (data : Bytes) (ctx : ReadContext) : ReadContext :=
  { ctx with
    received := ctx.received ++ data.take room
    bytesRead := ctx.bytesRead + data.length }

/-- The data of a reply comes to the buffers. -/
def storeTarget (buffers : List MutableBuffer) (data : Bytes) (t : Target) : Target :=
  { t with memory := bufferCopy buffers data t.memory }

/-- Data that fits comes after what there is. -/
theorem Filled.copy (h : Filled s c) (hleft : Remains s c)
    (hroom : bufferSize (s.target c).buffers = (s.client.context c).buffers) {data : Bytes}
    (hfits : data.length ≤ bufferSize (s.target c).buffers)
    (hctx : s'.client.context c
      = storeContext (s.client.context c).buffers data (s.client.context c))
    (htar : s'.target c = storeTarget (s.target c).buffers data (s.target c)) :
    Filled s' c := by
  have hall : data.take (s.client.context c).buffers = data := by
    rw [← hroom]
    exact List.take_of_length_le hfits
  have hnodup := (s.target c).user.nodup
  have hnodup' : (cells (s.target c).buffers).Nodup := by
    rw [hleft]
    exact hnodup.sublist (List.drop_sublist ..)
  rw [storeContext, hall] at hctx
  constructor
  · rw [hctx]
    exact (List.length_append ..).trans (by rw [h.counted])
  · rw [hctx, htar, storeTarget]
    dsimp only
    rw [List.take_add, List.map_append, ← hleft, Io.take_map_bufferCopy hnodup' hfits]
    congr 1
    refine (List.map_congr_left fun x hx => ?_).trans h.copied
    -- what was read is not in the buffers that are left
    refine Io.bufferCopy_of_notMem (fun hx' => ?_) data (s.target c).memory
    rw [hleft] at hx'
    exact List.disjoint_take_drop hnodup le_rfl hx hx'

/-- **The data of a reply is copied**, to the read's buffers. -/
theorem Streams.copy (h : Streams i s) {data : Bytes}
    (ht : Touches c (storeContext (s.client.context c).buffers data)
      (storeTarget (s.target c).buffers data) s s')
    (hcurrent : (s.client.tunnel j).readContext = some c)
    (hfits : j = i → data.length ≤ bufferSize (s.target c).buffers)
    (hpolled : ∀ task ∈ s.client.tasks, task.polled? ≠ some c)
    (htunnel : ∀ j', (s'.client.tunnel j').readContext = (s.client.tunnel j').readContext)
    (hreceived : s'.received = s.received ++ [(j, data)]) : Logged i s' := by
  have hlt : c < s.client.contexts.length := h.current_lt j c hcurrent
  have hctx := ht.context_self hlt
  refine h.touch ht hlt (fun j' c' hj' => htunnel j' ▸ hj')
    (fun ⟨task, htask, hc⟩ => absurd hc (hpolled task htask)) (h.room c) ?_ fun hc => ?_
  · have hlog := h.log
    rw [receivedOf] at hlog
    rw [receivedOf, hreceived, List.filter_append, List.flatMap_append, hlog, List.append_assoc]
    by_cases hij : j = i
    · subst hij
      have hall : data.take (s.client.context c).buffers = data := by
        rw [← h.room c]
        exact List.take_of_length_le (hfits rfl)
      simp only [pendingOf, htunnel, hcurrent, hctx, storeContext, hall, decide_true,
        List.filter_cons_of_pos, List.filter_nil, List.flatMap_cons, List.flatMap_nil,
        List.append_nil]
    · have hpending : pendingOf i s'.client = pendingOf i s.client := by
        refine pendingOf_congr (htunnel i) fun c' hc' => ?_
        rw [ht.context_of_ne]
        rintro rfl
        exact hij (h.owner j i c' hcurrent hc')
      have hother : [(j, data)].filter (fun p => p.1 = i) = [] := by simp [hij]
      rw [hpending, hother, List.flatMap_nil, List.append_nil]
  · rw [htunnel] at hc
    obtain rfl : j = i := h.owner j i c hcurrent hc
    exact (h.filled c hc).copy (h.left c hc) (h.room c) (hfits rfl) hctx
      (ht.target_self (h.length.symm ▸ hlt))

/-- The context goes on with the rest of its buffers. -/
theorem Logged.flush (h : Logged i s) {rest : List MutableBuffer}
    (ht : Touches c (fun ctx => { ctx with buffers := bufferSize rest })
      (fun t => { t with buffers := rest }) s s')
    (hlt : c < s.client.contexts.length)
    (htunnel : ∀ j', (s'.client.tunnel j').readContext = (s.client.tunnel j').readContext)
    (hreceived : s'.received = s.received)
    (hleft : ∀ c' ≠ c, (s.client.tunnel i).readContext = some c' → Remains s c')
    (hrest : (s.client.tunnel i).readContext = some c →
      cells rest = (cells (s.target c).user.buffers).drop (s.client.context c).bytesRead) :
    Streams i s' := by
  have hlt' : c < s.targets.length := h.length.symm ▸ hlt
  have hctx := ht.context_self hlt
  have htar := ht.target_self hlt'
  have hpending : pendingOf i s'.client = pendingOf i s.client := by
    refine pendingOf_congr (htunnel i) fun c' _ => ?_
    by_cases hne : c' = c
    · rw [hne, hctx]
    · rw [ht.context_of_ne hne]
  refine ⟨h.touch ht hlt (fun j c' hj => htunnel j ▸ hj) ?_ rfl ?_ fun hc => ?_,
    fun c' hc' => ?_⟩
  · rintro ⟨task, htask, hc⟩
    exact h.polls task htask c hc
  · rw [hpending, receivedOf, hreceived]
    exact h.log
  · exact (h.filled c (htunnel i ▸ hc)).congr (by rw [hctx]) (by rw [hctx]) (by rw [htar])
      (by rw [htar])
  · rw [htunnel] at hc'
    by_cases hne : c' = c
    · subst hne
      rw [Remains, hctx, htar]
      exact hrest hc'
    · exact (hleft c' hne hc').touch ht hlt' hne

end

end Mjlib.Multiplex.StreamAsioClient

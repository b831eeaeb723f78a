import Mjlib.Lib.Run
import Mjlib.Multiplex.Equiv.StreamAsioClient.Logged

/-!
# What the reads of a tunnel deliver

The completed reads of a tunnel deliver the data of the replies that the tunnel received, in order and
without gaps (`Delivers`), as long as every reply fits into what is left of the buffers of the read
that takes it (`Fits`).  Of a reply that does not, the bytes that fit are copied, and all of them are
counted: the read reports more than its buffers hold.
-/

namespace Mjlib.Multiplex.StreamAsioClient

open Io (bufferSize cells offsetBufferSequence)

/-- The context of the read that takes a reply of the tunnel in the step, and the reply's data. -/
def taken (env : Env) (i : ℕ) (s : BufferState) : BufferAction → Option (ℕ × Bytes)
  | .client (.frame k ec rx _) =>
    match s.client.tasks[k]? with
    | some (.tunnelRead _ j c) =>
      if j = i ∧ (s.client.context c).canceled = false ∧ ec ≠ .operationAborted then
        (tunnelData env (s.client.tunnel i) rx).map fun data => (c, data)
      else none
    | _ => none
  | _ => none

/-- A reply that is taken fits into the buffers that are left to the read. -/
def Fits (env : Env) (i : ℕ) (s : BufferState) (a : BufferAction) : Prop :=
  ∀ p ∈ taken env i s a, p.2.length ≤ bufferSize (s.target p.1).buffers

instance (env : Env) (i : ℕ) (s : BufferState) (a : BufferAction) : Decidable (Fits env i s a) :=
  inferInstanceAs (Decidable (∀ p ∈ taken env i s a, _))

theorem mem_taken {env : Env} {i : ℕ} {s : BufferState} {a : BufferAction} {c : ℕ} {data : Bytes} :
    (c, data) ∈ taken env i s a ↔ ∃ k ec rx queued n, a = .client (.frame k ec rx queued) ∧
      s.client.tasks[k]? = some (.tunnelRead n i c) ∧ (s.client.context c).canceled = false ∧
        ec ≠ .operationAborted ∧ tunnelData env (s.client.tunnel i) rx = some data := by
  constructor
  · intro h
    unfold taken at h
    split at h
    · rename_i k ec rx queued
      split at h
      · rename_i n j c' htask
        split_ifs at h with hread
        · obtain ⟨rfl, hcanceled, hec⟩ := hread
          obtain ⟨data', hdata, heq⟩ := Option.map_eq_some_iff.mp h
          obtain ⟨rfl, rfl⟩ := Prod.mk.injEq .. ▸ heq
          exact ⟨k, ec, rx, queued, n, rfl, htask, hcanceled, hec, hdata⟩
        · exact nomatch h
      · exact nomatch h
    · exact nomatch h
  · rintro ⟨k, ec, rx, queued, n, rfl, htask, hcanceled, hec, hdata⟩
    rw [taken, htask]
    dsimp only
    rw [if_pos ⟨rfl, hcanceled, hec⟩, hdata]
    rfl

/-! ### The end of a read -/

section
variable {i j c : ℕ} {s : BufferState}

/-- **The command of a read ends**: the read is completed, if it has read anything. -/
theorem Logged.release (h : Logged i s) {ec : ErrorCode} {size : ℕ} {client : State}
    (hcurrent : (s.client.context c).canceled = false →
      (s.client.tunnel j).readContext = some c)
    (hleft : ∀ c', (s.client.tunnel i).readContext = some c' →
      c' ≠ c ∨ (s.client.context c).bytesRead = 0 ∨ (s.client.context c).canceled = true →
        Remains s c')
    (hstep : StreamAsioClient.release (.read j c) ec size s.client = some client) :
    Streams i { s with
      client := client
      completed := s.completed ++ (client.tasks.drop s.client.tasks.length).filterMap
        (completion? j (s.target c)) } := by
  have hquiet : Quiet (fun _ => False) s.client client →
      ((s.client.context c).bytesRead = 0 ∨ (s.client.context c).canceled = true) →
      (client.tasks.drop s.client.tasks.length).filterMap (completion? j (s.target c)) = [] →
      Streams i { s with
        client := client
        completed := s.completed ++ (client.tasks.drop s.client.tasks.length).filterMap
          (completion? j (s.target c)) } := by
    intro hq hc hnone
    have hs : Streams i s := ⟨h, fun c' hc' => hleft c' hc' (Or.inr hc)⟩
    rw [hnone, List.append_nil]
    exact hs.quiet hq id
  rcases release_read_cases hstep with ⟨hcanceled, hq, htasks⟩ | ⟨hcanceled, -, hq, hnone, htasks⟩ |
    ⟨-, hzero, hq, htasks⟩
  · refine hquiet hq (Or.inr hcanceled) ?_
    rw [htasks, List.drop_left]
    rfl
  · have hposted : (client.tasks.drop s.client.tasks.length).filterMap (completion? j (s.target c))
        = [⟨j, (s.client.context c).handler, (s.client.context c).bytesRead, s.target c⟩] := by
      rw [htasks, List.drop_left]
      rfl
    rw [hposted]
    refine ⟨h.complete hq (hcurrent hcanceled) hnone rfl rfl rfl, fun c' hc' => ?_⟩
    have hc'' : (client.tunnel i).readContext = some c' := hc'
    obtain ⟨hij, hold⟩ : i ≠ j ∧ (s.client.tunnel i).readContext = some c' := by
      refine ⟨?_, ?_⟩
      · rintro rfl
        rw [hnone] at hc''
        cases hc''
      · rcases hq.readContext i with heq | ⟨-, hnone'⟩
        · rwa [heq] at hc''
        · rw [hnone'] at hc''
          cases hc''
    have hne : c' ≠ c := by
      rintro rfl
      exact hij (h.owner i j c' hold (hcurrent hcanceled))
    have hremains := hleft c' hold (Or.inl hne)
    rw [Remains] at hremains ⊢
    exact hremains.trans (congrArg (List.drop · _) (hq.bytesRead c')).symm
  · refine hquiet hq (Or.inl hzero) ?_
    have hlength : (cancelTimer j s.client).tasks.length = s.client.tasks.length :=
      List.length_map ..
    rw [htasks, ← hlength, List.drop_left]
    rfl

end

/-! ### Steps -/

/-- The reads in flight know their tunnels. -/
def Orderly (s : State) : Prop := ∃ h₀, ∀ h ≥ h₀, Carries h 0 0 False s

section
variable {env : Env} {j c k : ℕ} {u u' u₀ : State} {task : Task}

theorem Orderly.step {a : Action} (ho : Orderly u) (hstep : step env u a = some u') :
    Orderly u' := by
  obtain ⟨h₀, hc⟩ := ho
  refine ⟨max h₀ (a.handler?.elim 0 (· + 1)), fun h hh => ?_⟩
  refine step_carries (hc h (le_of_max_le_left hh)) (fun heq => ?_) hstep
  have hlt := le_of_max_le_right hh
  rw [heq] at hlt
  exact absurd hlt (Nat.not_succ_le_self h)

theorem Orderly.take (ho : Orderly u) (htake : take k u = some (task, u₀)) :
    Reads (task.item?.toList ++ items u₀) u₀ := by
  obtain ⟨h₀, hc⟩ := ho
  obtain ⟨k', -, hcarried, -⟩ := take_carries (hc h₀ le_rfl) htake
  exact hcarried.reads

theorem orderly_init : Orderly {} := ⟨0, fun h _ => carries_init h 0⟩

/-- No poll timer has the context of an item in hand. -/
theorem Reads.not_polled {x : Item} (hr : Reads (x :: items u) u) (hx : x.read? = some (j, c)) :
    ∀ task ∈ u.tasks, task.polled? ≠ some c := by
  intro task htask hpolled
  obtain ⟨y, hitem, hy⟩ : ∃ y, task.item? = some y ∧ y.context? = some c := by
    cases task with
    | wait j' c' => exact ⟨.polling j' c', rfl, hpolled⟩
    | pollTimer j' c' ec => exact ⟨.polling j' c', rfl, hpolled⟩
    | _ => simp [Task.polled?] at hpolled
  have hmem : y ∈ items u :=
    List.mem_append_right _ (List.mem_filterMap.mpr ⟨task, htask, hitem⟩)
  exact hr.context_ne hx y hmem hy

end

/-! ### Replies and polls -/

section
variable {env : Env} {i j c n k : ℕ} {s s' : BufferState} {u₀ client : State} {task : Task}

theorem posted_eq {u : State} (htake : take k u = some (task, u₀)) :
    posted u client = client.tasks.drop u₀.tasks.length := by
  obtain ⟨htask, rfl⟩ := take_eq_some htake
  obtain ⟨hk, -⟩ := List.getElem?_eq_some_iff.mp htask
  rw [posted, List.length_eraseIdx_of_lt hk]

/-- The data of a reply is copied to the buffers of a context. -/
def dataCopied (j c : ℕ) (data : Bytes) (s : BufferState) : BufferState :=
  { s.modifyTarget c (storeTarget (s.target c).buffers data) with
    received := s.received ++ [(j, data)] }

theorem copyReply_of_none {ec : ErrorCode} {rx : Frame} {queued : Bool}
    (hnone : (s.client.context c).canceled = true ∨ ec = .operationAborted ∨
      tunnelData env (s.client.tunnel j) rx = none) :
    copyReply env j c ec rx queued s = some s := by
  rw [copyReply]
  rcases hnone with hcanceled | hec | hdata
  · rw [if_pos hcanceled]
  · rw [if_pos hec, ite_self]
  · rw [hdata]
    dsimp only
    rw [ite_self, ite_self]

theorem copyReply_of_some {ec : ErrorCode} {rx : Frame} {queued : Bool} {data : Bytes}
    (hcanceled : (s.client.context c).canceled = false) (hec : ec ≠ .operationAborted)
    (hdata : tunnelData env (s.client.tunnel j) rx = some data) :
    copyReply env j c ec rx queued s
      = if queued = true ∧ data.length < bufferSize (s.target c).buffers then
          (offsetBufferSequence (s.target c).buffers data.length).map fun rest =>
            (dataCopied j c data s).modifyTarget c fun t => { t with buffers := rest }
        else some (dataCopied j c data s) := by
  rw [copyReply, if_neg (by simp [hcanceled]), if_neg hec, hdata]
  rfl

/-- **A reply is read**: its data goes to the buffers, and the read waits for more of it, or its
command ends. -/
theorem Streams.handleRead (h : Streams i s) (ho : Orderly s.client)
    (htake : take k s.client = some (.tunnelRead n j c, u₀)) {ec : ErrorCode} {rx : Frame}
    {queued : Bool} (hfits : j = i → ∀ data, (s.client.context c).canceled = false →
      ec ≠ .operationAborted → tunnelData env (s.client.tunnel j) rx = some data →
        data.length ≤ bufferSize (s.target c).buffers)
    (hstep : tunnelHandleRead env n j c ec rx queued u₀ = some client)
    (hcopy : copyReply env j c ec rx queued s = some s') :
    Streams i { s' with
      client := client
      completed := s'.completed
        ++ (posted s.client client).filterMap (completion? j (s'.target c)) } := by
  have hreads := ho.take htake
  have hs₀ : Streams i { s with client := u₀ } := h.quiet (Quiet.take (J := fun _ => False) htake) id
  rw [posted_eq htake]
  obtain ⟨-, rfl⟩ := take_eq_some htake
  obtain ⟨u₀, hu₀⟩ : ∃ u₀, u₀ = { s.client with tasks := s.client.tasks.eraseIdx k } := ⟨_, rfl⟩
  rw [← hu₀] at hreads hs₀ hstep ⊢
  have hknown : (u₀.context c).canceled = false → (u₀.tunnel j).readContext = some c := by
    intro hcanceled
    refine (hreads.known (.running ⟨n, .read j c⟩) List.mem_cons_self j c rfl).resolve_left ?_
    rw [hcanceled]
    exact Bool.false_ne_true
  have hcontext : u₀.context c = s.client.context c := by rw [hu₀]; rfl
  have htunnel : u₀.tunnel j = s.client.tunnel j := by rw [hu₀]; rfl
  rcases tunnelHandleRead_cases hstep with ⟨hcanceled, hrel⟩ | ⟨-, hnone, hrel⟩ |
    ⟨hcanceled, hec, data, hdata, hcases⟩
  · rw [copyReply_of_none (Or.inl (hcontext ▸ hcanceled))] at hcopy
    obtain rfl := Option.some.inj hcopy
    exact hs₀.toLogged.release hknown (fun c' hc' _ => hs₀.left c' hc') hrel
  · rw [copyReply_of_none (Or.inr (htunnel ▸ hnone))] at hcopy
    obtain rfl := Option.some.inj hcopy
    exact hs₀.toLogged.release hknown (fun c' hc' _ => hs₀.left c' hc') hrel
  -- the reply has data
  rw [copyReply_of_some (hcontext ▸ hcanceled) hec (htunnel ▸ hdata)] at hcopy
  have hcurrent := hknown hcanceled
  have hlt : c < u₀.contexts.length := hs₀.current_lt j c hcurrent
  obtain ⟨s₁, hs₁⟩ : ∃ s₁, s₁ = { dataCopied j c data s with client := copied c data u₀ } :=
    ⟨_, rfl⟩
  have ht : Touches c (storeContext (u₀.context c).buffers data)
      (storeTarget (s.target c).buffers data) { s with client := u₀ } s₁ := by
    rw [hs₁]
    exact ⟨rfl, rfl, rfl, rfl⟩
  have hclient : s₁.client = copied c data u₀ := by rw [hs₁]
  have htunnel₁ : ∀ j', (s₁.client.tunnel j').readContext = (u₀.tunnel j').readContext := by
    intro j'
    rw [hclient]
    rfl
  have hlogged : Logged i s₁ := by
    refine hs₀.copy ht hcurrent (fun hij => ?_) (hreads.not_polled rfl) htunnel₁ (by rw [hs₁]; rfl)
    exact hfits hij data (hcontext ▸ hcanceled) hec (htunnel ▸ hdata)
  have hctx : s₁.client.context c = storeContext (u₀.context c).buffers data (u₀.context c) :=
    ht.context_self hlt
  have hlt' : c < s.targets.length := hs₀.length.symm ▸ hlt
  have htar : s₁.target c = storeTarget (s.target c).buffers data (s.target c) :=
    ht.target_self hlt'
  have hleft : ∀ c' ≠ c, (s₁.client.tunnel i).readContext = some c' → Remains s₁ c' :=
    fun c' hne hc' => (hs₀.left c' (htunnel₁ i ▸ hc')).touch ht hlt' hne
  have hroom : bufferSize (s.target c).buffers = (u₀.context c).buffers := hs₀.room c
  rw [← hroom] at hcases
  rcases hcases with ⟨hflush, rfl⟩ | ⟨hflush, hrel⟩
  · -- there is more to read
    rw [if_pos hflush] at hcopy
    obtain ⟨rest, hrest, rfl⟩ := Option.map_eq_some_iff.mp hcopy
    have hcells := Io.cells_offsetBufferSequence hrest
    have hsize : bufferSize rest = bufferSize (s.target c).buffers - data.length := by
      rw [← Io.length_cells, hcells, List.length_drop, Io.length_cells]
    obtain ⟨s₂, hs₂⟩ : ∃ s₂, s₂ = { s₁.modifyTarget c fun t => { t with buffers := rest } with
      client := s₁.client.modifyContext c fun ctx => { ctx with buffers := bufferSize rest } } :=
      ⟨_, rfl⟩
    have ht₂ : Touches c (fun ctx => { ctx with buffers := bufferSize rest })
        (fun t => { t with buffers := rest }) s₁ s₂ := by
      rw [hs₂]
      exact ⟨rfl, rfl, rfl, rfl⟩
    have hstreams : Streams i s₂ := by
      refine hlogged.flush ht₂ (ht.length.symm ▸ hlt) (fun j' => by rw [hs₂]; rfl)
        (by rw [hs₂]; rfl) hleft fun hc' => ?_
      have hremains : cells (s.target c).buffers
          = (cells (s.target c).user.buffers).drop (u₀.context c).bytesRead :=
        hs₀.left c (htunnel₁ i ▸ hc')
      rw [hcells, hremains, hctx, htar]
      exact List.drop_drop
    have hend : Streams i { s₂ with client := s₂.client.addTask (.tunnelRead n j c) } :=
      hstreams.quiet ((Quiet.refl s₂.client).addTask (J := fun _ => False) rfl) id
    have hposted : ((s₂.client.addTask (.tunnelRead n j c)).tasks.drop u₀.tasks.length).filterMap
        (completion? j (s₂.target c)) = [] := by
      rw [hs₂, hs₁]
      exact congrArg (List.filterMap _) List.drop_left
    have hcompleted : s₂.completed ++ ((s₂.client.addTask (.tunnelRead n j c)).tasks.drop
        u₀.tasks.length).filterMap (completion? j (s₂.target c)) = s₂.completed := by
      rw [hposted, List.append_nil]
    rw [← hcompleted, hs₂, hs₁, hsize] at hend
    exact hend
  · rw [if_neg hflush] at hcopy
    obtain rfl := Option.some.inj hcopy
    rw [← hclient] at hrel
    have hend := hlogged.release (fun _ => (htunnel₁ j).trans hcurrent) (fun c' hc' hcase => ?_) hrel
    · rw [hs₁] at hend
      exact hend
    · rcases eq_or_ne c' c with rfl | hne
      · rcases hcase with hne | hzero | hcanceled'
        · exact absurd rfl hne
        · -- no data
          rw [hctx] at hzero
          obtain ⟨hread, hnil⟩ := Nat.add_eq_zero_iff.mp hzero
          have hremains : cells (s.target c').buffers
              = (cells (s.target c').user.buffers).drop (u₀.context c').bytesRead :=
            hs₀.left c' (htunnel₁ i ▸ hc')
          rw [Remains, hctx, htar]
          dsimp only [storeContext, storeTarget]
          rw [hnil]
          exact hremains
        · rw [hctx] at hcanceled'
          exact absurd (hcanceled.symm.trans hcanceled') Bool.false_ne_true
      · exact hleft c' hne hc'

end

/-! ### Polls and steps -/

section
variable {env : Env} {i j c k : ℕ} {s s' : BufferState} {u₀ client : State} {task : Task}

/-- **A poll timer has expired**: the read starts again, with the buffers of its context. -/
theorem Streams.poll (h : Streams i s) (ho : Orderly s.client) {ec : ErrorCode}
    (htake : take k s.client = some (.pollTimer j c ec, u₀))
    (hstep : handlePollTimer ec j c u₀ = some client) :
    Streams i { moveBuffers c s with client := client } := by
  have hreads := ho.take htake
  have hs₀ : Streams i { s with client := u₀ } := h.quiet (Quiet.take (J := fun _ => False) htake) id
  obtain ⟨htask, hu₀⟩ := take_eq_some htake
  have hcontext : u₀.context c = s.client.context c := by rw [hu₀]; rfl
  have hzero : (u₀.context c).bytesRead = 0 := by
    rw [hcontext]
    exact h.polls _ (List.mem_of_getElem? htask) c rfl
  rcases handlePollTimer_cases hstep with ⟨hcanceled, hq⟩ | ⟨hcanceled, hread⟩
  · rw [moveBuffers, if_pos (hcontext ▸ hcanceled)]
    exact hs₀.quiet (J := fun _ => False) hq id
  have hcurrent : (u₀.tunnel j).readContext = some c := by
    refine (hreads.known (.polling j c) List.mem_cons_self j c rfl).resolve_left ?_
    rw [hcanceled]
    exact Bool.false_ne_true
  rw [moveBuffers, if_neg (by rw [← hcontext, hcanceled]; exact Bool.false_ne_true)]
  obtain ⟨s₁, hs₁⟩ : ∃ s₁, s₁ = { s.modifyTarget c fun t => { t with buffers := [] } with
    client := cleared j c u₀ } := ⟨_, rfl⟩
  have hclient : s₁.client = cleared j c u₀ := by rw [hs₁]
  obtain ⟨hcleared, hfree⟩ := hs₀.clear hcurrent hzero hclient (by rw [hs₁]; rfl)
    (by rw [hs₁]; rfl) (by rw [hs₁]; rfl)
  have hroom : bufferSize (s.target c).buffers = (u₀.context c).buffers := hs₀.room c
  have hlt : j < (cleared j c u₀).tunnels.length :=
    (lt_of_readContext hcurrent).trans_eq (List.length_modify ..).symm
  obtain ⟨-, ⟨hsize, hq⟩ | ⟨hsize, hstart⟩⟩ := asyncReadSome_cases hlt hread
  · rw [BufferState.addTarget, if_pos (hroom.trans hsize)]
    rw [← hclient] at hq
    have hend := hcleared.quiet (J := fun _ => False) hq id
    rw [hs₁] at hend
    exact hend
  · rw [BufferState.addTarget, if_neg (hroom ▸ hsize)]
    rw [← hclient, ← hroom] at hstart
    refine hcleared.start (t := s.target c) hfree hstart (fun hij => ?_) ?_ ?_ ?_
    · have hremains : cells (s.target c).buffers
          = (cells (s.target c).user.buffers).drop (u₀.context c).bytesRead :=
        hs₀.left c (hij ▸ hcurrent)
      rw [hremains, hzero, List.drop_zero]
    all_goals rw [hs₁]

/-- A step is one of the client. -/
theorem bufferStep_client {a : BufferAction} (hstep : bufferStep env s a = some s') :
    ∃ b, step env s.client b = some s'.client := by
  cases a with
  | asyncReadSome j user memory handler =>
    obtain ⟨client, hclient, rfl⟩ := Option.map_eq_some_iff.mp hstep
    exact ⟨_, hclient⟩
  | client b =>
    refine ⟨b, ?_⟩
    cases b with
    | asyncReadSome => simp [bufferStep] at hstep
    | event k =>
      obtain ⟨client, hclient, rfl⟩ := Option.map_eq_some_iff.mp hstep
      rw [hclient]
      split <;> rfl
    | frame k ec rx queued =>
      obtain ⟨client, hclient, hrest⟩ := Option.bind_eq_some_iff.mp hstep
      rw [hclient]
      split at hrest
      · obtain ⟨s₁, -, rfl⟩ := Option.map_eq_some_iff.mp hrest
        rfl
      · obtain rfl := Option.some.inj hrest
        rfl
    | makeTunnel =>
      obtain rfl := Option.some.inj hstep
      rfl
    | asyncTransmit =>
      obtain rfl := Option.some.inj hstep
      rfl
    | _ =>
      obtain ⟨client, hclient, rfl⟩ := Option.map_eq_some_iff.mp hstep
      exact hclient

/-- **One step.** -/
theorem Streams.step (h : Streams i s) (ho : Orderly s.client) {a : BufferAction}
    (hcancel : a ≠ .client (.cancel i)) (hfits : Fits env i s a)
    (hstep : bufferStep env s a = some s') : Streams i s' := by
  have hquiet : ∀ client, Quiet (fun _ => False) s.client client →
      Streams i { s with client := client } := fun client hq => h.quiet hq id
  cases a with
  | asyncReadSome j user memory handler =>
    obtain ⟨client, hclient, rfl⟩ := Option.map_eq_some_iff.mp hstep
    rw [StreamAsioClient.step] at hclient
    split_ifs at hclient with hj
    obtain ⟨hfree, ⟨hsize, hq⟩ | ⟨hsize, hstart⟩⟩ := asyncReadSome_cases hj hclient
    · rw [BufferState.addTarget, if_pos hsize]
      exact hquiet client hq
    · rw [BufferState.addTarget, if_neg hsize]
      exact h.start (t := ⟨user, user.buffers, memory⟩) hfree hstart (fun _ => rfl) rfl rfl rfl
  | client b =>
    cases b with
    | makeTunnel server channel =>
      obtain rfl := Option.some.inj hstep
      exact hquiet _ (makeTunnel_quiet s.client server channel)
    | asyncTransmit request reply handler =>
      obtain rfl := Option.some.inj hstep
      exact hquiet _ (asyncTransmit_quiet s.client request reply handler)
    | asyncReadSome => simp [bufferStep] at hstep
    | asyncWriteSome j data handler =>
      obtain ⟨client, hclient, rfl⟩ := Option.map_eq_some_iff.mp hstep
      rw [StreamAsioClient.step] at hclient
      split_ifs at hclient
      exact hquiet client (asyncWriteSome_quiet hclient)
    | cancel j =>
      obtain ⟨client, hclient, rfl⟩ := Option.map_eq_some_iff.mp hstep
      rw [StreamAsioClient.step] at hclient
      split_ifs at hclient
      refine h.quiet (cancel_quiet hclient) ?_
      rintro rfl
      exact hcancel rfl
    | event k =>
      obtain ⟨client, hclient, rfl⟩ := Option.map_eq_some_iff.mp hstep
      obtain ⟨⟨task, u₀⟩, htake, hrun⟩ := Option.bind_eq_some_iff.mp hclient
      rw [(take_eq_some htake).1]
      by_cases hpoll : ∃ j c ec, task = .pollTimer j c ec
      · obtain ⟨j, c, ec, rfl⟩ := hpoll
        exact h.poll ho htake hrun
      · have hq : Quiet (fun _ => False) s.client client := (Quiet.take htake).trans
          (runEvent_quiet (fun j c ec heq => hpoll ⟨j, c, ec, heq⟩) hrun)
        split
        · rename_i j c ec heq
          exact absurd ⟨j, c, ec, Option.some.inj heq⟩ hpoll
        · exact hquiet client hq
    | timer k =>
      obtain ⟨client, hclient, rfl⟩ := Option.map_eq_some_iff.mp hstep
      obtain ⟨⟨task, u₀⟩, htake, hrun⟩ := Option.bind_eq_some_iff.mp hclient
      exact hquiet client (expire_quiet h.polls htake hrun)
    | frame k ec rx queued =>
      obtain ⟨client, hclient, hrest⟩ := Option.bind_eq_some_iff.mp hstep
      obtain ⟨⟨task, u₀⟩, htake, hrun⟩ := Option.bind_eq_some_iff.mp hclient
      have htask := (take_eq_some htake).1
      rw [htask] at hrest
      by_cases hreply : ∃ n j c, task = .tunnelRead n j c
      · obtain ⟨n, j, c, rfl⟩ := hreply
        obtain ⟨s₁, hcopy, rfl⟩ := Option.map_eq_some_iff.mp hrest
        refine h.handleRead ho htake ?_ hrun hcopy
        rintro rfl data
        exact fun hcanceled hec hdata => hfits (c, data)
          (mem_taken.mpr ⟨k, ec, rx, queued, n, rfl, htask, hcanceled, hec, hdata⟩)
      · have hq : Quiet (fun _ => False) s.client client := (Quiet.take htake).trans
          (completeFrame_quiet (fun n j c heq => hreply ⟨n, j, c, heq⟩) hrun)
        split at hrest
        · rename_i n j c heq
          exact absurd ⟨n, j, c, Option.some.inj heq⟩ hreply
        · obtain rfl := Option.some.inj hrest
          exact hquiet client hq

/-- **A reply that does not fit** is counted as a whole: the read reports more than its buffers
hold. -/
theorem Streams.not_delivers (h : Streams i s) (ho : Orderly s.client) {a : BufferAction}
    (hfits : ¬ Fits env i s a) (hstep : bufferStep env s a = some s') : ¬ Delivers i s' := by
  rw [Fits] at hfits
  push Not at hfits
  obtain ⟨⟨c, data⟩, htaken, hlong⟩ := hfits
  dsimp only at hlong
  obtain ⟨k, ec, rx, queued, n, rfl, htask, hcanceled, hec, hdata⟩ := mem_taken.mp htaken
  obtain ⟨client, hclient, hrest⟩ := Option.bind_eq_some_iff.mp hstep
  obtain ⟨⟨task, u₀⟩, htake, hrun⟩ := Option.bind_eq_some_iff.mp hclient
  obtain ⟨htask', hu₀⟩ := take_eq_some htake
  obtain rfl : task = .tunnelRead n i c := Option.some.inj (htask'.symm.trans htask)
  rw [htask] at hrest
  obtain ⟨s₁, hcopy, rfl⟩ := Option.map_eq_some_iff.mp hrest
  have hcurrent : (u₀.tunnel i).readContext = some c := by
    refine ((ho.take htake).known (.running ⟨n, .read i c⟩) List.mem_cons_self i c
      rfl).resolve_left ?_
    rw [hu₀]
    exact fun hc => absurd (hcanceled.symm.trans hc) Bool.false_ne_true
  have hcontext : u₀.context c = s.client.context c := by rw [hu₀]; rfl
  have htunnel : u₀.tunnel i = s.client.tunnel i := by rw [hu₀]; rfl
  rw [htunnel] at hcurrent
  have hctx : (copied c data u₀).context c = { s.client.context c with
      received := (s.client.context c).received ++ data.take (s.client.context c).buffers
      bytesRead := (s.client.context c).bytesRead + data.length } := by
    rw [← hcontext]
    refine (context_modifyContext u₀ c c _).trans (if_pos ⟨rfl, ?_⟩)
    rw [hu₀]
    exact h.current_lt i c hcurrent
  have hroom := h.room c
  -- no more is read, and the read is completed
  rw [copyReply_of_some hcanceled hec hdata, if_neg fun hq => hlong.not_gt hq.2] at hcopy
  obtain rfl := Option.some.inj hcopy
  rcases tunnelHandleRead_cases hrun with ⟨hc, -⟩ | ⟨-, hnone, -⟩ | ⟨-, -, data', hdata', hcases⟩
  · rw [hcontext, hcanceled] at hc
    exact absurd hc Bool.false_ne_true
  · rw [htunnel, hdata] at hnone
    rcases hnone with hnone | hnone
    · exact absurd hnone hec
    · exact nomatch hnone
  rw [htunnel, hdata] at hdata'
  obtain rfl : data = data' := Option.some.inj hdata'
  rw [hcontext, ← hroom] at hcases
  rcases hcases with ⟨hflush, -⟩ | ⟨-, hrel⟩
  · exact absurd hflush.2 hlong.not_gt
  rcases release_read_cases (J := fun _ => False) hrel with ⟨hc, -⟩ | ⟨-, -, -, -, htasks⟩ |
    ⟨-, hzero, -⟩
  · rw [hctx, hcanceled] at hc
    exact absurd hc Bool.false_ne_true
  · intro hdelivers
    have hposted : posted s.client client = [.complete (s.client.context c).handler .success
        ((s.client.context c).bytesRead + data.length), .itemDone] := by
      rw [posted_eq htake, htasks, hctx]
      exact List.drop_left
    have hmem := hdelivers.size_le ⟨i, (s.client.context c).handler,
      (s.client.context c).bytesRead + data.length, (dataCopied i c data s).target c⟩
      (by rw [hposted]; exact List.mem_append_right _ (List.mem_singleton_self _)) rfl
    have huser : ((dataCopied i c data s).target c).user = (s.target c).user := by
      have hlt : c < s.targets.length := h.length.symm ▸ h.current_lt i c hcurrent
      have htar : (dataCopied i c data s).target c
          = storeTarget (s.target c).buffers data (s.target c) :=
        (targets_getD_modify s.targets c c _ hlt _).trans (if_pos rfl)
      rw [htar]
      rfl
    have hremains := congrArg List.length (h.left c hcurrent)
    rw [List.length_drop, Io.length_cells, Io.length_cells] at hremains
    dsimp only at hmem
    rw [huser] at hmem
    omega
  · rw [hctx] at hzero
    dsimp only at hzero
    omega

/-! ### Runs -/

theorem streams_init (i : ℕ) : Streams i {} := by
  refine ⟨⟨?_, ?_, ?_, rfl, fun _ => rfl, ?_, rfl, ?_⟩, ?_⟩ <;> simp [Polls, State.tunnel]

/-- **Reads deliver the stream**: in a run in which no read of the tunnel is canceled, the completed
reads have the data of the replies, in order and within their buffers, as long as every reply that a
read takes fits into what is left of its buffers, and only so long. -/
theorem delivers_iff (env : Env) (i : ℕ) (actions : List BufferAction) (t : BufferState)
    (hcancel : BufferAction.client (.cancel i) ∉ actions)
    (hrun : Run.run (bufferStep env) {} actions = some t) :
    Run.Always (bufferStep env) (Delivers i) {} actions ↔
      Run.Guarded (bufferStep env) (Fits env i) {} actions := by
  refine Run.always_iff_guarded_of_forall (I := fun s => Streams i s ∧ Orderly s.client)
    (A := fun a => a ≠ .client (.cancel i)) (fun s hs => delivers_of_logged hs.1.toLogged) ?_ ?_
    ⟨streams_init i, orderly_init⟩ (fun a ha heq => hcancel (heq ▸ ha)) hrun
  · rintro s a s' ⟨h, ho⟩ ha hfits hstep
    obtain ⟨b, hb⟩ := bufferStep_client hstep
    exact ⟨h.step ho ha hfits hstep, ho.step hb⟩
  · exact fun s a s' hs _ hfits hstep => hs.1.not_delivers hs.2 hfits hstep

/-- A reply of device 3 on channel 9. -/
def tunnelReply (data : Bytes) (queued : Bool) : BufferAction :=
  .client (.frame 0 .success ⟨3, false, 0, [0x41, 9, UInt8.ofNat data.length] ++ data⟩ queued)

/-- The request of a read is written. -/
def requestWritten : BufferAction := .client (.frame 0 .success ⟨0, false, 0, []⟩ false)

/-- Two replies are flushed into one read, of one byte at address 0 and three at address 8. -/
theorem delivers_flushed : Run.Always (bufferStep ⟨0, -1⟩) (Delivers 0) {}
    [.client (.makeTunnel 3 9),
      .asyncReadSome 0 ⟨[⟨0, 1⟩, ⟨8, 3⟩], by decide⟩ (fun _ => 0) 1, .client (.event 0),
      requestWritten, tunnelReply [1, 2] true, tunnelReply [3] false] := by
  refine (delivers_iff _ _ _ _ (by simp [tunnelReply, requestWritten]) rfl).mpr ?_
  decide +kernel

/-- A reply of three bytes for a read of two: it reports three, and the third is lost. -/
theorem not_delivers_long : ∃ t, Run.run (bufferStep ⟨0, -1⟩) {}
    [.client (.makeTunnel 3 9), .asyncReadSome 0 ⟨[⟨0, 2⟩], by decide⟩ (fun _ => 0) 1,
      .client (.event 0), requestWritten, tunnelReply [1, 2, 3] false, .client (.event 1),
      .client (.event 0), .asyncReadSome 0 ⟨[⟨0, 2⟩], by decide⟩ (fun _ => 0) 2, .client (.event 0),
      requestWritten, tunnelReply [4] false] = some t ∧
    t.completed.map CompletedRead.size = [3, 1] ∧ deliveredOf 0 t = [1, 2, 4] ∧
    receivedOf 0 t = [1, 2, 3, 4] ∧ ¬ Delivers 0 t := by
  refine ⟨_, rfl, ?_, ?_, ?_, fun h => absurd h.inOrder ?_⟩ <;> decide +kernel

end

end Mjlib.Multiplex.StreamAsioClient

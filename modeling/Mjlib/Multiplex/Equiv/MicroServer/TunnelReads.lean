import Mathlib
import Mjlib.Multiplex.Equiv.MicroServer.Pass
import Mjlib.Multiplex.Equiv.MicroServer.TunnelData
import Mjlib.Multiplex.MicroServerRun

/-!
# The bytes that reach the readers of a tunnel

What was delivered to the readers of a tunnel and what is in its buffer are, together, the data of the
client-to-server subframes that were accepted for its channel, in order, in every state of a run
(`delivered_append_readData`).  A tunnel with both data and a reader is one that `Poll` is told of
(`Flagged`), and the next `Poll` completes that read.
-/

namespace Mjlib.Multiplex.MicroServer

variable {σ τ : Type*} (env : Env σ τ)

/-! ### The log -/

theorem delivered_append (i : ℕ) (log log' : List ClientEvent) :
    delivered i (log ++ log') = delivered i log ++ delivered i log' := List.flatMap_append

theorem delivered_map_call (i : ℕ) (calls : List TunnelCall) :
    delivered i (calls.map .call) = [] := by
  rw [delivered, List.flatMap_map]
  exact List.flatMap_eq_nil_iff.mpr fun _ _ => rfl

/-- A callback of a reader. -/
theorem delivered_read (i j : ℕ) (log : List ClientEvent) (bytes : Bytes) (calls : List TunnelCall) :
    delivered i (log ++ .read j bytes :: calls.map .call)
      = delivered i log ++ if j = i then bytes else [] := by
  rw [delivered_append]
  change _ ++ ((if j = i then bytes else []) ++ delivered i (calls.map .call)) = _
  rw [delivered_map_call, List.append_nil]

/-- A callback of a writer. -/
theorem delivered_written (i j size : ℕ) (log : List ClientEvent) (calls : List TunnelCall) :
    delivered i (log ++ .written j size :: calls.map .call) = delivered i log := by
  rw [delivered_append]
  change _ ++ ([] ++ delivered i (calls.map .call)) = _
  rw [delivered_map_call, List.append_nil, List.append_nil]

/-! ### Tunnels -/

theorem tunnel_modifyTunnel (s : State σ τ) (f : TunnelStream → TunnelStream) (i j : ℕ) :
    (s.modifyTunnel j f).tunnel i
      = if j = i ∧ i < s.tunnels.length then f (s.tunnel i) else s.tunnel i := by
  unfold State.modifyTunnel State.tunnel
  rw [List.getD_eq_getElem?_getD, List.getD_eq_getElem?_getD, List.getElem?_modify]
  by_cases hi : i < s.tunnels.length
  · rw [List.getElem?_eq_getElem hi]
    by_cases hj : j = i
    · rw [if_pos ⟨hj, hi⟩]
      simp [hj]
    · rw [if_neg fun h => hj h.1]
      simp [hj]
  · rw [if_neg fun h => hi h.2, List.getElem?_eq_none (not_lt.mp hi)]
    rfl

theorem tunnel_of_length_le {s : State σ τ} {i : ℕ} (h : s.tunnels.length ≤ i) :
    s.tunnel i = { id := 0 } := by
  unfold State.tunnel
  rw [List.getD_eq_getElem?_getD, List.getElem?_eq_none h]
  rfl

theorem ids_modifyTunnel (s : State σ τ) {f : TunnelStream → TunnelStream}
    (hf : ∀ t, (f t).id = t.id) (i : ℕ) : (s.modifyTunnel i f).ids = s.ids :=
  congrArg (·.2.2) (core_modifyTunnel s hf i)

theorem length_tunnels_of_ids {s s' : State σ τ} (h : s'.ids = s.ids) :
    s'.tunnels.length = s.tunnels.length := by
  have hlen := congrArg List.length h
  rwa [State.ids, State.ids, List.length_map, List.length_map] at hlen

theorem findTunnel_of_ids {s s' : State σ τ} (h : s'.ids = s.ids) (channel : UInt32) :
    findTunnel channel s' = findTunnel channel s := by
  have hids : ∀ s : State σ τ, findTunnel channel s = s.ids.findIdx? (· == channel) := fun s => by
    rw [findTunnel, State.ids, List.findIdx?_map]
    rfl
  rw [hids, hids, h]

/-- A tunnel with data and a reader is one that `Poll` is told of. -/
def Flagged (s : State σ τ) : Prop :=
  ∀ i, (s.tunnel i).readBuffer ≠ 0 → (s.tunnel i).readData ≠ [] → s.anythingToDo = true

/-! ### Calls of the owner -/

theorem ids_tunnelCall (s : State σ τ) (call : TunnelCall) : (tunnelCall s call).ids = s.ids :=
  congrArg (·.2.2) (core_tunnelCall s call)

theorem client_tunnelCall (s : State σ τ) (call : TunnelCall) :
    (tunnelCall s call).client = s.client := by
  cases call with
  | asyncReadSome i size =>
    rw [tunnelCall]
    split_ifs <;> rfl
  | asyncWriteSome i data =>
    rw [tunnelCall]
    split_ifs <;> rfl

theorem readData_tunnelCall (s : State σ τ) (call : TunnelCall) (i : ℕ) :
    ((tunnelCall s call).tunnel i).readData = (s.tunnel i).readData := by
  cases call with
  | asyncReadSome j size =>
    rw [tunnelCall]
    by_cases hj : (s.tunnel j).readBuffer = 0
    · rw [if_pos hj]
      change ((s.modifyTunnel j _).tunnel i).readData = _
      rw [tunnel_modifyTunnel]
      split_ifs <;> rfl
    · rw [if_neg hj]
  | asyncWriteSome j data =>
    rw [tunnelCall]
    by_cases hj : (s.tunnel j).writeBuffer = []
    · rw [if_pos hj, tunnel_modifyTunnel]
      split_ifs <;> rfl
    · rw [if_neg hj]

/-- A read that is pending stays. -/
theorem readBuffer_tunnelCall (s : State σ τ) (call : TunnelCall) (i : ℕ)
    (hi : (s.tunnel i).readBuffer ≠ 0) :
    ((tunnelCall s call).tunnel i).readBuffer = (s.tunnel i).readBuffer := by
  cases call with
  | asyncReadSome j size =>
    rw [tunnelCall]
    by_cases hj : (s.tunnel j).readBuffer = 0
    · rw [if_pos hj]
      change ((s.modifyTunnel j _).tunnel i).readBuffer = _
      rw [tunnel_modifyTunnel, if_neg]
      rintro ⟨rfl, -⟩
      exact hi hj
    · rw [if_neg hj]
  | asyncWriteSome j data =>
    rw [tunnelCall]
    by_cases hj : (s.tunnel j).writeBuffer = []
    · rw [if_pos hj, tunnel_modifyTunnel]
      split_ifs <;> rfl
    · rw [if_neg hj]

/-- `AsyncReadSome` tells `Poll` of a read that data is waiting for. -/
theorem flagged_tunnelCall {s : State σ τ} (h : Flagged s) (call : TunnelCall) :
    Flagged (tunnelCall s call) := by
  intro i hbuffer hdata
  rw [readData_tunnelCall] at hdata
  cases call with
  | asyncReadSome j size =>
    rw [tunnelCall] at hbuffer ⊢
    by_cases hj : (s.tunnel j).readBuffer = 0
    · rw [if_pos hj] at hbuffer ⊢
      have hbuffer' : ((s.modifyTunnel j fun t => { t with readBuffer := size }).tunnel i).readBuffer
          ≠ 0 := hbuffer
      rw [tunnel_modifyTunnel] at hbuffer'
      by_cases hi : j = i ∧ i < s.tunnels.length
      · rw [if_pos hi] at hbuffer'
        have hsize : size ≠ 0 := hbuffer'
        rw [hi.1]
        simp [hsize, hdata]
      · rw [if_neg hi] at hbuffer'
        have := h i hbuffer' hdata
        simp [this]
    · rw [if_neg hj] at hbuffer ⊢
      exact h i hbuffer hdata
  | asyncWriteSome j data =>
    rw [tunnelCall] at hbuffer ⊢
    by_cases hj : (s.tunnel j).writeBuffer = []
    · rw [if_pos hj, tunnel_modifyTunnel] at hbuffer
      rw [if_pos hj]
      refine h i ?_ hdata
      split_ifs at hbuffer <;> exact hbuffer
    · rw [if_neg hj] at hbuffer ⊢
      exact h i hbuffer hdata

/-- What the calls made from a callback leave as it is. -/
theorem callback_spec (result : τ × List TunnelCall) (s : State σ τ) :
    (callback result s).ids = s.ids ∧ (callback result s).client = result.1 ∧
      (∀ i, ((callback result s).tunnel i).readData = (s.tunnel i).readData) ∧
      (∀ i, (s.tunnel i).readBuffer ≠ 0 →
        ((callback result s).tunnel i).readBuffer = (s.tunnel i).readBuffer) ∧
      (Flagged s → Flagged (callback result s)) := by
  obtain ⟨client, calls⟩ := result
  have key : ∀ s' : State σ τ, (calls.foldl tunnelCall s').ids = s'.ids ∧
      (calls.foldl tunnelCall s').client = s'.client ∧
      (∀ i, ((calls.foldl tunnelCall s').tunnel i).readData = (s'.tunnel i).readData) ∧
      (∀ i, (s'.tunnel i).readBuffer ≠ 0 →
        ((calls.foldl tunnelCall s').tunnel i).readBuffer = (s'.tunnel i).readBuffer) ∧
      (Flagged s' → Flagged (calls.foldl tunnelCall s')) := by
    induction calls with
    | nil => exact fun s' => ⟨rfl, rfl, fun _ => rfl, fun _ _ => rfl, id⟩
    | cons call calls ih =>
      intro s'
      obtain ⟨h1, h2, h3, h4, h5⟩ := ih (tunnelCall s' call)
      refine ⟨h1.trans (ids_tunnelCall s' call), h2.trans (client_tunnelCall s' call),
        fun i => (h3 i).trans (readData_tunnelCall s' call i), fun i hi => ?_,
        fun h => h5 (flagged_tunnelCall h call)⟩
      have hi' := readBuffer_tunnelCall s' call i hi
      exact (h4 i (by rwa [hi'])).trans hi'
  exact key { s with client := client }

/-! ### What moves -/

/-- Of the tunnel `i`, the bytes `accepted` were added to those that were delivered or are in the
buffer. -/
structure Moves (i : ℕ) (accepted : Bytes) (s s' : State σ (τ × List ClientEvent)) : Prop where
  ids : s'.ids = s.ids
  total : delivered i s'.log ++ (s'.tunnel i).readData
    = delivered i s.log ++ (s.tunnel i).readData ++ accepted
  flagged : Flagged s → Flagged s'

section
variable {i j : ℕ} {accepted accepted' : Bytes} {s s' s'' : State σ (τ × List ClientEvent)}

theorem Moves.trans (h : Moves i accepted s s') (h' : Moves i accepted' s' s'') :
    Moves i (accepted ++ accepted') s s'' where
  ids := h'.ids.trans h.ids
  total := by
    rw [h'.total, h.total, List.append_assoc]
  flagged := fun hs => h'.flagged (h.flagged hs)

theorem Moves.of_side (h : side s' = side s) : Moves i [] s s' := by
  obtain ⟨hclient, htunnels, hflag⟩ : s'.client = s.client ∧ s'.tunnels = s.tunnels ∧
      s'.anythingToDo = s.anythingToDo := by simpa [side] using h
  have htunnel : ∀ j, s'.tunnel j = s.tunnel j := fun j => by rw [State.tunnel, htunnels]; rfl
  constructor
  · rw [State.ids, State.ids, htunnels]
  · rw [List.append_nil, State.log, hclient, htunnel]
    rfl
  · intro hs j hbuffer hdata
    rw [htunnel] at hbuffer hdata
    rw [hflag]
    exact hs j hbuffer hdata

/-- The owner's callback for a reader gets the first bytes of the buffer. -/
theorem doReadTransfer_true (hdata : (s.tunnel j).readData ≠ []) (hbuffer : (s.tunnel j).readBuffer ≠ 0) :
    (doReadTransfer env.recorded j s).1 = true ∧
      (∀ i, delivered i (doReadTransfer env.recorded j s).2.log = delivered i s.log
        ++ if j = i then (s.tunnel j).readData.take
            (min (s.tunnel j).readBuffer (s.tunnel j).readData.length) else []) ∧
      (∀ i, ((doReadTransfer env.recorded j s).2.tunnel i).readData = if j = i then
        (s.tunnel j).readData.drop (min (s.tunnel j).readBuffer (s.tunnel j).readData.length)
          else (s.tunnel i).readData) ∧
      (∀ i, i ≠ j → (s.tunnel i).readBuffer ≠ 0 →
        ((doReadTransfer env.recorded j s).2.tunnel i).readBuffer = (s.tunnel i).readBuffer) ∧
      (doReadTransfer env.recorded j s).2.ids = s.ids ∧
      (Flagged s → Flagged (doReadTransfer env.recorded j s).2) := by
  have hlt : j < s.tunnels.length := by
    by_contra hge
    rw [tunnel_of_length_le (not_lt.mp hge)] at hdata
    exact hdata rfl
  rw [doReadTransfer, if_neg hdata, if_neg hbuffer]
  dsimp only
  generalize min (s.tunnel j).readBuffer (s.tunnel j).readData.length = toCopy
  obtain ⟨h1, h2, h3, h4, h5⟩ := callback_spec
    (env.recorded.client.onRead s.client j ((s.tunnel j).readData.take toCopy))
    (s.modifyTunnel j (·.consume toCopy))
  refine ⟨rfl, fun i => ?_, fun i => ?_, fun i hij hi => ?_, ?_, fun hs => ?_⟩
  · unfold State.log
    rw [h2]
    exact delivered_read i j _ _ _
  · rw [h3, tunnel_modifyTunnel]
    by_cases hij : j = i
    · subst hij
      rw [if_pos ⟨rfl, hlt⟩, if_pos rfl]
      rfl
    · rw [if_neg fun h => hij h.1, if_neg hij]
  · have hsame : ((s.modifyTunnel j (·.consume toCopy)).tunnel i).readBuffer
        = (s.tunnel i).readBuffer := by
      rw [tunnel_modifyTunnel, if_neg fun h => hij h.1.symm]
    exact (h4 i (by rwa [hsame])).trans hsame
  · rw [h1]
    exact ids_modifyTunnel s (by intro t; rfl) j
  · refine h5 fun i hbuffer' hdata' => ?_
    rw [tunnel_modifyTunnel] at hbuffer' hdata'
    split_ifs at hbuffer' hdata' with hi
    · exact absurd rfl hbuffer'
    · exact hs i hbuffer' hdata'

theorem doReadTransfer_false (h : (s.tunnel j).readData = [] ∨ (s.tunnel j).readBuffer = 0) :
    doReadTransfer env.recorded j s = (false, s) := by
  rw [doReadTransfer]
  by_cases hdata : (s.tunnel j).readData = []
  · rw [if_pos hdata]
  · rw [if_neg hdata, if_pos (h.resolve_left hdata)]

/-- `DoReadTransfer` moves bytes from the buffer to a reader. -/
theorem moves_doReadTransfer (i j : ℕ) (s : State σ (τ × List ClientEvent)) :
    Moves i [] s (doReadTransfer env.recorded j s).2 := by
  by_cases h : (s.tunnel j).readData = [] ∨ (s.tunnel j).readBuffer = 0
  · rw [doReadTransfer_false env h]
    exact .of_side rfl
  rw [not_or] at h
  obtain ⟨-, hdelivered, hdata, -, hids, hflagged⟩ := doReadTransfer_true env h.1 h.2
  refine ⟨hids, ?_, hflagged⟩
  rw [hdelivered, hdata, List.append_nil, List.append_assoc]
  congr 1
  split_ifs with hij
  · rw [hij, List.take_append_drop]
  · rfl

/-- The response of a tunnel is not about its readers. -/
theorem moves_tunnelResponse (i : ℕ) (channel : UInt32) (maxBytes : Option UInt32) (j : ℕ)
    (s : State σ (τ × List ClientEvent)) :
    Moves i [] s (tunnelResponse env.recorded channel maxBytes j s) := by
  rw [tunnelResponse]
  by_cases hr : s.response.isNone
  · rw [if_pos hr]
    exact .of_side rfl
  rw [if_neg hr]
  dsimp only
  generalize hs₁ : (s.respondVaruint (UInt32.ofNat Subframe.kServerToClient)).respondVaruint channel
    = s₁
  have hside₁ : side s₁ = side s := by rw [← hs₁]; rfl
  generalize toCopy env.recorded maxBytes j s₁ = size
  split_ifs
  · generalize hs₂ : (s₁.respondVaruint (UInt32.ofNat (size % 2 ^ 32).toNat)).respond
      (((s₁.respondVaruint (UInt32.ofNat (size % 2 ^ 32).toNat)).tunnel j).writeBuffer.take size.toNat)
      = s₂
    have hmoves : Moves i [] s s₂ := .of_side (by rw [← hs₂]; exact hside₁)
    obtain ⟨h1, h2, h3, -, h5⟩ := callback_spec
      (env.recorded.client.onWrite s₂.client j size.toNat)
      (s₂.modifyTunnel j fun t => { t with writeBuffer := [] })
    have hids : (s₂.modifyTunnel j fun t => { t with writeBuffer := [] }).ids = s₂.ids :=
      ids_modifyTunnel s₂ (by intro t; rfl) j
    obtain ⟨hids', htotal', hflagged'⟩ := hmoves
    refine ⟨h1.trans (hids.trans hids'), ?_, fun hs => ?_⟩
    · rw [← htotal', h3, tunnel_modifyTunnel]
      congr 1
      · unfold State.log
        rw [h2]
        exact delivered_written i j _ _ _
      · split_ifs <;> rfl
    · refine h5 fun i hbuffer hdata => ?_
      rw [tunnel_modifyTunnel] at hbuffer hdata
      split_ifs at hbuffer hdata <;> exact hflagged' hs i hbuffer hdata
  · exact .of_side hside₁

/-- What fits of the data of a client-to-server subframe is stored, and may be handed over at once. -/
theorem moves_received (i j : ℕ) (bytes : UInt32) (str : Bytes) (s : State σ (τ × List ClientEvent))
    (hlen : bytes.toNat ≤ str.length) (hj : j < s.tunnels.length) :
    Moves i (if j = i ∧ ¬ bytes.toNat > (s.tunnel j).remainingSpace then str.take bytes.toNat else [])
      s (received env.recorded bytes j str s) := by
  -- the state in which the bytes are stored, and the transfer of `DoReadTransfer`
  obtain ⟨s₁, hs₁⟩ : ∃ s₁, s₁ = if bytes.toNat > (s.tunnel j).remainingSpace then
      { s with stats.receiveOverrun := s.stats.receiveOverrun + 1 }
    else s.modifyTunnel j (·.receive (str.take bytes.toNat)) := ⟨_, rfl⟩
  have hids : s₁.ids = s.ids := by
    rw [hs₁]
    split_ifs
    · rfl
    · exact ids_modifyTunnel s (fun t => TunnelStream.id_receive t _) j
  have htotal : delivered i s₁.log ++ (s₁.tunnel i).readData = delivered i s.log
      ++ (s.tunnel i).readData ++
        if j = i ∧ ¬ bytes.toNat > (s.tunnel j).remainingSpace then str.take bytes.toNat else [] := by
    by_cases hover : bytes.toNat > (s.tunnel j).remainingSpace
    · rw [hs₁, if_pos hover, if_neg fun h => h.2 hover, List.append_nil]
      rfl
    · rw [hs₁, if_neg hover, tunnel_modifyTunnel, List.append_assoc]
      change delivered i s.log ++ _ = _
      congr 1
      by_cases hij : j = i
      · subst hij
        rw [if_pos ⟨rfl, hj⟩, if_pos ⟨rfl, hover⟩, TunnelStream.receive, dif_pos]
        rw [List.length_take]
        omega
      · rw [if_neg fun h => hij h.1, if_neg fun h => hij h.1, List.append_nil]
  obtain ⟨hids', htotal', -⟩ := moves_doReadTransfer env i j s₁
  refine ⟨?_, ?_, fun _ _ _ _ => ?_⟩
  · rw [received, ← hs₁]
    exact hids'.trans hids
  · rw [received, ← hs₁, ← htotal, ← List.append_nil (delivered i s₁.log ++ _)]
    exact htotal'
  · rw [received]

/-! ### Frames -/

/-- **One pass** stores the data that is accepted at its head. -/
theorem moves_processSubframe {channel : UInt32} (hi : findTunnel channel s = some i) (str : Bytes) :
    Moves i (acceptedAt channel str s) s (processSubframe env.recorded str s).2.2 := by
  cases pass_processSubframe env.recorded str s with
  | other hnone h =>
    rw [hnone]
    exact .of_side h.1
  | write hnone typeLength str₁ hlt h =>
    rw [hnone]
    exact .of_side (h.1.trans (side_processSubframeWrite _ _ _ _))
  | read hnone typeLength str₁ hlt h =>
    rw [hnone]
    exact .of_side (h.1.trans (side_processSubframeRead _ _ _ _))
  | clientToServer channel' bytes j str₁ haccept htakes hlen hj h =>
    rw [h]
    have hlt : j < s.tunnels.length := by
      obtain ⟨hlt, -⟩ := List.findIdx?_eq_some_iff_getElem.mp hj
      exact hlt
    have hmoves := (moves_received env i j bytes str₁ s hlen hlt).trans
      (moves_tunnelResponse env i channel' none j (received env.recorded bytes j str₁ s))
    rw [List.append_nil] at hmoves
    -- the tunnel of another channel is another tunnel
    have hiff : channel' = channel ↔ j = i := by
      constructor
      · rintro rfl
        exact Option.some.inj (hj.symm.trans hi)
      · rintro rfl
        obtain ⟨_, h1, -⟩ := List.findIdx?_eq_some_iff_getElem.mp hi
        obtain ⟨_, h2, -⟩ := List.findIdx?_eq_some_iff_getElem.mp hj
        exact (beq_iff_eq.mp h2).symm.trans (beq_iff_eq.mp h1)
    rw [haccept]
    simp only [hiff]
    exact hmoves
  | clientPollServer hnone channel' maxBytes j htakes hj h =>
    rw [hnone, h]
    exact moves_tunnelResponse env i channel' (some maxBytes) j s

/-- **The loop** stores the data that is accepted at its heads. -/
theorem moves_processSubframes {channel : UInt32} (str : Bytes) (s : State σ (τ × List ClientEvent))
    (hi : findTunnel channel s = some i) :
    Moves i ((heads env.recorded str s).flatMap fun h => acceptedAt channel h.1 h.2) s
      (processSubframes env.recorded str s) := by
  induction str, s using loop_induction env.recorded with
  | nil s => exact .of_side rfl
  | next str s str' s' hstr hp ih =>
    have hpass := moves_processSubframe env hi str
    rw [hp] at hpass
    rw [heads_of_next hstr hp, List.flatMap_cons, processSubframes_of_next hstr hp]
    exact hpass.trans (ih ((findTunnel_of_ids hpass.ids channel).trans hi))
  | return' str s str' s' hstr hp =>
    have hpass := moves_processSubframe env hi str
    rw [hp] at hpass
    rw [heads_of_return hstr hp, List.flatMap_cons, List.flatMap_nil, List.append_nil,
      processSubframes_of_return hstr hp]
    exact hpass

/-! ### `Poll` -/

/-- The loop of `Poll`, over the tunnels that are left. -/
def pollTunnels (tunnels : List ℕ) (r : Bool × State σ τ) : Bool × State σ τ :=
  tunnels.foldl (fun r i => (r.1 && !(doReadTransfer env i r.2).1, (doReadTransfer env i r.2).2)) r

theorem poll_eq (s : State σ τ) (h : s.anythingToDo = true) :
    poll env s = if (pollTunnels env (List.range s.tunnels.length) (true, s)).1 then
        { (pollTunnels env (List.range s.tunnels.length) (true, s)).2 with anythingToDo := false }
      else (pollTunnels env (List.range s.tunnels.length) (true, s)).2 := by
  rw [poll, h]
  rfl

theorem moves_pollTunnels (i : ℕ) (tunnels : List ℕ) :
    ∀ (b : Bool) (s : State σ (τ × List ClientEvent)),
      Moves i [] s (pollTunnels env.recorded tunnels (b, s)).2 := by
  induction tunnels with
  | nil => exact fun b s => .of_side rfl
  | cons j tunnels ih =>
    intro b s
    exact (moves_doReadTransfer env i j s).trans (ih _ _)

/-- When no tunnel had anything to hand over, nothing has changed. -/
theorem pollTunnels_of_true {tunnels : List ℕ} : ∀ {b : Bool} {s : State σ (τ × List ClientEvent)},
    (pollTunnels env.recorded tunnels (b, s)).1 = true →
      b = true ∧ (pollTunnels env.recorded tunnels (b, s)).2 = s ∧
        ∀ j ∈ tunnels, (s.tunnel j).readData = [] ∨ (s.tunnel j).readBuffer = 0 := by
  induction tunnels with
  | nil => exact fun h => ⟨h, rfl, fun _ hj => absurd hj List.not_mem_nil⟩
  | cons j tunnels ih =>
    intro b s h
    obtain ⟨hb, hs, hrest⟩ := ih h
    rw [Bool.and_eq_true, Bool.not_eq_true'] at hb
    by_cases hj : (s.tunnel j).readData = [] ∨ (s.tunnel j).readBuffer = 0
    · rw [doReadTransfer_false env hj] at hs hrest
      refine ⟨hb.1, ?_, List.forall_mem_cons.mpr ⟨hj, hrest⟩⟩
      change (pollTunnels env.recorded tunnels (_, _)).2 = s
      rw [doReadTransfer_false env hj]
      exact hs
    · rw [not_or] at hj
      have htrue := (doReadTransfer_true env hj.1 hj.2).1
      rw [htrue] at hb
      exact absurd hb.2 (by decide)

/-- A read that waits, and its data, are not touched by the transfers of other tunnels. -/
theorem pollTunnels_of_notMem {tunnels : List ℕ} (hi : i ∉ tunnels) :
    ∀ (b : Bool) (s : State σ (τ × List ClientEvent)),
      delivered i (pollTunnels env.recorded tunnels (b, s)).2.log = delivered i s.log ∧
        ((s.tunnel i).readBuffer ≠ 0 →
          ((pollTunnels env.recorded tunnels (b, s)).2.tunnel i).readData = (s.tunnel i).readData ∧
          ((pollTunnels env.recorded tunnels (b, s)).2.tunnel i).readBuffer
            = (s.tunnel i).readBuffer) := by
  induction tunnels with
  | nil => exact fun b s => ⟨rfl, fun _ => ⟨rfl, rfl⟩⟩
  | cons j tunnels ih =>
    intro b s
    rw [List.mem_cons, not_or] at hi
    obtain ⟨h1, h2⟩ := ih hi.2 (b && !(doReadTransfer env.recorded j s).1)
      (doReadTransfer env.recorded j s).2
    by_cases hj : (s.tunnel j).readData = [] ∨ (s.tunnel j).readBuffer = 0
    · rw [doReadTransfer_false env hj] at h1 h2
      change delivered i (pollTunnels env.recorded tunnels (_, _)).2.log = _ ∧ (_ →
        ((pollTunnels env.recorded tunnels (_, _)).2.tunnel i).readData = _ ∧
        ((pollTunnels env.recorded tunnels (_, _)).2.tunnel i).readBuffer = _)
      rw [doReadTransfer_false env hj]
      exact ⟨h1, h2⟩
    · rw [not_or] at hj
      obtain ⟨-, hdelivered, hdata, hbuffer, -⟩ := doReadTransfer_true env hj.1 hj.2
      have hne : ¬ j = i := fun h => hi.1 h.symm
      refine ⟨?_, fun hpending => ?_⟩
      · refine h1.trans ((hdelivered i).trans ?_)
        rw [if_neg hne, List.append_nil]
      · have hb := hbuffer i hi.1 hpending
        have hd := (hdata i).trans (if_neg hne)
        obtain ⟨hd', hb'⟩ := h2 (by rwa [hb])
        exact ⟨hd'.trans hd, hb'.trans hb⟩

/-- `Poll` hands over the data of a tunnel that has a reader. -/
theorem delivered_poll {s : State σ (τ × List ClientEvent)} (hs : Flagged s)
    (hbuffer : (s.tunnel i).readBuffer ≠ 0) (hdata : (s.tunnel i).readData ≠ []) :
    delivered i (poll env.recorded s).log = delivered i s.log
      ++ (s.tunnel i).readData.take (min (s.tunnel i).readBuffer (s.tunnel i).readData.length) := by
  have hlt : i < s.tunnels.length := by
    by_contra hge
    rw [tunnel_of_length_le (not_lt.mp hge)] at hdata
    exact hdata rfl
  obtain ⟨A, B, hAB⟩ := List.append_of_mem (List.mem_range.mpr hlt)
  have hnodup : (A ++ i :: B).Nodup := hAB ▸ List.nodup_range
  obtain ⟨hA, hB⟩ : i ∉ A ∧ i ∉ B := by
    rw [List.nodup_append] at hnodup
    exact ⟨fun h => hnodup.2.2 i h i List.mem_cons_self rfl, (List.nodup_cons.mp hnodup.2.1).1⟩
  -- the tunnels before `i`, then `i`, then the others
  have hsplit : pollTunnels env.recorded (A ++ i :: B) (true, s)
      = pollTunnels env.recorded B (pollTunnels env.recorded [i]
          (pollTunnels env.recorded A (true, s))) := List.foldl_append
  obtain ⟨hA1, hA2⟩ := pollTunnels_of_notMem env hA true s
  obtain ⟨hdataA, hbufferA⟩ := hA2 hbuffer
  have hlog : delivered i (pollTunnels env.recorded (A ++ i :: B) (true, s)).2.log = delivered i s.log
      ++ (s.tunnel i).readData.take (min (s.tunnel i).readBuffer (s.tunnel i).readData.length) := by
    rw [hsplit]
    generalize pollTunnels env.recorded A (true, s) = r at hA1 hdataA hbufferA ⊢
    obtain ⟨b, s₁⟩ := r
    refine (pollTunnels_of_notMem env hB _ _).1.trans ?_
    obtain ⟨-, hdelivered, -⟩ := doReadTransfer_true env (s := s₁) (j := i)
      (by rwa [hdataA]) (by rwa [hbufferA])
    refine (hdelivered i).trans ?_
    rw [if_pos rfl, hA1, hdataA, hbufferA]
  rw [poll_eq env.recorded s (hs i hbuffer hdata), hAB]
  split_ifs
  · exact hlog
  · exact hlog

theorem moves_poll (i : ℕ) (s : State σ (τ × List ClientEvent)) :
    Moves i [] s (poll env.recorded s) := by
  by_cases h : s.anythingToDo = true
  · have hmoves := moves_pollTunnels env i (List.range s.tunnels.length) true s
    rw [poll_eq env.recorded s h]
    split_ifs with hdone
    · obtain ⟨-, hs, hidle⟩ := pollTunnels_of_true env hdone
      rw [hs]
      refine ⟨rfl, (List.append_nil _).symm, fun _ j hbuffer hdata => ?_⟩
      have hlt : j < s.tunnels.length := by
        by_contra hge
        have hdata' : (s.tunnel j).readData ≠ [] := hdata
        rw [tunnel_of_length_le (not_lt.mp hge)] at hdata'
        exact hdata' rfl
      exact absurd (hidle j (List.mem_range.mpr hlt)) (not_or.mpr ⟨hdata, hbuffer⟩)
    · exact hmoves
  · rw [poll, Bool.eq_false_iff.mpr h]
    exact .of_side rfl

end

/-! ### Runs -/

/-- The data that a step stores for a channel. -/
def acceptedBy (bufferSize : ℕ) (channel : UInt32) (s : Impl σ τ) : Event τ → Bytes
  | .datagram source destination subframes =>
    if Addressed destination s.id then
      (heads env subframes (frameStart env source destination s.id bufferSize s.writeOutstanding
        s.state)).flatMap fun h => acceptedAt channel h.1 h.2
    else []
  | _ => []

section
variable {i : ℕ} {channel : UInt32} {s s' : Impl σ (τ × List ClientEvent)}

theorem moves_own (i : ℕ) (act : τ → τ × List TunnelCall) (s : State σ (τ × List ClientEvent)) :
    ∀ act', Event.own act' = Event.recorded (.own act) →
      Moves i [] s (callback (act' s.client) s) := by
  intro act' hact
  obtain rfl := Event.own.inj hact
  obtain ⟨h1, h2, h3, -, h5⟩ := callback_spec
    (((act s.client.1).1, s.client.2 ++ (act s.client.1).2.map .call), (act s.client.1).2) s
  refine ⟨h1, ?_, h5⟩
  unfold State.log
  rw [h2, h3, List.append_nil]
  congr 1
  refine (delivered_append i _ _).trans ?_
  rw [delivered_map_call, List.append_nil]

/-- **One step** of the server. -/
theorem moves_step (bufferSize : ℕ) (hi : findTunnel channel s.state = some i) (a : Event τ)
    (hstep : step env.recorded bufferSize s a.recorded = some s') :
    Moves i (acceptedBy env.recorded bufferSize channel s a.recorded) s.state s'.state := by
  cases a with
  | start =>
    obtain rfl := Option.some.inj hstep
    exact .of_side rfl
  | datagram source destination subframes =>
    rw [Event.recorded, step] at hstep
    split_ifs at hstep
    obtain rfl := Option.some.inj hstep
    have hstate : (s.handleReadDatagram env.recorded bufferSize source destination subframes).state
        = (processFrame env.recorded source destination s.id bufferSize s.writeOutstanding subframes
            s.state).2 := by
      rw [Impl.handleReadDatagram]
      dsimp only
      rcases (processFrame env.recorded source destination s.id bufferSize s.writeOutstanding
        subframes s.state).1 with _ | data <;> rfl
    rw [hstate, Event.recorded, acceptedBy]
    by_cases haddressed : Addressed destination s.id
    · rw [if_pos haddressed]
      obtain ⟨-, hside⟩ := processFrame_of_addressed env.recorded source bufferSize
        s.writeOutstanding subframes s.state haddressed rfl
      have hstart : Moves i [] s.state (frameStart env.recorded source destination s.id bufferSize
        s.writeOutstanding s.state) := .of_side rfl
      have hloop := moves_processSubframes env subframes _
        ((findTunnel_of_ids hstart.ids channel).trans hi)
      have hmoves := (hstart.trans hloop).trans (.of_side hside)
      rwa [List.nil_append, List.append_nil] at hmoves
    · rw [if_neg haddressed]
      exact .of_side (processFrame_of_not_addressed env.recorded source bufferSize s.writeOutstanding
        subframes s.state haddressed).2
  | readError =>
    rw [Event.recorded, step] at hstep
    split_ifs at hstep
    obtain rfl := Option.some.inj hstep
    exact .of_side rfl
  | written =>
    rw [Event.recorded, step] at hstep
    split_ifs at hstep
    obtain rfl := Option.some.inj hstep
    exact .of_side rfl
  | poll =>
    obtain rfl := Option.some.inj hstep
    exact moves_poll env i s.state
  | own act =>
    obtain rfl := Option.some.inj hstep
    exact moves_own i act s.state _ rfl
  | config id =>
    obtain rfl := Option.some.inj hstep
    exact .of_side rfl

/-- **A run** of the server. -/
theorem moves_run (bufferSize : ℕ) {as : List (Event τ)} : ∀ {s t : Impl σ (τ × List ClientEvent)},
    findTunnel channel s.state = some i →
    Run.run (step env.recorded bufferSize) s (as.map Event.recorded) = some t →
    Moves i (Run.collect (step env.recorded bufferSize) (acceptedBy env.recorded bufferSize channel)
      s (as.map Event.recorded)) s.state t.state := by
  induction as with
  | nil =>
    intro s t _ hrun
    obtain rfl := Option.some.inj hrun
    exact .of_side rfl
  | cons a as ih =>
    intro s t hi hrun
    obtain ⟨s', hstep, hrun'⟩ := (Run.run_cons_eq_some _).mp hrun
    have hmoves := moves_step env bufferSize hi a hstep
    rw [List.map_cons, Run.collect_cons_of_eq hstep]
    exact hmoves.trans (ih ((findTunnel_of_ids hmoves.ids channel).trans hi) hrun')

end

/-- A tunnel that was made has its channel to itself. -/
theorem findTunnel_init (server : σ) (client : τ) {ids : List UInt32} {i : ℕ} {channel : UInt32}
    (hids : (ids.filter (· ≠ 0)).Nodup) (hi : ids[i]? = some channel) (hchannel : channel ≠ 0) :
    findTunnel channel (Impl.init server client ids).state = some i := by
  obtain ⟨hlt, hget⟩ := List.getElem?_eq_some_iff.mp hi
  refine List.findIdx?_eq_some_iff_getElem.mpr ⟨by simpa [Impl.init] using hlt, ?_, fun j hj => ?_⟩
  · simp [Impl.init, hget]
  · simp only [Impl.init, List.getElem_map, beq_iff_eq]
    intro heq
    -- one of two tunnels with the channel is before `i`, the other is not
    have hsplit : (ids.take i ++ ids.drop i).filter (· ≠ 0) = ids.filter (· ≠ 0) := by
      rw [List.take_append_drop]
    rw [← hsplit, List.filter_append, List.nodup_append] at hids
    have hmem : ∀ l : List UInt32, channel ∈ l → channel ∈ l.filter (· ≠ 0) := fun l hl =>
      List.mem_filter.mpr ⟨hl, by simpa using hchannel⟩
    refine hids.2.2 channel (hmem _ ?_) channel (hmem _ ?_) rfl
    · exact List.mem_take_iff_getElem.mpr ⟨j, by omega, heq⟩
    · exact List.mem_drop_iff_getElem.mpr ⟨0, by omega, by simpa using hget⟩

/-- **Client-to-server tunnels lose nothing**: in every run of the server, what the readers of a tunnel
got and what is in its buffer are the data that was accepted for its channel, in order; and a tunnel
with data and a reader is one that the next `Poll` serves. -/
theorem delivered_append_readData (bufferSize : ℕ) (server : σ) (client : τ) (ids : List UInt32)
    (hids : (ids.filter (· ≠ 0)).Nodup) (as : List (Event τ)) (t : Impl σ (τ × List ClientEvent))
    (hrun : Run.run (step env.recorded bufferSize) (Impl.init server client ids)
      (as.map Event.recorded) = some t)
    (i : ℕ) (channel : UInt32) (hi : ids[i]? = some channel) (hchannel : channel ≠ 0) :
    delivered i t.state.log ++ (t.state.tunnel i).readData
        = Run.collect (step env.recorded bufferSize) (acceptedBy env.recorded bufferSize channel)
          (Impl.init server client ids) (as.map Event.recorded) ∧
      ((t.state.tunnel i).readBuffer ≠ 0 → (t.state.tunnel i).readData ≠ [] →
        t.state.anythingToDo = true ∧
          delivered i (poll env.recorded t.state).log = delivered i t.state.log
            ++ (t.state.tunnel i).readData.take
              (min (t.state.tunnel i).readBuffer (t.state.tunnel i).readData.length)) := by
  have htunnel : ∀ j, ((Impl.init server client ids).state.tunnel j).readData = [] ∧
      ((Impl.init server client ids).state.tunnel j).readBuffer = 0 := by
    intro j
    unfold Impl.init State.tunnel
    rw [List.getD_eq_getElem?_getD, List.getElem?_map]
    cases ids[j]? <;> exact ⟨rfl, rfl⟩
  have hmoves := moves_run env bufferSize (findTunnel_init server client hids hi hchannel) hrun
  have hflagged : Flagged t.state := hmoves.flagged fun j hbuffer _ => absurd (htunnel j).2 hbuffer
  constructor
  · rw [hmoves.total, (htunnel i).1]
    rfl
  · intro hbuffer hdata
    exact ⟨hflagged i hbuffer hdata, delivered_poll env hflagged hbuffer hdata⟩

/-- A tunnel gets three bytes and its owner asks for two of them; the third one waits for `Poll`. -/
theorem delivered_append_readData_poll : ∃ t : Impl Unit (Unit × List ClientEvent),
    delivered 0 t.state.log ++ (t.state.tunnel 0).readData = [7, 8, 9] ∧
      delivered 0 (poll plainEnv.recorded t.state).log = [7, 8, 9] := by
  obtain ⟨t, ht⟩ := Option.isSome_iff_exists.mp (show (Run.run (step plainEnv.recorded 256)
    (Impl.init () () [1]) ([.start, .own fun _ => ((), [.asyncReadSome 0 2]),
      .datagram 0x82 1 [0x40, 1, 3, 7, 8, 9],
      .own fun _ => ((), [.asyncReadSome 0 4])].map Event.recorded)).isSome = true from rfl)
  obtain ⟨h, hpoll⟩ :=
    delivered_append_readData plainEnv 256 () () [1] (by decide) _ t ht 0 1 rfl (by decide)
  obtain rfl := Option.some.inj ht
  refine ⟨_, h.trans ?_, (hpoll ?_ ?_).2.trans ?_⟩
  · rfl
  · decide
  · decide
  · rfl

end Mjlib.Multiplex.MicroServer

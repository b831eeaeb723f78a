import Mjlib.Multiplex.Equiv.MicroServer.Answered
import Mjlib.Multiplex.Equiv.MicroServer.TunnelReads
import Mjlib.Multiplex.Equiv.Response

/-!
# The bytes that leave a tunnel

A tunnel subframe takes data of the tunnel into the response and tells the tunnel's owner that it is
written; whether the response is sent is decided at the end of the frame.  `Sends` is what an operation
puts into the response of the frame, and `written_eq_sent` says that the bytes reported as written are
the tunnel data of the responses that were sent, in every run in which a frame that is discarded takes
no data.  A discarded frame that does loses it (`not_written_eq_sent`).
-/

namespace Mjlib.Multiplex.MicroServer

open Base (BufferWriteStream)
open RegisterReply (errorEntry replyHead)
open Response (Carries dataOf tunnelData tunnelHead)

variable {σ τ : Type*} (env : Env σ τ)

/-! ### The log -/

theorem writesOf_append (i : ℕ) (log log' : List ClientEvent) :
    writesOf i (log ++ log') = log'.foldl (Writes.next i) (writesOf i log) := List.foldl_append

/-- The log knows the data of every write that is pending. -/
def TracksLog (log : List ClientEvent) (s : State σ τ) : Prop :=
  ∀ i < s.tunnels.length, (writesOf i log).pending = (s.tunnel i).writeBuffer

/-- The log of the tunnels' owner knows the data of every write that is pending. -/
def Tracks (s : State σ (τ × List ClientEvent)) : Prop := TracksLog s.log s

theorem length_tunnelCall (s : State σ τ) (call : TunnelCall) :
    (tunnelCall s call).tunnels.length = s.tunnels.length :=
  length_tunnels_of_ids (ids_tunnelCall s call)

/-- A call of the owner, in its log. -/
theorem tracksLog_call {log : List ClientEvent} {s : State σ τ} (h : TracksLog log s)
    (call : TunnelCall) :
    TracksLog (log ++ [.call call]) (tunnelCall s call) ∧
      (∀ i, (writesOf i (log ++ [.call call])).done = (writesOf i log).done) ∧
      ∀ i, (s.tunnel i).writeBuffer ≠ [] →
        ((tunnelCall s call).tunnel i).writeBuffer = (s.tunnel i).writeBuffer := by
  have hnext : ∀ i, writesOf i (log ++ [.call call])
      = (writesOf i log).next i (.call call) := fun i => writesOf_append i log _
  cases call with
  | asyncReadSome j size =>
    have hwrite : ∀ i, ((tunnelCall s (.asyncReadSome j size)).tunnel i).writeBuffer
        = (s.tunnel i).writeBuffer := by
      intro i
      rw [tunnelCall]
      by_cases hj : (s.tunnel j).readBuffer = 0
      · rw [if_pos hj]
        change ((s.modifyTunnel j _).tunnel i).writeBuffer = _
        rw [tunnel_modifyTunnel]
        split_ifs <;> rfl
      · rw [if_neg hj]
    refine ⟨fun i hi => ?_, fun i => ?_, fun i _ => hwrite i⟩
    · rw [hnext, hwrite]
      exact h i (by rwa [length_tunnelCall] at hi)
    · rw [hnext]
      rfl
  | asyncWriteSome j data =>
    have hwrite : ∀ i, ((tunnelCall s (.asyncWriteSome j data)).tunnel i).writeBuffer
        = if (j = i ∧ i < s.tunnels.length) ∧ (s.tunnel i).writeBuffer = [] then data
          else (s.tunnel i).writeBuffer := by
      intro i
      rw [tunnelCall]
      by_cases hj : (s.tunnel j).writeBuffer = []
      · rw [if_pos hj, tunnel_modifyTunnel]
        by_cases hi : j = i ∧ i < s.tunnels.length
        · rw [if_pos hi, if_pos ⟨hi, hi.1 ▸ hj⟩]
        · rw [if_neg hi, if_neg fun h => hi h.1]
      · rw [if_neg hj, if_neg]
        rintro ⟨⟨rfl, -⟩, hi⟩
        exact hj hi
    refine ⟨fun i hi => ?_, fun i => ?_, fun i hi => ?_⟩
    · rw [length_tunnelCall] at hi
      rw [hnext, hwrite, Writes.next, h i hi]
      by_cases hj : j = i ∧ (s.tunnel i).writeBuffer = []
      · rw [if_pos hj, if_pos ⟨⟨hj.1, hi⟩, hj.2⟩]
      · rw [if_neg hj, if_neg fun h => hj ⟨h.1.1, h.2⟩]
        exact h i hi
    · rw [hnext, Writes.next]
      split_ifs <;> rfl
    · rw [hwrite, if_neg fun h => hi h.2]

/-- The calls that the owner makes from a callback. -/
theorem tracksLog_calls (calls : List TunnelCall) : ∀ {log : List ClientEvent} {s : State σ τ},
    TracksLog log s → TracksLog (log ++ calls.map .call) (calls.foldl tunnelCall s) ∧
      (∀ i, (writesOf i (log ++ calls.map .call)).done = (writesOf i log).done) ∧
      ∀ i, (s.tunnel i).writeBuffer ≠ [] →
        ((calls.foldl tunnelCall s).tunnel i).writeBuffer = (s.tunnel i).writeBuffer := by
  induction calls with
  | nil =>
    intro log s h
    rw [List.map_nil, List.append_nil]
    exact ⟨h, fun _ => rfl, fun _ _ => rfl⟩
  | cons call calls ih =>
    intro log s h
    obtain ⟨h1, h2, h3⟩ := tracksLog_call h call
    obtain ⟨ih1, ih2, ih3⟩ := ih h1
    rw [List.append_assoc] at ih1 ih2
    refine ⟨ih1, fun i => (ih2 i).trans (h2 i), fun i hi => ?_⟩
    have hi' := h3 i hi
    exact (ih3 i (by rwa [hi'])).trans hi'

/-! ### What is sent -/

/-- What an operation puts into the response: the pieces that are reported as written. -/
structure Sends (pieces : List (UInt32 × Bytes)) (s s' : State σ (τ × List ClientEvent)) : Prop where
  ids : s'.ids = s.ids
  tracks : Tracks s → Tracks s'
  done : Tracks s → ∀ i channel, s.ids[i]? = some channel → (writesOf i s'.log).done
    = (writesOf i s.log).done ++ if findTunnel channel s = some i then dataOf channel pieces else []
  keeps : Tracks s → pieces = [] → ∀ i, (s.tunnel i).writeBuffer ≠ [] →
    (s'.tunnel i).writeBuffer = (s.tunnel i).writeBuffer

section
variable {pieces pieces' : List (UInt32 × Bytes)} {s s' s'' : State σ (τ × List ClientEvent)}

theorem Sends.trans (h : Sends pieces s s') (h' : Sends pieces' s' s'') :
    Sends (pieces ++ pieces') s s'' where
  ids := h'.ids.trans h.ids
  tracks := fun hs => h'.tracks (h.tracks hs)
  done := by
    intro hs i channel hi
    rw [h'.done (h.tracks hs) i channel (h.ids ▸ hi), h.done hs i channel hi,
      findTunnel_of_ids h.ids]
    split_ifs
    · rw [Response.dataOf_append, List.append_assoc]
    · exact List.append_nil _
  keeps := by
    intro hs hnil i hi
    obtain ⟨rfl, rfl⟩ := List.append_eq_nil_iff.mp hnil
    have hi' := h.keeps hs rfl i hi
    exact (h'.keeps (h.tracks hs) rfl i (by rwa [hi'])).trans hi'

/-- Nothing is sent where the tunnels and their owner are left alone. -/
theorem Sends.of_eq (hclient : s'.client = s.client) (htunnels : s'.tunnels = s.tunnels) :
    Sends [] s s' := by
  have htunnel : ∀ i, s'.tunnel i = s.tunnel i := fun i => by rw [State.tunnel, htunnels]; rfl
  have hlog : s'.log = s.log := by rw [State.log, hclient]; rfl
  constructor
  · rw [State.ids, State.ids, htunnels]
  · intro hs i hi
    rw [hlog, htunnel]
    exact hs i (by rwa [htunnels] at hi)
  · intro _ i channel _
    rw [hlog]
    split_ifs <;> exact (List.append_nil _).symm
  · intro _ _ i _
    rw [htunnel]

theorem Sends.of_side (h : side s' = side s) : Sends [] s s' :=
  .of_eq (congrArg (·.1) h) (congrArg (·.2.1) h)

/-- The owner does something on its own, or is told of something else than a write. -/
theorem Sends.callback {client : τ} {log : List ClientEvent} {calls : List TunnelCall}
    (hids : s'.ids = s.ids) (hwrite : ∀ i, (s'.tunnel i).writeBuffer = (s.tunnel i).writeBuffer)
    (hlog : ∀ i, writesOf i log = writesOf i s.log) :
    Sends [] s (MicroServer.callback ((client, log ++ calls.map .call), calls) s') := by
  obtain ⟨h1, h2, -⟩ := callback_spec ((client, log ++ calls.map .call), calls) s'
  -- the calls are made from the state with the new client
  have htracks : Tracks s →
      TracksLog log { s' with client := (client, log ++ calls.map ClientEvent.call) } := by
    intro hs i hi
    change i < s'.tunnels.length at hi
    rw [hlog]
    exact (hs i (by rwa [length_tunnels_of_ids hids] at hi)).trans (hwrite i).symm
  constructor
  · exact h1.trans hids
  · intro hs
    unfold Tracks State.log
    rw [h2]
    exact (tracksLog_calls calls (htracks hs)).1
  · intro hs i channel _
    unfold State.log
    rw [h2]
    refine ((tracksLog_calls calls (htracks hs)).2.1 i).trans ?_
    rw [hlog]
    split_ifs <;> exact (List.append_nil _).symm
  · intro hs _ i hi
    refine Eq.trans ((tracksLog_calls calls (htracks hs)).2.2 i ?_) (hwrite i)
    change (s'.tunnel i).writeBuffer ≠ []
    rwa [hwrite]

/-- `DoReadTransfer` sends nothing. -/
theorem sends_doReadTransfer (j : ℕ) (s : State σ (τ × List ClientEvent)) :
    Sends [] s (doReadTransfer env.recorded j s).2 := by
  by_cases h : (s.tunnel j).readData = [] ∨ (s.tunnel j).readBuffer = 0
  · rw [doReadTransfer_false env h]
    exact .of_side rfl
  rw [not_or] at h
  rw [doReadTransfer, if_neg h.1, if_neg h.2]
  dsimp only
  generalize min (s.tunnel j).readBuffer (s.tunnel j).readData.length = toCopy
  have hcallback : ∀ bytes : Bytes, ∃ client calls, env.recorded.client.onRead s.client j bytes
      = ((client, (s.log ++ [.read j bytes]) ++ calls.map .call), calls) := by
    intro bytes
    refine ⟨(env.client.onRead s.client.1 j bytes).1, (env.client.onRead s.client.1 j bytes).2, ?_⟩
    rw [List.append_assoc]
    rfl
  obtain ⟨client, calls, hcall⟩ := hcallback ((s.tunnel j).readData.take toCopy)
  rw [hcall]
  refine .callback (ids_modifyTunnel s (by intro t; rfl) j) (fun i => ?_) fun i => ?_
  · rw [tunnel_modifyTunnel]
    split_ifs <;> rfl
  · rw [writesOf_append]
    rfl

/-- What is stored in a tunnel is not sent. -/
theorem sends_received (bytes : UInt32) (j : ℕ) (str : Bytes) (s : State σ (τ × List ClientEvent)) :
    Sends [] s (received env.recorded bytes j str s) := by
  obtain ⟨s₁, hs₁⟩ : ∃ s₁, s₁ = if bytes.toNat > (s.tunnel j).remainingSpace then
      { s with stats.receiveOverrun := s.stats.receiveOverrun + 1 }
    else s.modifyTunnel j (·.receive (str.take bytes.toNat)) := ⟨_, rfl⟩
  have hids : s₁.ids = s.ids := by
    rw [hs₁]
    split_ifs
    · rfl
    · exact ids_modifyTunnel s (fun t => TunnelStream.id_receive t _) j
  have hlog : s₁.log = s.log := by
    rw [hs₁]
    split_ifs <;> rfl
  have hwrite : ∀ i, (s₁.tunnel i).writeBuffer = (s.tunnel i).writeBuffer := by
    intro i
    rw [hs₁]
    split_ifs
    · rfl
    · rw [tunnel_modifyTunnel]
      split_ifs
      · rw [TunnelStream.receive]
        split_ifs <;> rfl
      · rfl
  have hstore : Sends [] s s₁ := by
    refine ⟨hids, fun hs i hi => ?_, fun _ i channel _ => ?_, fun _ _ i _ => hwrite i⟩
    · rw [hlog, hwrite]
      exact hs i (by rwa [length_tunnels_of_ids hids] at hi)
    · rw [hlog]
      split_ifs <;> exact (List.append_nil _).symm
  have hsends := hstore.trans (sends_doReadTransfer env j s₁)
  rw [received, ← hs₁]
  exact hsends.trans (.of_eq rfl rfl)

/-! ### The response of a tunnel -/

/-- No data of a tunnel goes into the response any more. -/
def Full (s : State σ τ) : Prop :=
  env.maxSize < kNeededOverhead ∨ ∀ w, s.response = some w → w.remaining < kNeededOverhead

/-- What bounds the number of bytes in a tunnel's response. -/
theorem toCopy_spec (env : Env σ τ) (maxBytes : Option UInt32) (i : ℕ) {s : State σ τ}
    {w : BufferWriteStream} (h : s.response = some w) :
    toCopy env maxBytes i s ≤ env.maxSize - kNeededOverhead ∧
      toCopy env maxBytes i s ≤ w.remaining - kNeededOverhead ∧
      toCopy env maxBytes i s ≤ ((s.tunnel i).writeBuffer.length : ℤ) ∧
      (0 ≤ toCopy env maxBytes i s ∨ toCopy env maxBytes i s = env.maxSize - kNeededOverhead ∨
        toCopy env maxBytes i s = w.remaining - kNeededOverhead) := by
  have hremaining : ((s.response.map (·.remaining)).getD 0) = w.remaining := by rw [h]; rfl
  unfold toCopy
  rw [hremaining]
  cases maxBytes with
  | none =>
    dsimp only
    omega
  | some maxBytes =>
    dsimp only
    omega

/-- The bytes of `response` are those of `w` and then `item`. -/
def Adds (w : BufferWriteStream) (item : Bytes) (response : Option BufferWriteStream) : Prop :=
  ∃ w', response = some w' ∧ w'.size = w.size ∧ w'.data = w.data ++ item

theorem Adds.respond {w : BufferWriteStream} {item : Bytes} {s : State σ τ}
    (h : Adds w item s.response) (bytes : Bytes) :
    Adds w (item ++ bytes) (s.respond bytes).response := by
  obtain ⟨w', hw', hsize, hdata⟩ := h
  refine ⟨w'.put bytes, ?_, hsize, ?_⟩
  · rw [State.respond, hw']
    rfl
  · rw [BufferWriteStream.put, hdata, List.append_assoc]

theorem Adds.refl {w : BufferWriteStream} {s : State σ τ} (h : s.response = some w) :
    Adds w [] s.response := ⟨w, h, rfl, (List.append_nil _).symm⟩

/-- The owner is told of a write: its data is what the response has. -/
theorem sends_written {channel : UInt32} {j size : ℕ} {s s' : State σ (τ × List ClientEvent)}
    (hj : findTunnel channel s = some j) (hclient : s'.client = s.client)
    (htunnels : s'.tunnels = s.tunnels) :
    Sends [(channel, (s.tunnel j).writeBuffer.take size)] s
      (callback (env.recorded.client.onWrite s'.client j size)
        (s'.modifyTunnel j fun t => { t with writeBuffer := [] })) := by
  obtain ⟨hlt, hchannel, -⟩ := List.findIdx?_eq_some_iff_getElem.mp hj
  have htunnel : ∀ i, s'.tunnel i = s.tunnel i := fun i => by rw [State.tunnel, htunnels]; rfl
  have hids' : s'.ids = s.ids := by rw [State.ids, State.ids, htunnels]
  obtain ⟨client, calls, hcall⟩ : ∃ client calls, env.recorded.client.onWrite s'.client j size
      = ((client, (s.log ++ [.written j size]) ++ calls.map .call), calls) := by
    refine ⟨(env.client.onWrite s'.client.1 j size).1, (env.client.onWrite s'.client.1 j size).2, ?_⟩
    rw [List.append_assoc, State.log, ← hclient]
    rfl
  rw [hcall]
  obtain ⟨s₁, hs₁⟩ : ∃ s₁ : State σ (τ × List ClientEvent),
      s₁ = s'.modifyTunnel j fun t => { t with writeBuffer := [] } := ⟨_, rfl⟩
  rw [← hs₁]
  have hids₁ : s₁.ids = s.ids := by
    rw [hs₁, ids_modifyTunnel s' (by intro t; rfl) j, hids']
  have hlen₁ := length_tunnels_of_ids hids₁
  have hbuffer : ∀ i, (s₁.tunnel i).writeBuffer = if j = i then [] else (s.tunnel i).writeBuffer := by
    intro i
    rw [hs₁, tunnel_modifyTunnel, htunnels, htunnel]
    by_cases hij : j = i
    · rw [if_pos ⟨hij, hij ▸ hlt⟩, if_pos hij]
    · rw [if_neg fun h => hij h.1, if_neg hij]
  have hnext : ∀ i, writesOf i (s.log ++ [.written j size])
      = (writesOf i s.log).next i (.written j size) := fun i => writesOf_append i s.log _
  obtain ⟨h1, h2, -⟩ :=
    callback_spec ((client, (s.log ++ [.written j size]) ++ calls.map .call), calls) s₁
  have hlog : (callback ((client, (s.log ++ [.written j size]) ++ calls.map .call), calls) s₁).log
      = (s.log ++ [.written j size]) ++ calls.map .call := congrArg Prod.snd h2
  have htracks : Tracks s → TracksLog (s.log ++ [.written j size])
      { s₁ with client := (client, s.log ++ [.written j size] ++ calls.map ClientEvent.call) } := by
    intro hs i hi
    change i < s₁.tunnels.length at hi
    change _ = (s₁.tunnel i).writeBuffer
    rw [hnext, hbuffer, Writes.next]
    split_ifs
    · rfl
    · exact hs i (by rwa [hlen₁] at hi)
  refine ⟨h1.trans hids₁, fun hs => ?_, fun hs i channel' hi => ?_, fun _ hnil => by simp at hnil⟩
  · rw [Tracks, hlog]
    exact (tracksLog_calls calls (htracks hs)).1
  · rw [hlog]
    refine ((tracksLog_calls calls (htracks hs)).2.1 i).trans ?_
    rw [hnext, Writes.next, Response.dataOf_singleton]
    obtain ⟨hilen, higet⟩ := List.getElem?_eq_some_iff.mp hi
    rw [State.ids, List.length_map] at hilen
    simp only [State.ids, List.getElem_map] at higet
    by_cases hij : j = i
    · subst hij
      have heq : channel = channel' := (beq_iff_eq.mp hchannel).symm.trans higet
      rw [if_pos rfl, ← heq, if_pos hj, if_pos rfl, hs j hlt]
    · rw [if_neg hij]
      split_ifs with hfind heq
      · rw [← heq, hj] at hfind
        exact absurd (Option.some.inj hfind) hij
      · exact (List.append_nil _).symm
      · exact (List.append_nil _).symm

/-- The response to a tunnel's subframe: data that is sent, or a length that is not positive. -/
theorem sends_tunnelResponse (channel : UInt32) (maxBytes : Option UInt32) {j : ℕ}
    {s : State σ (τ × List ClientEvent)} {w : BufferWriteStream} (hw : s.response = some w)
    (hsize : w.size < 2 ^ 31) (hj : findTunnel channel s = some j) :
    ∃ n : ℤ, n = toCopy env.recorded maxBytes j
        ((s.respondVaruint (UInt32.ofNat Subframe.kServerToClient)).respondVaruint channel) ∧
      (0 < n ∧ n < 2 ^ 31 ∧ (∃ data : Bytes, data.length = n.toNat ∧
        Sends [(channel, data)] s (tunnelResponse env.recorded channel maxBytes j s) ∧
        Adds w (tunnelHead channel (UInt32.ofNat n.toNat) ++ data)
          (tunnelResponse env.recorded channel maxBytes j s).response) ∨
      n ≤ 0 ∧ side (tunnelResponse env.recorded channel maxBytes j s) = side s ∧
        Adds w (tunnelHead channel (UInt32.ofNat (n % 2 ^ 32).toNat))
          (tunnelResponse env.recorded channel maxBytes j s).response) := by
  refine ⟨_, rfl, ?_⟩
  rw [tunnelResponse, hw, if_neg (by simp)]
  dsimp only
  have hadds := ((Adds.refl hw).respond (writeVaruint (UInt32.ofNat Subframe.kServerToClient))).respond
    (writeVaruint channel)
  rw [List.nil_append] at hadds
  change Adds w _ ((s.respondVaruint (UInt32.ofNat Subframe.kServerToClient)).respondVaruint
    channel).response at hadds
  have hclient : ((s.respondVaruint (UInt32.ofNat Subframe.kServerToClient)).respondVaruint
    channel).client = s.client := rfl
  have htunnels : ((s.respondVaruint (UInt32.ofNat Subframe.kServerToClient)).respondVaruint
    channel).tunnels = s.tunnels := rfl
  have hside : side ((s.respondVaruint (UInt32.ofNat Subframe.kServerToClient)).respondVaruint
    channel) = side s := rfl
  generalize ((s.respondVaruint (UInt32.ofNat Subframe.kServerToClient)).respondVaruint channel)
    = s₁ at hadds hclient htunnels hside ⊢
  have htunnel : s₁.tunnel j = s.tunnel j := by rw [State.tunnel, htunnels]; rfl
  obtain ⟨w₁, hw₁, hsize₁, hdata₁⟩ := id hadds
  obtain ⟨-, hroom, hbuffer, -⟩ := toCopy_spec env.recorded maxBytes j hw₁
  rw [htunnel] at hbuffer
  have hrem : w₁.remaining ≤ (w₁.size : ℤ) := by
    unfold BufferWriteStream.remaining
    omega
  generalize toCopy env.recorded maxBytes j s₁ = n at hroom hbuffer ⊢
  have hlt : n < 2 ^ 31 := by
    have hover : (0 : ℤ) ≤ kNeededOverhead := by decide
    omega
  have hhead := hadds.respond (writeVaruint (UInt32.ofNat (n % 2 ^ 32).toNat))
  rw [List.append_assoc] at hhead
  by_cases hpos : 0 < n
  · left
    have hmod : n % 2 ^ 32 = n := Int.emod_eq_of_lt hpos.le (by omega)
    rw [hmod] at hhead
    rw [if_pos hpos, hmod]
    refine ⟨hpos, hlt, (s.tunnel j).writeBuffer.take n.toNat, ?_, ?_, ?_⟩
    · rw [List.length_take]
      omega
    · exact sends_written env hj hclient htunnels
    · rw [response_callback]
      have hdata := hhead.respond ((s.tunnel j).writeBuffer.take n.toNat)
      rw [← htunnel] at hdata ⊢
      exact hdata
  · right
    rw [if_neg hpos]
    exact ⟨not_lt.mp hpos, hside, hhead⟩

end

/-! ### The response to a register subframe -/

section
variable {s : State σ τ} {w : BufferWriteStream} {item : Bytes}

theorem Adds.errorEntry (h : Adds w item s.response) (kind : ℕ) (reg : Register) (error : UInt32) :
    Adds w (item ++ RegisterReply.errorEntry kind reg error)
      (((s.respondVaruint (UInt32.ofNat kind)).respondVaruint reg).respondVaruint error).response := by
  have hadds := ((h.respond (writeVaruint (UInt32.ofNat kind))).respond (writeVaruint reg)).respond
    (writeVaruint error)
  rwa [List.append_assoc, List.append_assoc] at hadds

/-- A write is answered with error entries. -/
theorem adds_writeRegisters (type : ℕ) {n : ℕ} : ∀ {s : State σ τ} {item : Bytes} (reg : Register)
    (str : Bytes), Adds w item s.response → Carries item [] →
      ∃ item', Adds w item' (writeRegisters env type n reg str s).2.2.response ∧ Carries item' [] := by
  induction n with
  | zero => exact fun reg str h hitem => ⟨_, h, hitem⟩
  | succ n ih =>
    intro s item reg str h hitem
    rw [writeRegisters]
    rcases readValue type str with ⟨_ | value, str'⟩
    · exact ⟨item, h, hitem⟩
    dsimp only
    have hresponse : (serverWrite env reg value s).2.response = s.response := rfl
    generalize serverWrite env reg value s = r at hresponse ⊢
    obtain ⟨action, s'⟩ := r
    rw [← hresponse] at h
    have herror : ∀ error, Carries (item ++ RegisterReply.errorEntry Subframe.kWriteError reg error)
        [] := fun error =>
      hitem.append (Response.carries_errorEntry (Or.inl rfl) reg error)
    cases action with
    | success => exact ih _ _ h hitem
    | unknownRegister => exact ih _ _ (h.errorEntry Subframe.kWriteError reg 1) (herror 1)
    | notWriteable => exact ih _ _ (h.errorEntry Subframe.kWriteError reg 2) (herror 2)
    | discardRemaining => exact ⟨item, h, hitem⟩

theorem adds_processSubframeWrite (typeLength : ℕ) (str : Bytes) (hw : s.response = some w) :
    ∃ item, Adds w item (processSubframeWrite env typeLength str s).2.2.response ∧
      Carries item [] := by
  rw [processSubframeWrite]
  rcases readNumRegisters typeLength str with ⟨_ | n, str1⟩
  · exact ⟨[], .refl hw, Response.carries_nil⟩
  dsimp only
  rcases BufferReadStream.readVaruint str1 with ⟨_ | reg, str2⟩
  · exact ⟨[], .refl hw, Response.carries_nil⟩
  · exact adds_writeRegisters env _ _ _ (.refl hw) Response.carries_nil

/-- The loop of a read adds the values, or puts an error in the place of the reply. -/
theorem adds_readRegisters (htyped : env.server.Typed) {type : ℕ} (htype : type < 4)
    (head : Bytes) {n : ℕ} : ∀ {s : State σ τ} {values : List Value} (reg : Register),
      Adds w (head ++ values.flatMap Value.bytes) s.response → (∀ v ∈ values, v.index = type) →
      (∃ reg' error, Adds w (errorEntry Subframe.kReadError reg' error)
        (readRegisters env type w.data.length n reg s).2.response) ∨
      ∃ values' : List Value, values'.length = values.length + n ∧ (∀ v ∈ values', v.index = type) ∧
        Adds w (head ++ values'.flatMap Value.bytes)
          (readRegisters env type w.data.length n reg s).2.response := by
  induction n with
  | zero => exact fun {s values} reg h hvalues => Or.inr ⟨values, rfl, hvalues, h⟩
  | succ n ih =>
    intro s values reg h hvalues
    rw [readRegisters]
    have hresponse : (serverRead env reg type s).2.response = s.response := rfl
    have hread : (serverRead env reg type s).1 = env.server.read s.server reg type := rfl
    generalize serverRead env reg type s = r at hresponse hread ⊢
    obtain ⟨result, s'⟩ := r
    rw [← hresponse] at h
    dsimp only at h hread
    rcases result with value | error
    · have hvalue := htyped s.server reg type value htype hread.symm
      have hadds := h.respond value.bytes
      rw [List.append_assoc] at hadds
      have hflat : values.flatMap Value.bytes ++ value.bytes
          = (values ++ [value]).flatMap Value.bytes := by simp
      rw [hflat] at hadds
      rcases ih (reg + 1) hadds (fun v hv => by
        rcases List.mem_append.mp hv with hold | hnew
        · exact hvalues v hold
        · rw [List.mem_singleton.mp hnew]
          exact hvalue) with herror | ⟨values', hlen, hvalues', hadds'⟩
      · exact Or.inl herror
      · refine Or.inr ⟨values', ?_, hvalues', hadds'⟩
        rw [hlen, List.length_append, List.length_singleton]
        omega
    · left
      refine ⟨reg, error, ?_⟩
      obtain ⟨w', hw', hsize, hdata⟩ := h
      have hreset : Adds w [] (s'.resetResponse w.data.length).response := by
        refine ⟨w'.reset w.data.length, ?_, hsize, ?_⟩
        · rw [State.resetResponse, hw']
          rfl
        · rw [BufferWriteStream.reset, hdata, List.take_left', List.append_nil]
          rfl
      exact hreset.errorEntry Subframe.kReadError reg error

/-- A read is answered with its values, or an error entry. -/
theorem adds_processSubframeRead (htyped : env.server.Typed) {typeLength : ℕ} (hlt : typeLength < 16)
    (str : Bytes) (hw : s.response = some w) :
    ∃ item, Adds w item (processSubframeRead env typeLength str s).2.2.response ∧
      Carries item [] := by
  have hnil : ∃ item, Adds w item s.response ∧ Carries item [] :=
    ⟨[], .refl hw, Response.carries_nil⟩
  rw [processSubframeRead, hw, if_neg (by simp)]
  rcases hnum : readNumRegisters typeLength str with ⟨_ | numRegisters, str1⟩
  · exact hnil
  dsimp only
  rcases BufferReadStream.readVaruint str1 with ⟨_ | startRegister, str2⟩
  · exact hnil
  dsimp only
  have hposition : s.responsePosition = w.data.length := by
    rw [State.responsePosition, hw]
    rfl
  rw [hposition]
  -- the head of the reply
  obtain ⟨explicit, hexplicit⟩ : ∃ explicit : Bool, explicit = decide (typeLength % 4 = 0) := ⟨_, rfl⟩
  have hcount : explicit = false → 0 < numRegisters.toNat ∧ numRegisters.toNat < 4 ∧
      numRegisters.toNat = typeLength % 4 := by
    intro hfalse
    rw [hfalse] at hexplicit
    have hne : ¬ typeLength % 4 = 0 := of_decide_eq_false hexplicit.symm
    rw [readNumRegisters, if_neg hne] at hnum
    obtain rfl : UInt32.ofNat (typeLength % 4) = numRegisters :=
      Option.some.inj (congrArg Prod.fst hnum)
    rw [toNat_ofNat_of_lt (by omega)]
    omega
  have hid : UInt32.ofNat (Subframe.kReplyBase ||| (typeLength / 4 * 4) ||| (typeLength % 4))
      = UInt32.ofNat (Subframe.kReplyBase
        + (typeLength / 4 * 4 + if explicit then 0 else numRegisters.toNat)) := by
    rw [or_or_eq (by omega) (by omega)]
    cases hexp : explicit with
    | true =>
      rw [hexp] at hexplicit
      rw [of_decide_eq_true hexplicit.symm]
      rfl
    | false =>
      rw [(hcount hexp).2.2]
      rfl
  have hhead : Adds w (replyHead (typeLength / 4) startRegister numRegisters.toNat explicit)
      ((if typeLength % 4 = 0 then
        (s.respondVaruint (UInt32.ofNat (Subframe.kReplyBase ||| (typeLength / 4 * 4)
          ||| (typeLength % 4)))).respondVaruint numRegisters
        else s.respondVaruint (UInt32.ofNat (Subframe.kReplyBase ||| (typeLength / 4 * 4)
          ||| (typeLength % 4)))).respondVaruint startRegister).response := by
    rw [hid, replyHead]
    have h1 := (Adds.refl hw).respond (writeVaruint (UInt32.ofNat (Subframe.kReplyBase
      + (typeLength / 4 * 4 + if explicit then 0 else numRegisters.toNat))))
    rw [List.nil_append] at h1
    have hofNat : UInt32.ofNat numRegisters.toNat = numRegisters := UInt32.ofNat_toNat
    cases hexp : explicit with
    | true =>
      rw [hexp] at hexplicit h1
      rw [if_pos (of_decide_eq_true hexplicit.symm), if_pos rfl, hofNat]
      have h2 := (h1.respond (writeVaruint numRegisters)).respond (writeVaruint startRegister)
      rwa [List.append_assoc] at h2
    | false =>
      rw [hexp] at hexplicit h1
      rw [if_neg (of_decide_eq_false hexplicit.symm)]
      exact h1.respond (writeVaruint startRegister)
  have hloop : ∀ s₁ : State σ τ,
      Adds w (replyHead (typeLength / 4) startRegister numRegisters.toNat explicit) s₁.response →
      ∃ item, Adds w item (readRegisters env (typeLength / 4) w.data.length numRegisters.toNat
        startRegister s₁).2.response ∧ Carries item [] := by
    intro s₁ h₁
    have hstart : Adds w (replyHead (typeLength / 4) startRegister numRegisters.toNat explicit
        ++ ([] : List Value).flatMap Value.bytes) s₁.response := by simpa using h₁
    have htype : typeLength / 4 < 4 := by omega
    rcases adds_readRegisters env htyped (n := numRegisters.toNat) htype _ startRegister hstart
      (fun v hv => absurd hv List.not_mem_nil) with
      ⟨reg, error, hadds⟩ | ⟨values, hlen, hvalues, hadds⟩
    · exact ⟨_, hadds, Response.carries_errorEntry (Or.inr rfl) reg error⟩
    · rw [List.length_nil, Nat.zero_add] at hlen
      have hmax := numRegisters.toNat_lt
      have hcarries : Carries (replyHead (typeLength / 4) startRegister values.length explicit
          ++ values.flatMap Value.bytes) [] :=
        Response.carries_reply startRegister htype hvalues (by omega) fun hfalse => by
          have := hcount hfalse
          omega
      rw [hlen] at hcarries
      exact ⟨_, hadds, hcarries⟩
  exact hloop _ hhead

end

/-! ### Passes -/

section
variable {pieces pieces' : List (UInt32 × Bytes)} {s₀ s s' : State σ (τ × List ClientEvent)}
  {w : BufferWriteStream} {item : Bytes} {bufferSize : ℕ}

theorem response_received (bytes : UInt32) (i : ℕ) (str : Bytes) (s : State σ τ) :
    (received env bytes i str s).response = s.response := by
  rw [received]
  dsimp only
  rw [response_doReadTransfer]
  split_ifs <;> rfl

theorem side_tunnelResponse {channel : UInt32} {maxBytes : Option UInt32} {i : ℕ} {s : State σ τ}
    (h : ¬ HasData env channel maxBytes i s) :
    side (tunnelResponse env channel maxBytes i s) = side s := by
  rw [tunnelResponse]
  by_cases hr : s.response.isNone
  · rw [if_pos hr]
  rw [if_neg hr]
  dsimp only
  rw [if_neg]
  · rfl
  · intro hpos
    refine h ⟨?_, hpos⟩
    simpa [Option.isSome_iff_ne_none] using hr

/-- A pass that takes no data of a tunnel sends nothing. -/
theorem sends_processSubframe_of_not (str : Bytes)
    (h : s.response = none ∨ ¬ TakesData env.recorded str s) :
    Sends [] s (processSubframe env.recorded str s).2.2 := by
  have hnone : ∀ (s₁ : State σ (τ × List ClientEvent)) channel maxBytes i, s₁.response = s.response →
      (HasData env.recorded channel maxBytes i s₁ → TakesData env.recorded str s) →
        ¬ HasData env.recorded channel maxBytes i s₁ := by
    intro s₁ channel maxBytes i hs₁ htakes hdata
    rcases h with hr | hr
    · have := hdata.1
      rw [hs₁, hr] at this
      simp at this
    · exact hr (htakes hdata)
  cases pass_processSubframe env.recorded str s with
  | other _ h => exact .of_side h.1
  | write _ typeLength str₁ _ h => exact .of_side (h.1.trans (side_processSubframeWrite _ _ _ _))
  | read _ typeLength str₁ _ h => exact .of_side (h.1.trans (side_processSubframeRead _ _ _ _))
  | clientToServer channel bytes i str₁ _ htakes _ _ h =>
    rw [h]
    refine (sends_received env bytes i str₁ s).trans (.of_side (side_tunnelResponse _ ?_))
    exact hnone _ _ _ _ (response_received _ _ _ _ _) htakes
  | clientPollServer _ channel maxBytes i htakes _ h =>
    rw [h]
    exact .of_side (side_tunnelResponse _ (hnone _ _ _ _ rfl htakes))

/-- The bytes end in a tunnel's subframe with a length that was computed from a negative number, which
is at least -24 or what was left of the buffer less the overhead. -/
def Cut (bufferSize : ℕ) (data : Bytes) (pieces : List (UInt32 × Bytes)) : Prop :=
  ∃ front channel more, ∃ n : ℤ,
    data = front ++ (tunnelHead channel (UInt32.ofNat (n % 2 ^ 32).toNat) ++ more) ∧
      Carries front pieces ∧ n < 0 ∧ (-24 ≤ n ∨ (bufferSize : ℤ) - ((front
        ++ tunnelHead channel (UInt32.ofNat (n % 2 ^ 32).toNat)).length : ℤ) ≤ n + 23)

/-- What such a subframe is followed by is not read. -/
theorem Cut.tunnelData {data : Bytes} (h : Cut bufferSize data pieces)
    (hlen : data.length ≤ bufferSize) (hsize : bufferSize < 2 ^ 31) (channel : UInt32) :
    tunnelData channel data = dataOf channel pieces := by
  obtain ⟨front, channel', more, n, rfl, hcarries, hneg, hbound⟩ := h
  rw [List.length_append, List.length_append] at hlen
  rw [List.length_append, Nat.cast_add] at hbound
  have hmod : n % 2 ^ 32 = n + 2 ^ 32 := by omega
  have hnat : (UInt32.ofNat (n % 2 ^ 32).toNat).toNat = (n + 2 ^ 32).toNat := by
    rw [hmod, toNat_ofNat_of_lt (by omega)]
  rw [hcarries, Response.tunnelData_overlong channel channel' _ (by rw [hnat]; omega),
    List.append_nil]

/-- In a frame with a response, what was reported as written since its start is in the response. -/
def InFrame (bufferSize : ℕ) (s₀ s : State σ (τ × List ClientEvent)) : Prop :=
  ∃ pieces, Sends pieces s₀ s ∧ ∃ w, s.response = some w ∧ w.size = bufferSize ∧
    (Carries w.data pieces ∨ Full env.recorded s ∧ Cut bufferSize w.data pieces)

theorem Full.adds (h : Full env.recorded s) (hw : s.response = some w)
    (hadds : Adds w item s'.response) : Full env.recorded s' := by
  obtain ⟨w', hw', hsize, hdata⟩ := hadds
  refine h.imp_right fun hrem w₁ hw₁ => ?_
  obtain rfl : w' = w₁ := Option.some.inj (hw'.symm.trans hw₁)
  have hle := hrem w hw
  unfold BufferWriteStream.remaining BufferWriteStream.offset at hle ⊢
  rw [hsize, hdata, List.length_append]
  omega

/-- The response grows by an item that carries what is sent. -/
theorem InFrame.carries (h : InFrame env bufferSize s₀ s) (hw : s.response = some w)
    (hsends : Sends pieces' s s') (hadds : Adds w item s'.response) (hitem : Carries item pieces')
    (hfull : Full env.recorded s → pieces' = []) : InFrame env bufferSize s₀ s' := by
  obtain ⟨pieces, hsends₀, w₁, hw₁, hsize, hdata⟩ := h
  obtain rfl : w = w₁ := Option.some.inj (hw.symm.trans hw₁)
  obtain ⟨w', hw', hsize', hdata'⟩ := id hadds
  refine ⟨pieces ++ pieces', hsends₀.trans hsends, w', hw', hsize'.trans hsize, ?_⟩
  rw [hdata']
  rcases hdata with hcarries | ⟨hfull', front, channel, more, n, hsplit, hcut⟩
  · exact Or.inl (hcarries.append hitem)
  · refine Or.inr ⟨hfull'.adds env hw hadds, front, channel, more ++ item, n, ?_, ?_⟩
    · rw [hsplit, List.append_assoc, List.append_assoc]
    · rwa [hfull hfull', List.append_nil]

/-- The response to a tunnel's subframe. -/
theorem InFrame.tunnelResponse (hmax : -1 ≤ env.maxSize) (hbuffer : bufferSize < 2 ^ 31)
    (h : InFrame env bufferSize s₀ s) (channel : UInt32) (maxBytes : Option UInt32) {j : ℕ}
    (hj : findTunnel channel s = some j) :
    InFrame env bufferSize s₀ (tunnelResponse env.recorded channel maxBytes j s) := by
  obtain ⟨w, hw, hsize⟩ : ∃ w, s.response = some w ∧ w.size = bufferSize := by
    obtain ⟨_, _, w, hw, hsize, _⟩ := h
    exact ⟨w, hw, hsize⟩
  obtain ⟨n, hn, hsend⟩ := sends_tunnelResponse env channel maxBytes hw (hsize ▸ hbuffer) hj
  -- the number of bytes is computed when the first two numbers of the head are written
  have hadds := ((Adds.refl hw).respond (writeVaruint (UInt32.ofNat Subframe.kServerToClient))).respond
    (writeVaruint channel)
  obtain ⟨w₁, hw₁, hsize₁, hdata₁⟩ := hadds
  obtain ⟨hle, hroom, -, hwhich⟩ := toCopy_spec env.recorded maxBytes j hw₁
  change n = toCopy env.recorded maxBytes j _ at hn
  rw [State.respondVaruint, State.respondVaruint] at hn
  rw [← hn] at hle hroom hwhich
  have hover : kNeededOverhead = 23 := rfl
  have hrem₁ : w₁.remaining = (w.size : ℤ) - (w.data.length + ((writeVaruint (UInt32.ofNat
      Subframe.kServerToClient)).length + (writeVaruint channel).length) : ℕ) := by
    rw [BufferWriteStream.remaining, BufferWriteStream.offset, hsize₁, hdata₁]
    simp only [List.length_append, List.length_nil]
    omega
  have hrem : w.remaining = (w.size : ℤ) - w.data.length := rfl
  have hmax' : env.recorded.maxSize = env.maxSize := rfl
  rw [hover] at hle hroom hwhich
  rcases hsend with ⟨hpos, hlt, data, hlen, hsends, hadds⟩ | ⟨hle0, hside, hadds⟩
  · refine h.carries env hw hsends hadds ?_ fun hfull => ?_
    · refine Response.carries_serverToClient channel ?_
      rw [hlen, toNat_ofNat_of_lt (by omega)]
    · -- there was no room
      rcases hfull with hfull | hfull
      · rw [hover] at hfull
        omega
      · have := hfull w hw
        rw [hover] at this
        omega
  · have hsends : Sends [] s _ := .of_side hside
    rcases lt_or_eq_of_le hle0 with hneg | hzero
    · obtain ⟨pieces, hsends₀, w₂, hw₂, hsize₂, hdata₂⟩ := id h
      obtain rfl : w = w₂ := Option.some.inj (hw.symm.trans hw₂)
      obtain ⟨w', hw', hsize', hdata'⟩ := id hadds
      have hfull' : Full env.recorded (MicroServer.tunnelResponse env.recorded channel maxBytes j s) := by
        by_cases hsmall : env.recorded.maxSize < kNeededOverhead
        · exact Or.inl hsmall
        · refine Or.inr fun w₃ hw₃ => ?_
          obtain rfl : w' = w₃ := Option.some.inj (hw'.symm.trans hw₃)
          rw [hover] at hsmall ⊢
          rw [BufferWriteStream.remaining, BufferWriteStream.offset, hsize', hdata', tunnelHead]
          simp only [List.length_append]
          omega
      rcases hdata₂ with hcarries | hcut
      · refine ⟨pieces ++ [], hsends₀.trans hsends, w', hw', hsize'.trans hsize, Or.inr ⟨hfull', ?_⟩⟩
        refine ⟨w.data, channel, [], n, ?_, by rwa [List.append_nil], hneg, ?_⟩
        · rw [hdata', List.append_nil]
        · rw [tunnelHead]
          simp only [List.length_append]
          omega
      · obtain ⟨-, front, channel', more, n', hsplit, hcut'⟩ := hcut
        refine ⟨pieces ++ [], hsends₀.trans hsends, w', hw', hsize'.trans hsize, Or.inr ⟨hfull', ?_⟩⟩
        refine ⟨front, channel', more ++ tunnelHead channel (UInt32.ofNat (n % 2 ^ 32).toNat), n', ?_,
          by rwa [List.append_nil]⟩
        rw [hdata', hsplit, List.append_assoc, List.append_assoc]
    · subst hzero
      refine h.carries env hw hsends hadds ?_ fun _ => rfl
      -- a length of zero
      have hzero : Carries (tunnelHead channel 0 ++ []) [(channel, [])] :=
        Response.carries_serverToClient channel rfl
      intro channel' rest
      have hcarries := hzero channel' rest
      rw [List.append_nil, Response.dataOf_singleton] at hcarries
      refine Eq.trans hcarries ?_
      split_ifs <;> rfl

/-- **One pass** with a response. -/
theorem inFrame_processSubframe (htyped : env.server.Typed) (hmax : -1 ≤ env.maxSize)
    (hbuffer : bufferSize < 2 ^ 31) (h : InFrame env bufferSize s₀ s) (str : Bytes) :
    InFrame env bufferSize s₀ (processSubframe env.recorded str s).2.2 := by
  obtain ⟨w, hw⟩ : ∃ w, s.response = some w := by
    obtain ⟨_, _, w, hw, _⟩ := h
    exact ⟨w, hw⟩
  cases pass_processSubframe env.recorded str s with
  | other _ halike =>
    refine h.carries env hw (.of_side halike.1) ?_ Response.carries_nil fun _ => rfl
    rw [halike.2]
    exact .refl hw
  | write _ typeLength str₁ _ halike =>
    obtain ⟨item, hadds, hitem⟩ := adds_processSubframeWrite env.recorded typeLength str₁ hw
    refine h.carries env hw (.of_side (halike.1.trans (side_processSubframeWrite _ _ _ _)))
      ?_ hitem fun _ => rfl
    rw [halike.2]
    exact hadds
  | read _ typeLength str₁ hlt halike =>
    obtain ⟨item, hadds, hitem⟩ := adds_processSubframeRead env.recorded htyped hlt str₁ hw
    refine h.carries env hw (.of_side (halike.1.trans (side_processSubframeRead _ _ _ _)))
      ?_ hitem fun _ => rfl
    rw [halike.2]
    exact hadds
  | clientToServer channel bytes i str₁ _ _ _ hi hs' =>
    rw [hs']
    have hsends := sends_received env bytes i str₁ s
    have hreceived : InFrame env bufferSize s₀ (received env.recorded bytes i str₁ s) := by
      refine h.carries env hw hsends ?_ Response.carries_nil fun _ => rfl
      rw [response_received]
      exact .refl hw
    exact hreceived.tunnelResponse env hmax hbuffer channel none
      ((findTunnel_of_ids hsends.ids channel).trans hi)
  | clientPollServer _ channel maxBytes i _ hi hs' =>
    rw [hs']
    exact h.tunnelResponse env hmax hbuffer channel (some maxBytes) hi

/-! ### Frames -/

theorem response_processSubframe_of_none (str : Bytes) {s : State σ τ} (h : s.response = none) :
    (processSubframe env str s).2.2.response = none := by
  have hshape := congrArg Prod.fst (shape_processSubframe env s str)
  rw [shape, shape, State.hasResponse, State.hasResponse, h] at hshape
  exact Option.isNone_iff_eq_none.mp (Option.isSome_eq_false_iff.mp hshape)

/-- The position in the response's buffer was reached. -/
theorem offset_le_highWater (str : Bytes) {s : State σ τ} (hw : s.response = some w)
    (hle : w.offset ≤ w.highWater) {w' : BufferWriteStream}
    (hw' : (processSubframes env str s).response = some w') : w'.offset ≤ w'.highWater := by
  have hinv : ∃ w₁, (processSubframes env str s).response = some w₁ ∧ w₁.offset ≤ w₁.highWater := by
    have hpass : ∀ (str : Bytes) (s : State σ τ),
        (∃ w₁, s.response = some w₁ ∧ w₁.offset ≤ w₁.highWater) →
        ∃ w₁, (processSubframe env str s).2.2.response = some w₁ ∧ w₁.offset ≤ w₁.highWater := by
      rintro str s ⟨w₁, hw₁, hle₁⟩
      obtain ⟨size, w₂, hw₂, hoffset, hhigh, hsize⟩ := grew_processSubframe env hw₁ hle₁ str
      exact ⟨w₂, hw₂, by omega⟩
    exact processSubframes_invariant hpass ⟨w, hw, hle⟩
  obtain ⟨w₁, hw₁, hle₁⟩ := hinv
  obtain rfl : w' = w₁ := Option.some.inj (hw'.symm.trans hw₁)
  exact hle₁

/-- **A frame with a response**: what is reported as written in the frame is in the response. -/
theorem sends_processSubframes (htyped : env.server.Typed) (hmax : -1 ≤ env.maxSize)
    (hbuffer : bufferSize < 2 ^ 31) (str : Bytes) (hs : s.response = some (.new bufferSize))
    (hfits : AtHeads env.recorded (AnswerFits env.recorded bufferSize) str s) :
    ∃ pieces, Sends pieces s (processSubframes env.recorded str s) ∧
      ∃ w, (processSubframes env.recorded str s).response = some w ∧
        ∀ channel, tunnelData channel w.data = dataOf channel pieces := by
  have hstart : InFrame env bufferSize s s :=
    ⟨[], .of_side rfl, _, hs, rfl, Or.inl Response.carries_nil⟩
  have hinv : InFrame env bufferSize s (processSubframes env.recorded str s) := by
    have hpass := fun str s' (h : InFrame env bufferSize s s') =>
      inFrame_processSubframe env htyped hmax hbuffer h str
    exact processSubframes_invariant hpass hstart
  obtain ⟨pieces, hsends, w, hw, hsize, hdata⟩ := hinv
  refine ⟨pieces, hsends, w, hw, fun channel => ?_⟩
  rcases hdata with hcarries | ⟨-, hcut⟩
  · exact hcarries.tunnelData channel
  · -- the response fits its buffer
    have hoffset := offset_le_highWater env.recorded str hs le_rfl hw
    have hhigh : (processSubframes env.recorded str s).highWater ≤ bufferSize :=
      (highWater_processSubframes_le_iff env.recorded str s _ hs le_rfl).mpr ⟨Nat.zero_le _, hfits⟩
    rw [State.highWater, hw] at hhigh
    exact hcut.tunnelData (hoffset.trans hhigh) hbuffer channel

/-- A frame in which no data is taken, or without a response. -/
theorem sends_processSubframes_of_not (str : Bytes)
    (h : s.response = none ∨ AtHeads env.recorded (fun str s => ¬ TakesData env.recorded str s) str s) :
    Sends [] s (processSubframes env.recorded str s) := by
  rcases h with hr | hheads
  · have hpass : ∀ (str : Bytes) (s' : State σ (τ × List ClientEvent)),
        s'.response = none ∧ Sends [] s s' →
        (processSubframe env.recorded str s').2.2.response = none ∧
          Sends [] s (processSubframe env.recorded str s').2.2 := by
      rintro str s' ⟨hr', hsends⟩
      exact ⟨response_processSubframe_of_none env.recorded str hr',
        hsends.trans (sends_processSubframe_of_not env str (Or.inl hr'))⟩
    exact (processSubframes_invariant hpass ⟨hr, .of_side rfl⟩).2
  · have hpass : ∀ (str : Bytes) (s' : State σ (τ × List ClientEvent)),
        ¬ TakesData env.recorded str s' → Sends [] s s' →
          Sends [] s (processSubframe env.recorded str s').2.2 := fun str s' htakes hsends =>
      hsends.trans (sends_processSubframe_of_not env str (Or.inr htakes))
    exact processSubframes_induction hpass hheads (.of_side rfl)

end

/-! ### Runs -/

/-- At a datagram that is discarded, no tunnel subframe takes data of its tunnel; and the response of
any datagram fits its buffer. -/
def Kept (bufferSize : ℕ) (s : Impl σ τ) : Event τ → Prop
  | .datagram source destination subframes =>
    Addressed destination s.id →
      let start := frameStart env source destination s.id bufferSize s.writeOutstanding s.state
      (start.response.isSome = true → AtHeads env (AnswerFits env bufferSize) subframes start) ∧
        ((env.server.completeFrame (processSubframes env subframes start).server).2 = .discard →
          AtHeads env (fun str s => ¬ TakesData env str s) subframes start)
  | _ => True

/-- The application discards the frame. -/
def Discarded (bufferSize : ℕ) (s : Impl σ τ) : Event τ → Prop
  | .datagram source destination subframes =>
    Addressed destination s.id ∧ (env.server.completeFrame (processSubframes env subframes
      (frameStart env source destination s.id bufferSize s.writeOutstanding s.state)).server).2
        = .discard
  | _ => False

/-- The tunnel data of the responses that were sent, for one channel. -/
def sentData (channel : UInt32) (sent : List SentResponse) : Bytes :=
  sent.flatMap fun r => tunnelData channel r.data

/-- The bytes that were reported as written are those of the responses. -/
def WrittenEqSent (s : Impl σ (τ × List ClientEvent)) : Prop :=
  ∀ i channel, s.state.ids[i]? = some channel → (writesOf i s.state.log).done
    = if findTunnel channel s.state = some i then sentData channel s.sent else []

section
variable {pieces : List (UInt32 × Bytes)} {s s' : Impl σ (τ × List ClientEvent)} {bufferSize : ℕ}

/-- **A datagram**: what is reported as written is in the response that is sent. -/
theorem sends_handleReadDatagram (htyped : env.server.Typed) (hmax : -1 ≤ env.maxSize)
    (hbuffer : bufferSize < 2 ^ 31) (source destination : ℕ) (subframes : Bytes)
    (hkept : Kept env.recorded bufferSize s (.datagram source destination subframes))
    (hs' : s' = s.handleReadDatagram env.recorded bufferSize source destination subframes) :
    ∃ pieces, Sends pieces s.state s'.state ∧
      (∀ channel, sentData channel s'.sent = sentData channel s.sent ++ dataOf channel pieces) ∧
      (Discarded env.recorded bufferSize s (.datagram source destination subframes) →
        pieces = []) := by
  obtain ⟨response, hresponse⟩ : ∃ response, response = (processFrame env.recorded source destination
    s.id bufferSize s.writeOutstanding subframes s.state).1 := ⟨_, rfl⟩
  have hstate : s'.state = (processFrame env.recorded source destination s.id bufferSize
      s.writeOutstanding subframes s.state).2 := by
    rw [hs', Impl.handleReadDatagram]
    dsimp only
    rw [← hresponse]
    cases response <;> rfl
  have hsent : ∀ channel, sentData channel s'.sent = sentData channel s.sent
      ++ (response.map (tunnelData channel)).getD [] := by
    intro channel
    have hlist : s'.sent = s.sent
        ++ (response.map fun data => [⟨(s.id &&& 0x7f).toNat, source &&& 0x7f, data⟩]).getD [] := by
      rw [hs', Impl.handleReadDatagram]
      dsimp only
      rw [← hresponse]
      cases response with
      | none => exact (List.append_nil _).symm
      | some data => rfl
    rw [hlist, sentData, List.flatMap_append]
    cases response with
    | none => rfl
    | some data =>
      congr 1
      exact List.flatMap_singleton ..
  by_cases haddressed : Addressed destination s.id
  · obtain ⟨hfits, hdiscard⟩ := hkept haddressed
    obtain ⟨start, hstart⟩ : ∃ start, start = frameStart env.recorded source destination s.id bufferSize
      s.writeOutstanding s.state := ⟨_, rfl⟩
    rw [← hstart] at hfits hdiscard
    have hsends : Sends [] s.state start := .of_side (by rw [hstart]; rfl)
    obtain ⟨hanswer, hside⟩ := processFrame_of_addressed env.recorded source bufferSize
      s.writeOutstanding subframes s.state haddressed rfl
    rw [← hstart] at hanswer hside
    rw [← hresponse] at hanswer
    rw [← hstate] at hside
    have hnothing : Sends [] start (processSubframes env.recorded subframes start) → response = none →
        ∃ pieces, Sends pieces s.state s'.state ∧
          (∀ channel, sentData channel s'.sent = sentData channel s.sent ++ dataOf channel pieces) ∧
          (Discarded env.recorded bufferSize s (.datagram source destination subframes) →
            pieces = []) := by
      intro hloop hnone
      refine ⟨[], (hsends.trans hloop).trans (.of_side hside), fun channel => ?_, fun _ => rfl⟩
      rw [hsent, hnone]
      rfl
    by_cases haction : (env.recorded.server.completeFrame
        (processSubframes env.recorded subframes start).server).2 = .discard
    · rw [if_pos haction] at hanswer
      exact hnothing (sends_processSubframes_of_not env subframes (Or.inr (hdiscard haction))) hanswer
    · rw [if_neg haction] at hanswer
      rcases hr : start.response with _ | w
      · have hloop := sends_processSubframes_of_not env subframes (Or.inl hr)
        have hshape : (processSubframes env.recorded subframes start).response = none := by
          have hpass : ∀ (str : Bytes) (s' : State σ (τ × List ClientEvent)), s'.response = none →
              (processSubframe env.recorded str s').2.2.response = none := fun str s' h =>
            response_processSubframe_of_none env.recorded str h
          exact processSubframes_invariant hpass hr
        rw [hshape] at hanswer
        exact hnothing hloop hanswer
      · obtain rfl : w = .new bufferSize := by
          rw [hstart, frameStart] at hr
          dsimp only at hr
          split_ifs at hr
          exact (Option.some.inj hr).symm
        obtain ⟨pieces, hloop, w, hw, hdata⟩ :=
          sends_processSubframes env htyped hmax hbuffer subframes hr (hfits (by rw [hr]; rfl))
        rw [hw] at hanswer
        refine ⟨[] ++ pieces ++ [], (hsends.trans hloop).trans (.of_side hside), fun channel => ?_,
          fun hbad => absurd ?_ haction⟩
        · rw [hsent, hanswer, List.nil_append, List.append_nil, ← hdata]
          rfl
        · rw [hstart]
          exact hbad.2
  · obtain ⟨hnone, hside⟩ := processFrame_of_not_addressed env.recorded source bufferSize
      s.writeOutstanding subframes s.state haddressed
    rw [← hresponse] at hnone
    rw [← hstate] at hside
    refine ⟨[], .of_side hside, fun channel => ?_, fun _ => rfl⟩
    rw [hsent, hnone]
    rfl

/-- **One step**: what is reported as written is in the responses that are sent. -/
theorem sends_step (htyped : env.server.Typed) (hmax : -1 ≤ env.maxSize) (hbuffer : bufferSize < 2 ^ 31)
    (a : Event τ) (hkept : Kept env.recorded bufferSize s a.recorded)
    (hstep : step env.recorded bufferSize s a.recorded = some s') :
    ∃ pieces, Sends pieces s.state s'.state ∧
      (∀ channel, sentData channel s'.sent = sentData channel s.sent ++ dataOf channel pieces) ∧
      (Discarded env.recorded bufferSize s a.recorded → pieces = []) := by
  have hsame : ∀ s' : Impl σ (τ × List ClientEvent), Sends [] s.state s'.state → s'.sent = s.sent →
      ∃ pieces, Sends pieces s.state s'.state ∧
        (∀ channel, sentData channel s'.sent = sentData channel s.sent ++ dataOf channel pieces) ∧
        (Discarded env.recorded bufferSize s a.recorded → pieces = []) := fun s' hsends hsent =>
    ⟨[], hsends, fun channel => by rw [hsent]; exact (List.append_nil _).symm, fun _ => rfl⟩
  cases a with
  | start =>
    obtain rfl := Option.some.inj hstep
    exact hsame _ (.of_side rfl) rfl
  | datagram source destination subframes =>
    rw [Event.recorded, step] at hstep
    split_ifs at hstep
    exact sends_handleReadDatagram env htyped hmax hbuffer source destination subframes hkept
      (Option.some.inj hstep).symm
  | readError =>
    rw [Event.recorded, step] at hstep
    split_ifs at hstep
    obtain rfl := Option.some.inj hstep
    exact hsame _ (.of_side rfl) rfl
  | written =>
    rw [Event.recorded, step] at hstep
    split_ifs at hstep
    obtain rfl := Option.some.inj hstep
    exact hsame _ (.of_side rfl) rfl
  | poll =>
    obtain rfl := Option.some.inj hstep
    refine hsame _ ?_ rfl
    have htunnels : ∀ (tunnels : List ℕ) (b : Bool) (s : State σ (τ × List ClientEvent)),
        Sends [] s (pollTunnels env.recorded tunnels (b, s)).2 := by
      intro tunnels
      induction tunnels with
      | nil => exact fun b s => .of_side rfl
      | cons j tunnels ih => exact fun b s => (sends_doReadTransfer env j s).trans (ih _ _)
    by_cases hflag : s.state.anythingToDo = true
    · have hloop := htunnels (List.range s.state.tunnels.length) true s.state
      change Sends [] s.state (MicroServer.poll env.recorded s.state)
      rw [poll_eq env.recorded s.state hflag]
      split_ifs
      · exact hloop.trans (.of_eq rfl rfl)
      · exact hloop
    · change Sends [] s.state (MicroServer.poll env.recorded s.state)
      rw [MicroServer.poll, Bool.eq_false_iff.mpr hflag]
      exact .of_side rfl
  | own act =>
    obtain rfl := Option.some.inj hstep
    exact hsame _ (.callback rfl (fun _ => rfl) fun _ => rfl) rfl
  | config id =>
    obtain rfl := Option.some.inj hstep
    exact hsame _ (.of_side rfl) rfl

theorem WrittenEqSent.sends (h : WrittenEqSent s) (ht : Tracks s.state)
    (hsends : Sends pieces s.state s'.state)
    (hsent : ∀ channel, sentData channel s'.sent = sentData channel s.sent ++ dataOf channel pieces) :
    WrittenEqSent s' := by
  intro i channel hi
  rw [hsends.ids] at hi
  rw [hsends.done ht i channel hi, h i channel hi, findTunnel_of_ids hsends.ids, hsent]
  split_ifs <;> rfl

end

/-- **What is reported as written is sent**, in every run in which no discarded frame takes data of a
tunnel; and such a frame leaves the writes that are pending as they are. -/
theorem written_eq_sent (htyped : env.server.Typed) (hmax : -1 ≤ env.maxSize) (bufferSize : ℕ)
    (hbuffer : bufferSize < 2 ^ 31) (server : σ) (client : τ) (ids : List UInt32)
    (as : List (Event τ)) (t : Impl σ (τ × List ClientEvent))
    (hrun : Run.run (step env.recorded bufferSize) (Impl.init server client ids)
      (as.map Event.recorded) = some t)
    (hkept : Run.Guarded (step env.recorded bufferSize) (Kept env.recorded bufferSize)
      (Impl.init server client ids) (as.map Event.recorded)) :
    WrittenEqSent t ∧ ∀ (a : Event τ) (t' : Impl σ (τ × List ClientEvent)),
      Kept env.recorded bufferSize t a.recorded →
      step env.recorded bufferSize t a.recorded = some t' →
      Discarded env.recorded bufferSize t a.recorded → ∀ i, (t.state.tunnel i).writeBuffer ≠ [] →
        (t'.state.tunnel i).writeBuffer = (t.state.tunnel i).writeBuffer := by
  have hinit : Tracks (Impl.init server client ids : Impl σ (τ × List ClientEvent)).state ∧
      WrittenEqSent (Impl.init server client ids : Impl σ (τ × List ClientEvent)) := by
    constructor
    · intro i hi
      unfold Impl.init State.tunnel
      rw [List.getD_eq_getElem?_getD, List.getElem?_map]
      cases ids[i]? <;> rfl
    · intro i channel _
      split_ifs <;> rfl
  have hstep : ∀ s a s', Tracks s.state ∧ WrittenEqSent s →
      Kept env.recorded bufferSize s a ∧ (∃ b : Event τ, a = b.recorded) →
      step env.recorded bufferSize s a = some s' → Tracks s'.state ∧ WrittenEqSent s' := by
    rintro s _ s' ⟨ht, hw⟩ ⟨hkept, b, rfl⟩ hstep
    obtain ⟨pieces, hsends, hsent, -⟩ := sends_step env htyped hmax hbuffer b hkept hstep
    exact ⟨hsends.tracks ht, hw.sends ht hsends hsent⟩
  have hguard := Run.guarded_and_of_forall hkept fun a (ha : a ∈ as.map Event.recorded) =>
    show ∃ b : Event τ, a = b.recorded by
      obtain ⟨b, -, hb⟩ := List.mem_map.mp ha
      exact ⟨b, hb.symm⟩
  obtain ⟨ht, hw⟩ := Run.run_induction_of_guarded hstep hinit hguard hrun
  refine ⟨hw, fun a t' hkept' hstep' hdiscarded => ?_⟩
  obtain ⟨pieces, hsends, -, hnil⟩ := sends_step env htyped hmax hbuffer a hkept' hstep'
  exact hsends.keeps ht (hnil hdiscarded)

theorem plainEnv_typed : plainEnv.server.Typed := by
  intro st reg type value htype hread
  obtain rfl := ReadResult.value.inj hread
  have h : ∀ type : Fin 4, (Value.ofScalar type.val 0).index = type.val := by decide
  exact h ⟨type, htype⟩

/-- The owner of a tunnel writes two bytes, and a client polls for them. -/
theorem written_eq_sent_poll : ∃ t : Impl Unit (Unit × List ClientEvent),
    WrittenEqSent t ∧ writesOf 0 t.state.log = ⟨[], [7, 8]⟩ := by
  have hrun : (Run.run (step plainEnv.recorded 256) (Impl.init () () [1])
      ([.start, .own fun _ => ((), [.asyncWriteSome 0 [7, 8]]),
        .datagram 0x82 1 [0x42, 1, 16]].map Event.recorded)).isSome = true := rfl
  obtain ⟨t, ht⟩ := Option.isSome_iff_exists.mp hrun
  refine ⟨t, (written_eq_sent plainEnv plainEnv_typed (by decide) 256 (by decide) () () [1] _ t ht
    ?_).1, ?_⟩
  · refine Run.guarded_cons_of_eq rfl trivial (Run.guarded_cons_of_eq rfl trivial
      (Run.guarded_cons_of_eq rfl (fun _ => ⟨fun _ => ⟨?_, trivial⟩, ?_⟩) trivial))
    · unfold AnswerFits
      decide
    · exact fun hbad => absurd hbad (by decide)
  · obtain rfl := Option.some.inj ht
    rfl

/-- An application that discards every frame. -/
def discardingEnv : Env Unit Unit := { plainEnv with
  server := { plainEnv.server with completeFrame := fun _ => ((), .discard) } }

/-- The owner of a tunnel writes two bytes; a client polls for them in a frame that the application
discards: they are reported as written, and nothing is sent. -/
theorem not_written_eq_sent : ¬ ∀ (env : Env Unit Unit) (bufferSize : ℕ) (ids : List UInt32)
    (as : List (Event Unit)) (t : Impl Unit (Unit × List ClientEvent)),
    env.server.Typed → -1 ≤ env.maxSize → bufferSize < 2 ^ 31 →
    Run.run (step env.recorded bufferSize) (Impl.init () () ids) (as.map Event.recorded) = some t →
      WrittenEqSent t := by
  intro h
  have hwritten := h discardingEnv 256 [1] [.start, .own fun _ => ((), [.asyncWriteSome 0 [7, 8]]),
    .datagram 0x82 1 [0x42, 1, 16]] _ plainEnv_typed (by decide) (by decide) rfl 0 1 rfl
  exact absurd hwritten (by decide)

end Mjlib.Multiplex.MicroServer

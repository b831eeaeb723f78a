import Mjlib.Multiplex.Equiv.MicroServer.Lockstep
import Mjlib.Multiplex.MicroServerBuffer

/-!
# Who writes into `write_buffer_`

The handlers that work on the bytes of `write_buffer_` do what the others do, and never use a
`response_stream` that is null: each of them, and each of their error paths, either asks first or is
only reached behind one that has asked (`Refines`).  Without a response stream no byte of the buffer
changes.  A frame is processed with one only while no response is being written, so a response that is
being written stays as it is.

- `response_discipline`: in every run at most one `AsyncWrite` is outstanding, and while it is, no
  event changes `write_buffer_`.
-/

namespace Mjlib.Multiplex.MicroServer

variable {σ τ : Type*} {α β : Type*} {env : Env σ τ}

namespace Buffered

/-- There is a result: `mk` of the buffer and this state.  Without a response stream the buffer is as
it was, and there is one afterwards exactly if there was one before. -/
def Refines (b : Buffered σ τ) (result : Option α) (mk : Buffered σ τ → α) (s : State σ τ) : Prop :=
  ∃ writeBuffer, result = some (mk ⟨s, writeBuffer⟩) ∧
    s.response.isNone = b.state.response.isNone ∧ writeBuffer.length = b.writeBuffer.length ∧
    (b.state.response = none → writeBuffer = b.writeBuffer)

theorem refines_some (b : Buffered σ τ) (mk : Buffered σ τ → α) :
    Refines b (some (mk b)) mk b.state :=
  ⟨b.writeBuffer, rfl, rfl, rfl, fun _ => rfl⟩

/-- A change of the state that leaves the response alone, first. -/
theorem Refines.of_modify {b : Buffered σ τ} {s s' : State σ τ} {result : Option α}
    {mk : Buffered σ τ → α} (h : s.response.isNone = b.state.response.isNone)
    (hrefines : Refines ⟨s, b.writeBuffer⟩ result mk s') : Refines b result mk s' := by
  obtain ⟨writeBuffer, hresult, hnone, hlength, hkept⟩ := hrefines
  refine ⟨writeBuffer, hresult, hnone.trans h, hlength, fun hb => hkept ?_⟩
  simpa [hb] using h

/-- Two steps, one after the other. -/
theorem Refines.bind {b : Buffered σ τ} {result : Option α} {mk : Buffered σ τ → α} {s : State σ τ}
    {f : α → Option β} {mk' : Buffered σ τ → β} {s' : State σ τ} (h : Refines b result mk s)
    (hf : ∀ writeBuffer, Refines ⟨s, writeBuffer⟩ (f (mk ⟨s, writeBuffer⟩)) mk' s') :
    Refines b (result.bind f) mk' s' := by
  obtain ⟨writeBuffer, rfl, hnone, hlength, hkept⟩ := h
  obtain ⟨writeBuffer', hresult, hnone', hlength', hkept'⟩ := hf writeBuffer
  refine ⟨writeBuffer', hresult, hnone'.trans hnone, hlength'.trans hlength, fun h => ?_⟩
  rw [← hkept h]
  apply hkept'
  simpa [h] using hnone

theorem Refines.map {b : Buffered σ τ} {result : Option α} {mk : Buffered σ τ → α} {s : State σ τ}
    (h : Refines b result mk s) (f : α → β) :
    Refines b (result.map f) (fun b => f (mk b)) s := by
  obtain ⟨writeBuffer, rfl, hrest⟩ := h
  exact ⟨writeBuffer, rfl, hrest⟩

theorem length_store (offset : ℕ) (bytes buffer : Bytes) :
    (store offset bytes buffer).length = buffer.length := by
  simp only [store, List.length_take, List.length_append, List.length_drop]
  omega

/-! ### The response stream -/

variable {b : Buffered σ τ}

/-- A call through `response_stream`, where it is not null. -/
theorem refines_write (bytes : Bytes) (h : b.state.response.isSome) :
    Refines b (b.write bytes) id (b.state.respond bytes) := by
  obtain ⟨w, hw⟩ := Option.isSome_iff_exists.mp h
  refine ⟨store w.offset bytes b.writeBuffer, by simp [write, hw], ?_, length_store _ _ _, ?_⟩
  · simp [State.respond]
  · intro hnone
    cases hnone.symm.trans hw

theorem refines_writeVaruint (value : UInt32) (h : b.state.response.isSome) :
    Refines b (b.writeVaruint value) id (b.state.respondVaruint value) :=
  refines_write _ h

theorem refines_reset (position : ℕ) (h : b.state.response.isSome) :
    Refines b (b.reset position) id (b.state.resetResponse position) := by
  obtain ⟨w, hw⟩ := Option.isSome_iff_exists.mp h
  exact ⟨b.writeBuffer, by simp [reset, hw, modify], by simp [State.resetResponse], rfl, fun _ => rfl⟩

@[simp] theorem isSome_respond (s : State σ τ) (bytes : Bytes) :
    (s.respond bytes).response.isSome = s.response.isSome := by
  simp [State.respond]

@[simp] theorem isSome_respondVaruint (s : State σ τ) (value : UInt32) :
    (s.respondVaruint value).response.isSome = s.response.isSome :=
  isSome_respond s _

@[simp] theorem isSome_resetResponse (s : State σ τ) (position : ℕ) :
    (s.resetResponse position).response.isSome = s.response.isSome := by
  simp [State.resetResponse]

/-! ### The handlers -/

theorem refines_tunnelResponse (channel : UInt32) (maxBytes : Option UInt32) (i : ℕ)
    (b : Buffered σ τ) :
    Refines b (tunnelResponse env channel maxBytes i b) id
      (MicroServer.tunnelResponse env channel maxBytes i b.state) := by
  simp only [tunnelResponse, MicroServer.tunnelResponse]
  split
  · exact refines_some b id
  · rename_i hnull
    have hsome : b.state.response.isSome := by
      simpa [Option.isSome_iff_ne_none] using hnull
    refine (refines_writeVaruint _ hsome).bind fun _ => ?_
    refine (refines_writeVaruint _ (by simpa using hsome)).bind fun _ => ?_
    refine (refines_writeVaruint _ (by simpa using hsome)).bind fun _ => ?_
    simp only [id]
    split
    · refine (refines_write _ (by simpa using hsome)).bind fun _ => ?_
      refine Refines.of_modify ?_ (refines_some _ id)
      simp [State.modifyTunnel]
    · exact refines_some _ id

theorem refines_emitWriteError (reg : Register) (error : UInt32) (b : Buffered σ τ) :
    Refines b (emitWriteError reg error b) id (MicroServer.emitWriteError reg error b.state) := by
  simp only [emitWriteError, MicroServer.emitWriteError]
  split
  · rename_i hnull
    have hnone : b.state.response = none := by simpa using hnull
    have hstate : ∀ value, b.state.respondVaruint value = b.state := by
      intro value
      simp only [State.respondVaruint, State.respond, hnone, Option.map_none]
      rw [← hnone]
    rw [hstate, hstate, hstate]
    exact refines_some b id
  · rename_i hnull
    have hsome : b.state.response.isSome := by
      simpa [Option.isSome_iff_ne_none] using hnull
    refine (refines_writeVaruint _ hsome).bind fun _ => ?_
    refine (refines_writeVaruint _ (by simpa using hsome)).bind fun _ => ?_
    exact refines_writeVaruint _ (by simpa using hsome)

theorem refines_emitReadError (reg : Register) (error : UInt32) (h : b.state.response.isSome) :
    Refines b (emitReadError reg error b) id (MicroServer.emitReadError reg error b.state) := by
  refine (refines_writeVaruint _ h).bind fun _ => ?_
  refine (refines_writeVaruint _ (by simpa using h)).bind fun _ => ?_
  exact refines_writeVaruint _ (by simpa using h)

/-- What a handler returns, with the buffer in the place of the state. -/
def RefinesResult (b : Buffered σ τ) (result : Option (α × Bytes × Buffered σ τ))
    (r : α × Bytes × State σ τ) : Prop :=
  Refines b result (fun b => (r.1, r.2.1, b)) r.2.2

theorem refinesResult_some (value : α) (str : Bytes) (b : Buffered σ τ) :
    RefinesResult b (some (value, str, b)) (value, str, b.state) :=
  refines_some b fun b => (value, str, b)

theorem Refines.result {result : Option (Buffered σ τ)} {s : State σ τ} (h : Refines b result id s)
    (value : α) (str : Bytes) :
    RefinesResult b (result.map fun b => (value, str, b)) (value, str, s) :=
  h.map fun b => (value, str, b)

theorem RefinesResult.of_modify {s : State σ τ} {result : Option (α × Bytes × Buffered σ τ)}
    {r : α × Bytes × State σ τ} (h : s.response.isNone = b.state.response.isNone)
    (hrefines : RefinesResult ⟨s, b.writeBuffer⟩ result r) : RefinesResult b result r :=
  Refines.of_modify h hrefines

theorem Refines.bindResult {result : Option (Buffered σ τ)} {s : State σ τ}
    {f : Buffered σ τ → Option (α × Bytes × Buffered σ τ)} {r : α × Bytes × State σ τ}
    (h : Refines b result id s)
    (hf : ∀ writeBuffer, RefinesResult ⟨s, writeBuffer⟩ (f ⟨s, writeBuffer⟩) r) :
    RefinesResult b (result.bind f) r :=
  h.bind hf

theorem refines_processSubframeClientPollServer (str : Bytes) (b : Buffered σ τ) :
    RefinesResult b (processSubframeClientPollServer env str b)
      (MicroServer.processSubframeClientPollServer env str b.state) := by
  simp only [processSubframeClientPollServer, MicroServer.processSubframeClientPollServer]
  rcases BufferReadStream.readVaruint str with ⟨_ | channel, str⟩
  · exact refinesResult_some _ _ b
  · rcases BufferReadStream.readVaruint str with ⟨_ | maxBytes, str⟩
    · exact refinesResult_some _ _ b
    · dsimp only
      cases findTunnel channel b.state with
      | none => exact refinesResult_some _ _ b
      | some i => exact (refines_tunnelResponse _ _ _ b).result _ _

theorem refines_processSubframeClientToServer (str : Bytes) (b : Buffered σ τ) :
    RefinesResult b (processSubframeClientToServer env str b)
      (MicroServer.processSubframeClientToServer env str b.state) := by
  simp only [processSubframeClientToServer, MicroServer.processSubframeClientToServer]
  rcases BufferReadStream.readVaruint str with ⟨_ | channel, str⟩
  · exact refinesResult_some _ _ b
  · rcases BufferReadStream.readVaruint str with ⟨_ | bytes, str⟩
    · exact refinesResult_some _ _ b
    · by_cases hshort : str.length < bytes.toNat
      · simp only [hshort, if_true]
        exact refinesResult_some _ _ b
      · simp only [hshort, if_false]
        cases findTunnel channel b.state with
        | none => exact refinesResult_some _ _ b
        | some i =>
          by_cases hover : bytes.toNat > (b.state.tunnel i).remainingSpace
          · simp only [hover, if_true]
            refine RefinesResult.of_modify ?_ ((refines_tunnelResponse _ _ _ _).result _ _)
            simp [modify]
          · simp only [hover, if_false]
            refine RefinesResult.of_modify ?_ ((refines_tunnelResponse _ _ _ _).result _ _)
            simp [modify, State.modifyTunnel]

theorem refines_writeRegisters (type n : ℕ) (reg : Register) (str : Bytes) (b : Buffered σ τ) :
    RefinesResult b (writeRegisters env type n reg str b)
      (MicroServer.writeRegisters env type n reg str b.state) := by
  induction n generalizing reg str b with
  | zero => exact refinesResult_some _ _ b
  | succ n ih =>
    simp only [writeRegisters, MicroServer.writeRegisters]
    rcases readValue type str with ⟨_ | value, str⟩
    · exact refinesResult_some _ _ b
    · have hresponse : (serverWrite env reg value b.state).2.response = b.state.response := rfl
      rcases haction : serverWrite env reg value b.state with ⟨action, s⟩
      rw [haction] at hresponse
      have hnull : s.response.isNone = b.state.response.isNone := by rw [hresponse]
      simp only [haction]
      cases action with
      | success => exact RefinesResult.of_modify hnull (ih _ _ ⟨s, b.writeBuffer⟩)
      | unknownRegister =>
        refine RefinesResult.of_modify hnull ((refines_emitWriteError _ _ _).bindResult fun _ => ?_)
        exact ih _ _ _
      | notWriteable =>
        refine RefinesResult.of_modify hnull ((refines_emitWriteError _ _ _).bindResult fun _ => ?_)
        exact ih _ _ _
      | discardRemaining => exact RefinesResult.of_modify hnull (refinesResult_some _ _ _)

theorem refines_processSubframeWrite (typeLength : ℕ) (str : Bytes) (b : Buffered σ τ) :
    RefinesResult b (processSubframeWrite env typeLength str b)
      (MicroServer.processSubframeWrite env typeLength str b.state) := by
  simp only [processSubframeWrite, MicroServer.processSubframeWrite]
  rcases readNumRegisters typeLength str with ⟨_ | numRegisters, str⟩
  · exact refinesResult_some _ _ b
  · dsimp only
    rcases BufferReadStream.readVaruint str with ⟨_ | startRegister, str⟩
    · exact refinesResult_some _ _ b
    · exact refines_writeRegisters _ _ _ _ b

/-- The loop is only reached where there is a response stream. -/
theorem refines_readRegisters (type start n : ℕ) (reg : Register) (h : b.state.response.isSome) :
    Refines b (readRegisters env type start n reg b)
      (fun b' => ((MicroServer.readRegisters env type start n reg b.state).1, b'))
      (MicroServer.readRegisters env type start n reg b.state).2 := by
  induction n generalizing reg b with
  | zero => exact refines_some b _
  | succ n ih =>
    simp only [readRegisters, MicroServer.readRegisters]
    have hresponse : (serverRead env reg type b.state).2.response = b.state.response := rfl
    rcases hread : serverRead env reg type b.state with ⟨result, s⟩
    rw [hread] at hresponse
    have hnull : s.response.isNone = b.state.response.isNone := by rw [hresponse]
    have hsome : s.response.isSome := by rwa [hresponse]
    dsimp only
    cases result with
    | value value =>
      refine Refines.of_modify hnull ((refines_write _ hsome).bind fun _ => ?_)
      exact ih _ (by simpa using hsome)
    | error error =>
      refine Refines.of_modify hnull ((refines_reset _ hsome).bind fun _ => ?_)
      refine Refines.bind (refines_emitReadError _ _ (by simpa using hsome)) fun _ => ?_
      exact refines_some _ _

theorem refines_writeNumRegisters (typeLength : ℕ) (numRegisters : UInt32)
    (h : b.state.response.isSome) :
    Refines b (b.writeNumRegisters typeLength numRegisters) id
      (if typeLength % 4 = 0 then b.state.respondVaruint numRegisters else b.state) := by
  simp only [writeNumRegisters]
  split
  · exact refines_writeVaruint _ h
  · exact refines_some b id

theorem refines_processSubframeRead (typeLength : ℕ) (str : Bytes) (b : Buffered σ τ) :
    RefinesResult b (processSubframeRead env typeLength str b)
      (MicroServer.processSubframeRead env typeLength str b.state) := by
  simp only [processSubframeRead, MicroServer.processSubframeRead]
  by_cases hnull : b.state.response.isNone
  · simp only [hnull, if_true]
    exact refinesResult_some _ _ b
  · simp only [hnull, Bool.false_eq_true, if_false]
    have hsome : b.state.response.isSome := by
      simpa [Option.isSome_iff_ne_none] using hnull
    rcases readNumRegisters typeLength str with ⟨_ | numRegisters, str⟩
    · exact refinesResult_some _ _ b
    · dsimp only
      rcases BufferReadStream.readVaruint str with ⟨_ | startRegister, str⟩
      · exact refinesResult_some _ _ b
      · have hposition : b.position = some b.state.responsePosition := by
          obtain ⟨w, hw⟩ := Option.isSome_iff_exists.mp hsome
          simp [position, State.responsePosition, hw]
        simp only [hposition, Option.bind_some]
        refine (refines_writeVaruint _ hsome).bindResult fun _ => ?_
        refine (refines_writeNumRegisters _ _ (by simpa using hsome)).bindResult fun _ => ?_
        have hsome' : ∀ s : State σ τ, s.response.isSome → (if typeLength % 4 = 0 then
            s.respondVaruint numRegisters else s).response.isSome := by
          intro s hs
          split
          · simpa using hs
          · exact hs
        refine (refines_writeVaruint _ (hsome' _ (by simpa using hsome))).bindResult fun _ => ?_
        refine Refines.bind (refines_readRegisters _ _ _ _ ?_) fun _ => ?_
        · simpa using hsome' _ (by simpa using hsome)
        · exact refinesResult_some _ _ _

/-! ### Frames -/

theorem RefinesResult.malformed {result : Option (Bool × Bytes × Buffered σ τ)}
    {r : Bool × Bytes × State σ τ} (h : RefinesResult b result r) :
    RefinesResult b
      (result.map fun
        | (true, str, b) => (false, str, b.malformed)
        | (false, str, b) => (true, str, b))
      (match r with
        | (true, str, s) => (false, str, { s with
            stats.malformedSubframe := s.stats.malformedSubframe + 1 })
        | (false, str, s) => (true, str, s)) := by
  obtain ⟨writeBuffer, rfl, hrest⟩ := h
  obtain ⟨_ | _, str, s⟩ := r
  · exact ⟨writeBuffer, rfl, hrest⟩
  · exact ⟨writeBuffer, rfl, hrest⟩

theorem refines_processSubframe (str : Bytes) (b : Buffered σ τ) :
    RefinesResult b (processSubframe env str b)
      (MicroServer.processSubframe env str b.state) := by
  simp only [processSubframe, MicroServer.processSubframe]
  rcases BufferReadStream.readVaruint str with ⟨_ | subframeType, str⟩
  · exact RefinesResult.of_modify (by simp) (refinesResult_some _ _ _)
  · dsimp only
    by_cases hclient : subframeType.toNat = Subframe.kClientToServer
    · simp only [hclient, if_true]
      exact (refines_processSubframeClientToServer str b).malformed
    · simp only [hclient, if_false]
      by_cases hpoll : subframeType.toNat = Subframe.kClientPollServer
      · simp only [hpoll, if_true]
        exact (refines_processSubframeClientPollServer str b).malformed
      · simp only [hpoll, if_false]
        by_cases hnop : subframeType.toNat = Subframe.kNop
        · simp only [hnop, if_true]
          exact refinesResult_some _ _ b
        · simp only [hnop, if_false]
          by_cases hwrite : subframeType.toNat ≥ Subframe.kWriteBase ∧
              subframeType.toNat < Subframe.kWriteBase + 16
          · rw [if_pos hwrite, if_pos hwrite]
            have hresult : RefinesResult b (processSubframeWrite env _ str b) _ :=
              refines_processSubframeWrite (subframeType.toNat - Subframe.kWriteBase) str b
            generalize MicroServer.processSubframeWrite env
              (subframeType.toNat - Subframe.kWriteBase) str b.state = r at hresult ⊢
            obtain ⟨writeBuffer, hresult, hrest⟩ := hresult
            rw [hresult]
            obtain ⟨_ | _ | _, str, s⟩ := r
            · exact ⟨writeBuffer, rfl, hrest⟩
            · exact ⟨writeBuffer, rfl, hrest⟩
            · exact ⟨writeBuffer, rfl, hrest⟩
          · rw [if_neg hwrite, if_neg hwrite]
            by_cases hread : subframeType.toNat ≥ Subframe.kReadBase ∧
                subframeType.toNat < Subframe.kReadBase + 16
            · rw [if_pos hread, if_pos hread]
              exact (refines_processSubframeRead _ str b).malformed
            · rw [if_neg hread, if_neg hread]
              exact RefinesResult.of_modify (by simp) (refinesResult_some _ _ _)

theorem refines_processSubframesLoop (n : ℕ) (str : Bytes) (b : Buffered σ τ) :
    Refines b (processSubframesLoop env n str b) id
      (MicroServer.processSubframesLoop env n str b.state) := by
  induction n generalizing str b with
  | zero => exact refines_some b id
  | succ n ih =>
    simp only [processSubframesLoop, MicroServer.processSubframesLoop]
    split
    · exact refines_some b id
    · refine Refines.bind (refines_processSubframe str b) fun writeBuffer => ?_
      rcases MicroServer.processSubframe env str b.state with ⟨_ | _, rest, s⟩
      · exact refines_some _ id
      · exact ih _ _

/-- **A frame.** It is processed as before; while a response is being written it has none, and no
byte of the buffer changes. -/
theorem processFrame_eq (env : Env σ τ) (source destination : ℕ) (ownId : UInt8)
    (writeOutstanding : Bool) (subframes : Bytes) (b : Buffered σ τ) :
    ∃ response s writeBuffer,
      MicroServer.processFrame env source destination ownId b.writeBuffer.length writeOutstanding
        subframes b.state = (response, s) ∧
      processFrame env source destination ownId writeOutstanding subframes b =
        some (response, ⟨s, writeBuffer⟩) ∧
      writeBuffer.length = b.writeBuffer.length ∧
      (writeOutstanding = true → response = none ∧ writeBuffer = b.writeBuffer) := by
  simp only [processFrame, MicroServer.processFrame]
  -- the counter is the same
  have hcounted : ∀ P : Prop, [Decidable P] → (if P then b
      else b.modify fun s => { s with stats.wrongId := s.stats.wrongId + 1 }) =
      ⟨if P then b.state else { b.state with stats.wrongId := b.state.stats.wrongId + 1 },
        b.writeBuffer⟩ := by
    intro P _
    split <;> rfl
  rw [hcounted]
  generalize (if destination = (ownId &&& 0x7f).toNat ∧ destination ≠ kBroadcastId then b.state
    else { b.state with stats.wrongId := b.state.stats.wrongId + 1 }) = s
  by_cases hskip : ¬ (destination = (ownId &&& 0x7f).toNat ∧ destination ≠ kBroadcastId) ∧
      destination ≠ kBroadcastId
  · rw [if_pos hskip, if_pos hskip]
    exact ⟨none, s, b.writeBuffer, rfl, rfl, rfl, fun _ => ⟨rfl, rfl⟩⟩
  · rw [if_neg hskip, if_neg hskip]
    obtain ⟨stream, hstream, hnone⟩ : ∃ stream,
        (∀ [Decidable (source &&& 0x80 ≠ 0 ∧ (!writeOutstanding) = true)],
          (if source &&& 0x80 ≠ 0 ∧ (!writeOutstanding) = true then
            some (Base.BufferWriteStream.new b.writeBuffer.length) else none) = stream) ∧
        (writeOutstanding = true → stream = none) := by
      by_cases hneed : source &&& 0x80 ≠ 0 ∧ (!writeOutstanding) = true
      · exact ⟨_, if_pos hneed, fun hw => by simp [hw] at hneed⟩
      · exact ⟨_, if_neg hneed, fun _ => rfl⟩
    obtain ⟨writeBuffer, hresult, hnull, hlength, hkept⟩ := refines_processSubframesLoop
      subframes.length subframes (⟨{ s with
        server := env.server.startFrame s.server
        response := stream }, b.writeBuffer⟩ : Buffered σ τ)
    simp only [processSubframes, MicroServer.processSubframes, modify, hstream]
    rw [hresult]
    simp only [Option.map_some, id]
    generalize MicroServer.processSubframesLoop env _ _ _ = s' at hnull ⊢
    have hquiet : writeOutstanding = true → s'.response = none ∧ writeBuffer = b.writeBuffer := by
      intro hw
      refine ⟨?_, hkept (hnone hw)⟩
      rw [hnone hw] at hnull
      simpa using hnull
    cases (env.server.completeFrame s'.server).2 with
    | accept =>
      exact ⟨_, _, writeBuffer, rfl, rfl, hlength, fun hw =>
        ⟨by simp [(hquiet hw).1], (hquiet hw).2⟩⟩
    | discard => exact ⟨_, _, writeBuffer, rfl, rfl, hlength, fun hw => ⟨rfl, (hquiet hw).2⟩⟩

end Buffered

/-! ### Every run -/

namespace Device

/-- What holds in every state of a run. -/
structure Inv (bufferSize : ℕ) (d : Device σ τ) : Prop where
  writing : d.writing.length = if d.impl.writeOutstanding then 1 else 0
  length : d.writeBuffer.length = bufferSize

variable {bufferSize : ℕ} {d d' : Device σ τ}

theorem inv_init (server : σ) (client : τ) (ids : List UInt32) (writeBuffer : Bytes) :
    Inv writeBuffer.length (init server client ids writeBuffer) :=
  ⟨rfl, rfl⟩

theorem Inv.outstanding_iff (h : Inv bufferSize d) :
    d.writing ≠ [] ↔ d.impl.writeOutstanding = true := by
  have hwriting := h.writing
  cases hw : d.impl.writeOutstanding with
  | false =>
    rw [hw] at hwriting
    simpa using hwriting
  | true =>
    rw [hw] at hwriting
    simp only [if_true] at hwriting
    simp [List.ne_nil_of_length_pos (Nat.lt_of_lt_of_eq Nat.zero_lt_one hwriting.symm)]

theorem Inv.handleWrite (h : Inv bufferSize d) : Inv bufferSize d.handleWrite := by
  refine ⟨?_, h.length⟩
  have hwriting := h.writing
  simp only [Device.handleWrite, List.length_tail]
  split at hwriting <;> simp [hwriting]

/-- A datagram is processed without a failure; the buffer changes only if nothing is being written. -/
theorem handleReadDatagram_eq (env : Env σ τ) {inside : Device σ τ → Device σ τ}
    (hinside : inside = id ∨ inside = Device.handleWrite ∧ d.writing ≠ [])
    (source destination : ℕ) (subframes : Bytes) (h : Inv bufferSize d) :
    ∃ d', d.handleReadDatagram env inside source destination subframes = some d' ∧
      Inv bufferSize d' ∧ (d.writing ≠ [] → d'.writeBuffer = d.writeBuffer) := by
  obtain ⟨response, s, writeBuffer, -, hresult, hlength, hquiet⟩ := Buffered.processFrame_eq env
    source destination d.impl.id d.impl.writeOutstanding subframes ⟨d.impl.state, d.writeBuffer⟩
  have hwriting := h.writing
  simp only [handleReadDatagram, hresult, Option.bind_eq_bind, Option.bind_some]
  cases hw : d.impl.writeOutstanding with
  | true =>
    -- a response is being written: there is no other
    obtain ⟨rfl, hkept⟩ := hquiet hw
    obtain rfl | ⟨rfl, -⟩ := hinside
    · refine ⟨_, rfl, ⟨?_, ?_⟩, fun _ => hkept⟩
      · simp [Impl.maybeStartReadFrame, hwriting, hw]
      · exact hlength.trans h.length
    · refine ⟨_, rfl, ⟨?_, ?_⟩, fun _ => hkept⟩
      · simp [Device.handleWrite, Impl.maybeStartReadFrame, hwriting, hw]
      · exact hlength.trans h.length
  | false =>
    rw [hw] at hwriting
    have hnil : d.writing = [] := List.eq_nil_of_length_eq_zero (by simpa using hwriting)
    obtain rfl | ⟨-, hne⟩ := hinside
    · cases response with
      | none =>
        refine ⟨_, rfl, ⟨?_, ?_⟩, fun hne => absurd hnil hne⟩
        · simp [Impl.maybeStartReadFrame, hnil]
        · exact hlength.trans h.length
      | some data =>
        simp only [id, writeResponse]
        refine ⟨_, rfl, ⟨?_, ?_⟩, fun hne => absurd hnil hne⟩
        · simp [Impl.maybeStartReadFrame, Impl.writeResponse, hnil]
        · exact hlength.trans h.length
    · exact absurd hnil hne

/-- The events that do not touch the buffer. -/
theorem step_eq (env : Env σ τ) (event : DeviceEvent τ) (h : Inv bufferSize d)
    (hstep : step env d event = some d') :
    Inv bufferSize d' ∧ (d.writing ≠ [] → d'.writeBuffer = d.writeBuffer) := by
  cases event with
  | writtenInside source destination subframes =>
    simp only [step] at hstep
    split at hstep
    · rename_i hready
      obtain ⟨d'', heq, hinv, hkept⟩ := handleReadDatagram_eq env (Or.inr ⟨rfl, hready.2.2⟩) source
        destination subframes h
      obtain rfl : d'' = d' := Option.some.inj (heq.symm.trans hstep)
      exact ⟨hinv, hkept⟩
    · exact nomatch hstep
  | event event =>
    cases event with
    | start =>
      cases hstep
      exact ⟨⟨h.writing, h.length⟩, fun _ => rfl⟩
    | datagram source destination subframes =>
      simp only [step] at hstep
      split at hstep
      · obtain ⟨d'', heq, hinv, hkept⟩ := handleReadDatagram_eq env (Or.inl rfl) source destination
          subframes h
        obtain rfl : d'' = d' := Option.some.inj (heq.symm.trans hstep)
        exact ⟨hinv, hkept⟩
      · exact nomatch hstep
    | readError =>
      simp only [step] at hstep
      split at hstep
      · cases hstep
        exact ⟨⟨h.writing, h.length⟩, fun _ => rfl⟩
      · exact nomatch hstep
    | written =>
      simp only [step] at hstep
      split at hstep
      · cases hstep
        exact ⟨h.handleWrite, fun _ => rfl⟩
      · exact nomatch hstep
    | poll =>
      cases hstep
      exact ⟨⟨h.writing, h.length⟩, fun _ => rfl⟩
    | own act =>
      cases hstep
      exact ⟨⟨h.writing, h.length⟩, fun _ => rfl⟩
    | config id =>
      cases hstep
      exact ⟨⟨h.writing, h.length⟩, fun _ => rfl⟩

/-- Without a completion from inside, the server does what it does as `Impl`. -/
theorem impl_step (env : Env σ τ) (event : Event τ) (h : Inv bufferSize d) :
    (step env d (.event event)).map Device.impl = MicroServer.step env bufferSize d.impl event := by
  cases event with
  | datagram source destination subframes =>
    simp only [step, MicroServer.step, h.length]
    split
    · obtain ⟨response, s, writeBuffer, hbase, hresult, -, hquiet⟩ := Buffered.processFrame_eq env
        source destination d.impl.id d.impl.writeOutstanding subframes
        ⟨d.impl.state, d.writeBuffer⟩
      rw [h.length] at hbase
      simp only [handleReadDatagram, Impl.handleReadDatagram, hbase, hresult, Option.bind_eq_bind,
        Option.bind_some]
      cases response with
      | none => rfl
      | some data =>
        have hw : d.impl.writeOutstanding = false := by
          by_contra hw
          cases (hquiet (by simpa using hw)).1
        simp only [id, writeResponse, hw]
        rfl
    · rfl
  | written =>
    simp only [step, MicroServer.step, ← h.outstanding_iff]
    split <;> rfl
  | readError =>
    simp only [step, MicroServer.step]
    split <;> rfl
  | start => rfl
  | poll => rfl
  | own act => rfl
  | config id => rfl

/-- **The response buffer.** In every run at most one `AsyncWrite` of a response is outstanding;
while it is, no event changes a byte of `write_buffer_`; and a datagram that is received is processed
without a failed assertion or a null pointer. -/
theorem response_discipline (env : Env σ τ) (server : σ) (client : τ) (ids : List UInt32)
    (writeBuffer : Bytes) (events : List (DeviceEvent τ)) (d : Device σ τ)
    (h : Run.run (step env) (init server client ids writeBuffer) events = some d) :
    d.writing.length ≤ 1 ∧
    (∀ event d', step env d event = some d' → d.writing ≠ [] → d'.writeBuffer = d.writeBuffer) ∧
    (∀ source destination subframes, d.impl.readOutstanding = true →
      subframes.length ≤ writeBuffer.length →
      (step env d (.event (.datagram source destination subframes))).isSome ∧
      (d.writing ≠ [] → (step env d (.writtenInside source destination subframes)).isSome)) := by
  have hd : Inv writeBuffer.length d := Run.run_induction
    (fun d event d' hd hstep => (step_eq env event hd hstep).1)
    (inv_init server client ids writeBuffer) h
  refine ⟨?_, fun event d' hstep => (step_eq env event hd hstep).2, ?_⟩
  · rw [hd.writing]
    split <;> simp
  · intro source destination subframes hread hsize
    rw [← hd.length] at hsize
    constructor
    · obtain ⟨d', heq, -⟩ := handleReadDatagram_eq env (Or.inl rfl) source destination subframes hd
      simp [step, hread, hsize, heq]
    · intro hwriting
      obtain ⟨d', heq, -⟩ := handleReadDatagram_eq env (Or.inr ⟨rfl, hwriting⟩) source destination
        subframes hd
      simp [step, hread, hsize, hwriting, heq]

/-- A read of one register: from then on, until the response has been written, the buffer stays. -/
theorem response_discipline_read :
    ∃ d : Device Unit Unit,
      Run.run (step plainEnv) (init () () [] (List.replicate 8 0))
        [.event .start, .event (.datagram 0x82 1 [0x11, 0x05])] = some d ∧
      d.writeBuffer = [0x21, 0x05, 0, 0, 0, 0, 0, 0] ∧
      ∀ event d', step plainEnv d event = some d' → d'.writeBuffer = d.writeBuffer := by
  refine ⟨_, rfl, by decide, fun event d' hstep => ?_⟩
  exact (response_discipline plainEnv () () [] (List.replicate 8 0)
    [.event .start, .event (.datagram 0x82 1 [0x11, 0x05])] _ rfl).2.1 event d' hstep (by decide)

end Device

end Mjlib.Multiplex.MicroServer

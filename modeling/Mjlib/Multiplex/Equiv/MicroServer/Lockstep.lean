import Mjlib.Multiplex.Equiv.MicroServer.Loop

/-!
# Two runs of `ProcessSubframes` in lockstep

How a frame is parsed depends on a few things only: the state of the server, the ids of the tunnels
(`core`), whether there is a response, and whether the data of a tunnel subframe fits its tunnel
(`overruns`).  `processSubframe_agree` says so for one pass; `InStep` is the condition, at every head
of the loop, under which two runs stay together, and `core_processSubframes` what follows: the same
calls of the server.
-/

namespace Mjlib.Multiplex.MicroServer

variable {σ τ : Type*} (env : Env σ τ)

/-! ### What decides how a frame is parsed -/

/-- The part of the state that the calls of the server depend on. -/
def core (s : State σ τ) : σ × List Call × List UInt32 :=
  (s.server, s.calls, s.tunnels.map (·.id))

/-- There is a response. -/
def State.hasResponse (s : State σ τ) : Bool := s.response.isSome

/-- The data of a client-to-server subframe, of which the type has been read, does not fit its
tunnel. -/
def dataOverruns (str : Bytes) (s : State σ τ) : Bool :=
  let (maybeChannel, str) := BufferReadStream.readVaruint str
  let (maybeBytes, str) := BufferReadStream.readVaruint str
  match maybeChannel, maybeBytes with
  | some channel, some bytes =>
    if str.length < bytes.toNat then false
    else match findTunnel channel s with
      | none => false
      | some i => bytes.toNat > (s.tunnel i).remainingSpace
  | _, _ => false

/-- The next subframe carries data for a tunnel that has no room for it. -/
def overruns (str : Bytes) (s : State σ τ) : Bool :=
  match BufferReadStream.readVaruint str with
  | (some subframeType, str) =>
    subframeType.toNat = Subframe.kClientToServer && dataOverruns str s
  | _ => false

/-- The next subframe reads registers. -/
def isRead (str : Bytes) : Bool :=
  match BufferReadStream.readVaruint str with
  | (some subframeType, _) =>
    subframeType.toNat ≥ Subframe.kReadBase ∧ subframeType.toNat < Subframe.kReadBase + 16
  | _ => false

/-! ### What leaves it alone -/

section
variable (s : State σ τ)

@[simp] theorem core_respond (bytes : Bytes) : core (s.respond bytes) = core s := rfl

@[simp] theorem core_respondVaruint (v : UInt32) : core (s.respondVaruint v) = core s := rfl

@[simp] theorem core_resetResponse (position : ℕ) : core (s.resetResponse position) = core s := rfl

@[simp] theorem core_emitWriteError (reg : Register) (error : UInt32) :
    core (emitWriteError reg error s) = core s := rfl

@[simp] theorem core_emitReadError (reg : Register) (error : UInt32) :
    core (emitReadError reg error s) = core s := rfl

theorem core_modifyTunnel {f : TunnelStream → TunnelStream} (hf : ∀ t, (f t).id = t.id) (i : ℕ) :
    core (s.modifyTunnel i f) = core s := by
  have h : (s.tunnels.modify i f).map (·.id) = s.tunnels.map (·.id) := by
    apply List.ext_getElem?
    intro j
    rw [List.getElem?_map, List.getElem?_map, List.getElem?_modify]
    cases s.tunnels[j]? with
    | none => rfl
    | some t =>
      by_cases hij : i = j
      · simp [hij, hf]
      · simp [hij]
  rw [core, State.modifyTunnel, h, core]

@[simp] theorem core_tunnelCall (call : TunnelCall) : core (tunnelCall s call) = core s := by
  cases call with
  | asyncReadSome i size =>
    rw [tunnelCall]
    split_ifs
    · exact core_modifyTunnel s (by intro t; rfl) i
    · rfl
  | asyncWriteSome i data =>
    rw [tunnelCall]
    split_ifs
    · exact core_modifyTunnel s (by intro t; rfl) i
    · rfl

@[simp] theorem core_foldl_tunnelCall (calls : List TunnelCall) :
    core (calls.foldl tunnelCall s) = core s := by
  induction calls generalizing s with
  | nil => rfl
  | cons call calls ih => rw [List.foldl_cons, ih, core_tunnelCall]

@[simp] theorem core_callback (result : τ × List TunnelCall) :
    core (callback result s) = core s := core_foldl_tunnelCall _ _

theorem TunnelStream.id_receive (t : TunnelStream) (bytes : Bytes) :
    (t.receive bytes).id = t.id := by
  rw [receive]
  split_ifs <;> rfl

@[simp] theorem core_doReadTransfer (i : ℕ) : core (doReadTransfer env i s).2 = core s := by
  rw [doReadTransfer]
  split_ifs
  · rfl
  · rfl
  · rw [core_callback, core_modifyTunnel s (by intro t; rfl)]

@[simp] theorem core_tunnelResponse (channel : UInt32) (maxBytes : Option UInt32) (i : ℕ) :
    core (tunnelResponse env channel maxBytes i s) = core s := by
  rw [tunnelResponse]
  dsimp only
  split_ifs
  · rfl
  · rw [core_callback, core_modifyTunnel _ (by intro t; rfl)]
    rfl
  · rfl

@[simp] theorem hasResponse_respond (bytes : Bytes) :
    (s.respond bytes).hasResponse = s.hasResponse := Option.isSome_map

@[simp] theorem hasResponse_respondVaruint (v : UInt32) :
    (s.respondVaruint v).hasResponse = s.hasResponse := Option.isSome_map

@[simp] theorem hasResponse_resetResponse (position : ℕ) :
    (s.resetResponse position).hasResponse = s.hasResponse := Option.isSome_map

@[simp] theorem hasResponse_emitWriteError (reg : Register) (error : UInt32) :
    (emitWriteError reg error s).hasResponse = s.hasResponse := by
  simp [emitWriteError]

@[simp] theorem hasResponse_emitReadError (reg : Register) (error : UInt32) :
    (emitReadError reg error s).hasResponse = s.hasResponse := by
  simp [emitReadError]

theorem response_tunnelCall (call : TunnelCall) : (tunnelCall s call).response = s.response := by
  cases call with
  | asyncReadSome i size =>
    rw [tunnelCall]
    split_ifs <;> rfl
  | asyncWriteSome i data =>
    rw [tunnelCall]
    split_ifs <;> rfl

@[simp] theorem response_callback (result : τ × List TunnelCall) :
    (callback result s).response = s.response := by
  have h : ∀ (calls : List TunnelCall) (s : State σ τ),
      (calls.foldl tunnelCall s).response = s.response := by
    intro calls
    induction calls with
    | nil => intro s; rfl
    | cons call calls ih => intro s; rw [List.foldl_cons, ih, response_tunnelCall]
  exact h _ _

@[simp] theorem response_doReadTransfer (i : ℕ) :
    (doReadTransfer env i s).2.response = s.response := by
  rw [doReadTransfer]
  split_ifs
  · rfl
  · rfl
  · rw [response_callback]
    rfl

@[simp] theorem hasResponse_tunnelResponse (channel : UInt32) (maxBytes : Option UInt32) (i : ℕ) :
    (tunnelResponse env channel maxBytes i s).hasResponse = s.hasResponse := by
  rw [tunnelResponse]
  dsimp only
  split_ifs
  · rfl
  · rw [State.hasResponse, response_callback]
    simp only [State.modifyTunnel, State.respond, State.respondVaruint, Option.isSome_map,
      State.hasResponse]
  · simp

end

/-! ### One pass in lockstep -/

section
variable {s₁ s₂ : State σ τ}

theorem findTunnel_agree (h : core s₁ = core s₂) (id : UInt32) :
    findTunnel id s₁ = findTunnel id s₂ := by
  have hids : s₁.tunnels.map (·.id) = s₂.tunnels.map (·.id) := congrArg (·.2.2) h
  have hfind : ∀ tunnels : List TunnelStream,
      tunnels.findIdx? (·.id == id) = (tunnels.map (·.id)).findIdx? (· == id) := by
    intro tunnels
    rw [List.findIdx?_map]
    rfl
  rw [findTunnel, findTunnel, hfind, hfind, hids]

theorem serverWrite_agree (h : core s₁ = core s₂) (reg : Register) (value : Value) :
    (serverWrite env reg value s₁).1 = (serverWrite env reg value s₂).1 ∧
      core (serverWrite env reg value s₁).2 = core (serverWrite env reg value s₂).2 := by
  simp only [core, Prod.mk.injEq] at h
  obtain ⟨hserver, hcalls, hids⟩ := h
  simp only [serverWrite, core, hserver, hcalls, hids, and_self]

theorem serverRead_agree (h : core s₁ = core s₂) (reg : Register) (type : ℕ) :
    (serverRead env reg type s₁).1 = (serverRead env reg type s₂).1 ∧
      core (serverRead env reg type s₁).2 = core (serverRead env reg type s₂).2 := by
  simp only [core, Prod.mk.injEq] at h
  obtain ⟨hserver, hcalls, hids⟩ := h
  simp only [serverRead, core, hserver, hcalls, hids, and_self]

theorem writeRegisters_agree (type : ℕ) {n : ℕ} : ∀ {s₁ s₂ : State σ τ} (reg : Register)
    (str : Bytes), core s₁ = core s₂ →
    (writeRegisters env type n reg str s₁).1 = (writeRegisters env type n reg str s₂).1 ∧
    (writeRegisters env type n reg str s₁).2.1 = (writeRegisters env type n reg str s₂).2.1 ∧
    core (writeRegisters env type n reg str s₁).2.2
      = core (writeRegisters env type n reg str s₂).2.2 := by
  induction n with
  | zero => intro s₁ s₂ reg str h; exact ⟨rfl, rfl, h⟩
  | succ n ih =>
    intro s₁ s₂ reg str h
    simp only [writeRegisters]
    rcases readValue type str with ⟨_ | value, str'⟩
    · exact ⟨rfl, rfl, h⟩
    · obtain ⟨ha, hc⟩ := serverWrite_agree env h reg value
      dsimp only
      generalize serverWrite env reg value s₁ = r₁ at ha hc ⊢
      generalize serverWrite env reg value s₂ = r₂ at ha hc ⊢
      obtain ⟨a₁, s₁'⟩ := r₁
      obtain ⟨a₂, s₂'⟩ := r₂
      dsimp only at ha hc
      subst ha
      cases a₁ with
      | success => exact ih _ _ hc
      | unknownRegister => exact ih _ _ hc
      | notWriteable => exact ih _ _ hc
      | discardRemaining => exact ⟨rfl, rfl, hc⟩

theorem readRegisters_agree (type start₁ start₂ : ℕ) {n : ℕ} : ∀ {s₁ s₂ : State σ τ}
    (reg : Register), core s₁ = core s₂ →
    (readRegisters env type start₁ n reg s₁).1 = (readRegisters env type start₂ n reg s₂).1 ∧
    core (readRegisters env type start₁ n reg s₁).2
      = core (readRegisters env type start₂ n reg s₂).2 := by
  induction n with
  | zero => intro s₁ s₂ reg h; exact ⟨rfl, h⟩
  | succ n ih =>
    intro s₁ s₂ reg h
    simp only [readRegisters]
    obtain ⟨ha, hc⟩ := serverRead_agree env h reg type
    generalize serverRead env reg type s₁ = r₁ at ha hc ⊢
    generalize serverRead env reg type s₂ = r₂ at ha hc ⊢
    obtain ⟨a₁, s₁'⟩ := r₁
    obtain ⟨a₂, s₂'⟩ := r₂
    dsimp only at ha hc
    subst ha
    cases a₁ with
    | value value => exact ih _ hc
    | error error => exact ⟨rfl, hc⟩

theorem processSubframeWrite_agree (typeLength : ℕ) (str : Bytes) (h : core s₁ = core s₂) :
    (processSubframeWrite env typeLength str s₁).1
      = (processSubframeWrite env typeLength str s₂).1 ∧
    (processSubframeWrite env typeLength str s₁).2.1
      = (processSubframeWrite env typeLength str s₂).2.1 ∧
    core (processSubframeWrite env typeLength str s₁).2.2
      = core (processSubframeWrite env typeLength str s₂).2.2 := by
  simp only [processSubframeWrite]
  rcases readNumRegisters typeLength str with ⟨_ | n, str1⟩
  · exact ⟨rfl, rfl, h⟩
  dsimp only
  rcases BufferReadStream.readVaruint str1 with ⟨_ | reg, str2⟩
  · exact ⟨rfl, rfl, h⟩
  · exact writeRegisters_agree env _ _ _ h

theorem processSubframeRead_agree (typeLength : ℕ) (str : Bytes) (h : core s₁ = core s₂)
    (hr : s₁.hasResponse = s₂.hasResponse) :
    (processSubframeRead env typeLength str s₁).1
      = (processSubframeRead env typeLength str s₂).1 ∧
    (processSubframeRead env typeLength str s₁).2.1
      = (processSubframeRead env typeLength str s₂).2.1 ∧
    core (processSubframeRead env typeLength str s₁).2.2
      = core (processSubframeRead env typeLength str s₂).2.2 := by
  have hnone : s₁.response.isNone = s₂.response.isNone := by
    rw [← Option.not_isSome, ← Option.not_isSome]
    exact congrArg (!·) hr
  simp only [processSubframeRead, hnone]
  by_cases hn : s₂.response.isNone
  · rw [if_pos hn, if_pos hn]
    exact ⟨rfl, rfl, h⟩
  rw [if_neg hn, if_neg hn]
  rcases readNumRegisters typeLength str with ⟨_ | n, str1⟩
  · exact ⟨rfl, rfl, h⟩
  dsimp only
  rcases BufferReadStream.readVaruint str1 with ⟨_ | reg, str2⟩
  · exact ⟨rfl, rfl, h⟩
  dsimp only
  refine (fun h' => ⟨h'.1, rfl, h'.2⟩) (readRegisters_agree env _ _ _ reg ?_)
  split_ifs
  · exact h
  · exact h

theorem processSubframeClientPollServer_agree (str : Bytes) (h : core s₁ = core s₂) :
    (processSubframeClientPollServer env str s₁).1
      = (processSubframeClientPollServer env str s₂).1 ∧
    (processSubframeClientPollServer env str s₁).2.1
      = (processSubframeClientPollServer env str s₂).2.1 ∧
    core (processSubframeClientPollServer env str s₁).2.2
      = core (processSubframeClientPollServer env str s₂).2.2 := by
  simp only [processSubframeClientPollServer]
  rcases BufferReadStream.readVaruint str with ⟨maybeChannel, str1⟩
  dsimp only
  rcases BufferReadStream.readVaruint str1 with ⟨maybeMaxBytes, str2⟩
  rcases maybeChannel with _ | channel <;> rcases maybeMaxBytes with _ | maxBytes
  · exact ⟨rfl, rfl, h⟩
  · exact ⟨rfl, rfl, h⟩
  · exact ⟨rfl, rfl, h⟩
  dsimp only
  rw [findTunnel_agree h]
  cases findTunnel channel s₂ with
  | none => exact ⟨rfl, rfl, h⟩
  | some i => exact ⟨rfl, rfl, by simpa using h⟩

theorem processSubframeClientToServer_agree (str : Bytes) (h : core s₁ = core s₂)
    (hover : dataOverruns str s₁ = dataOverruns str s₂) :
    (processSubframeClientToServer env str s₁).1
      = (processSubframeClientToServer env str s₂).1 ∧
    (processSubframeClientToServer env str s₁).2.1
      = (processSubframeClientToServer env str s₂).2.1 ∧
    core (processSubframeClientToServer env str s₁).2.2
      = core (processSubframeClientToServer env str s₂).2.2 := by
  simp only [processSubframeClientToServer]
  simp only [dataOverruns] at hover
  generalize BufferReadStream.readVaruint str = r1 at hover ⊢
  obtain ⟨maybeChannel, str1⟩ := r1
  dsimp only at hover ⊢
  generalize BufferReadStream.readVaruint str1 = r2 at hover ⊢
  obtain ⟨maybeBytes, str2⟩ := r2
  rcases maybeChannel with _ | channel <;> rcases maybeBytes with _ | bytes
  · exact ⟨rfl, rfl, h⟩
  · exact ⟨rfl, rfl, h⟩
  · exact ⟨rfl, rfl, h⟩
  dsimp only at hover ⊢
  by_cases hlen : str2.length < bytes.toNat
  · rw [if_pos hlen, if_pos hlen]
    exact ⟨rfl, rfl, h⟩
  rw [if_neg hlen, if_neg hlen] at hover ⊢
  rw [findTunnel_agree h] at hover ⊢
  cases hf : findTunnel channel s₂ with
  | none => exact ⟨rfl, rfl, h⟩
  | some i =>
    simp only [hf, decide_eq_decide] at hover
    dsimp only
    have hserve : ∀ s : State σ τ, core (tunnelResponse env channel none i
        { (doReadTransfer env i s).2 with anythingToDo := true }) = core s := by
      intro s
      rw [core_tunnelResponse]
      exact core_doReadTransfer env s i
    have hreceive : ∀ s : State σ τ, core (s.modifyTunnel i (·.receive (str2.take bytes.toNat)))
        = core s := fun s => core_modifyTunnel s (fun t => t.id_receive _) i
    by_cases hbig : bytes.toNat > (s₂.tunnel i).remainingSpace
    · rw [if_pos hbig, if_pos (hover.mpr hbig)]
      refine ⟨rfl, rfl, ?_⟩
      rw [hserve, hserve]
      exact h
    · rw [if_neg hbig, if_neg (fun h' => hbig (hover.mp h'))]
      refine ⟨rfl, rfl, ?_⟩
      rw [hserve, hserve, hreceive, hreceive, h]

/-- **One pass in lockstep**: it goes on or not, takes the same bytes, and leaves states that agree. -/
theorem processSubframe_agree {str : Bytes} (h : core s₁ = core s₂)
    (hover : overruns str s₁ = overruns str s₂)
    (hread : isRead str = true → s₁.hasResponse = s₂.hasResponse) :
    (processSubframe env str s₁).1 = (processSubframe env str s₂).1 ∧
    (processSubframe env str s₁).2.1 = (processSubframe env str s₂).2.1 ∧
    core (processSubframe env str s₁).2.2 = core (processSubframe env str s₂).2.2 := by
  simp only [processSubframe]
  simp only [overruns] at hover
  simp only [isRead] at hread
  generalize BufferReadStream.readVaruint str = r at hover hread ⊢
  obtain ⟨_ | type, str1⟩ := r
  · exact ⟨rfl, rfl, h⟩
  dsimp only at hover hread ⊢
  split_ifs with h1 h2 h3 h4 h5
  · have hdata : dataOverruns str1 s₁ = dataOverruns str1 s₂ := by simpa [h1] using hover
    obtain ⟨ha, hb, hc⟩ := processSubframeClientToServer_agree env str1 h hdata
    generalize processSubframeClientToServer env str1 s₁ = r₁ at ha hb hc ⊢
    generalize processSubframeClientToServer env str1 s₂ = r₂ at ha hb hc ⊢
    obtain ⟨a₁, b₁, c₁⟩ := r₁
    obtain ⟨a₂, b₂, c₂⟩ := r₂
    dsimp only at ha hb hc
    subst ha
    cases a₁ <;> exact ⟨rfl, hb, hc⟩
  · obtain ⟨ha, hb, hc⟩ := processSubframeClientPollServer_agree env str1 h
    generalize processSubframeClientPollServer env str1 s₁ = r₁ at ha hb hc ⊢
    generalize processSubframeClientPollServer env str1 s₂ = r₂ at ha hb hc ⊢
    obtain ⟨a₁, b₁, c₁⟩ := r₁
    obtain ⟨a₂, b₂, c₂⟩ := r₂
    dsimp only at ha hb hc
    subst ha
    cases a₁ <;> exact ⟨rfl, hb, hc⟩
  · exact ⟨rfl, rfl, h⟩
  · obtain ⟨ha, hb, hc⟩ :=
      processSubframeWrite_agree env (type.toNat - Subframe.kWriteBase) str1 h
    generalize processSubframeWrite env (type.toNat - Subframe.kWriteBase) str1 s₁ = r₁
      at ha hb hc ⊢
    generalize processSubframeWrite env (type.toNat - Subframe.kWriteBase) str1 s₂ = r₂
      at ha hb hc ⊢
    obtain ⟨a₁, b₁, c₁⟩ := r₁
    obtain ⟨a₂, b₂, c₂⟩ := r₂
    dsimp only at ha hb hc
    subst ha
    cases a₁ <;> exact ⟨rfl, hb, hc⟩
  · obtain ⟨ha, hb, hc⟩ := processSubframeRead_agree env
      (type.toNat - Subframe.kReadBase) str1 h (hread (by simpa using h5))
    generalize processSubframeRead env (type.toNat - Subframe.kReadBase) str1 s₁ = r₁
      at ha hb hc ⊢
    generalize processSubframeRead env (type.toNat - Subframe.kReadBase) str1 s₂ = r₂
      at ha hb hc ⊢
    obtain ⟨a₁, b₁, c₁⟩ := r₁
    obtain ⟨a₂, b₂, c₂⟩ := r₂
    dsimp only at ha hb hc
    subst ha
    cases a₁ <;> exact ⟨rfl, hb, hc⟩
  · exact ⟨rfl, rfl, h⟩

end

/-! ### What no pass changes -/

/-- Whether there is a response, and the ids of the tunnels. -/
def shape (s : State σ τ) : Bool × List UInt32 := (s.hasResponse, s.tunnels.map (·.id))

theorem shape_eq {s s' : State σ τ} (hc : core s' = core s)
    (hr : s'.hasResponse = s.hasResponse) : shape s' = shape s := by
  have hids : s'.tunnels.map (·.id) = s.tunnels.map (·.id) := congrArg (·.2.2) hc
  rw [shape, shape, hr, hids]

section
variable (s : State σ τ)

@[simp] theorem shape_serverWrite (reg : Register) (value : Value) :
    shape (serverWrite env reg value s).2 = shape s := rfl

@[simp] theorem shape_serverRead (reg : Register) (type : ℕ) :
    shape (serverRead env reg type s).2 = shape s := rfl

@[simp] theorem shape_emitWriteError (reg : Register) (error : UInt32) :
    shape (emitWriteError reg error s) = shape s :=
  shape_eq (core_emitWriteError s _ _) (hasResponse_emitWriteError s _ _)

@[simp] theorem shape_tunnelResponse (channel : UInt32) (maxBytes : Option UInt32) (i : ℕ) :
    shape (tunnelResponse env channel maxBytes i s) = shape s :=
  shape_eq (core_tunnelResponse env s _ _ _) (hasResponse_tunnelResponse env s _ _ _)

theorem shape_writeRegisters (type : ℕ) {n : ℕ} : ∀ (reg : Register) (str : Bytes)
    (s : State σ τ), shape (writeRegisters env type n reg str s).2.2 = shape s := by
  induction n with
  | zero => intro reg str s; rfl
  | succ n ih =>
    intro reg str s
    rw [writeRegisters]
    rcases readValue type str with ⟨_ | value, str'⟩
    · rfl
    dsimp only
    have hw := shape_serverWrite env s reg value
    generalize serverWrite env reg value s = r at hw ⊢
    obtain ⟨_ | _ | _ | _, s'⟩ := r
    · exact (ih _ _ _).trans hw
    · exact (ih _ _ _).trans ((shape_emitWriteError s' _ _).trans hw)
    · exact (ih _ _ _).trans ((shape_emitWriteError s' _ _).trans hw)
    · exact hw

theorem shape_readRegisters (type start : ℕ) {n : ℕ} : ∀ (reg : Register) (s : State σ τ),
    shape (readRegisters env type start n reg s).2 = shape s := by
  induction n with
  | zero => intro reg s; rfl
  | succ n ih =>
    intro reg s
    have hr := shape_serverRead env s reg type
    rw [readRegisters]
    generalize serverRead env reg type s = r at hr ⊢
    obtain ⟨value | error, s'⟩ := r
    · exact (ih _ _).trans ((shape_eq (core_respond s' _) (hasResponse_respond s' _)).trans hr)
    · have he : shape (emitReadError reg error (s'.resetResponse start)) = shape s' :=
        shape_eq rfl ((hasResponse_emitReadError _ _ _).trans (hasResponse_resetResponse s' _))
      exact he.trans hr

theorem shape_processSubframeWrite (typeLength : ℕ) (str : Bytes) :
    shape (processSubframeWrite env typeLength str s).2.2 = shape s := by
  rw [processSubframeWrite]
  rcases readNumRegisters typeLength str with ⟨_ | n, str1⟩
  · rfl
  dsimp only
  rcases BufferReadStream.readVaruint str1 with ⟨_ | reg, str2⟩
  · rfl
  · exact shape_writeRegisters env _ _ _ _

theorem shape_processSubframeRead (typeLength : ℕ) (str : Bytes) :
    shape (processSubframeRead env typeLength str s).2.2 = shape s := by
  rw [processSubframeRead]
  by_cases h : s.response.isNone
  · rw [if_pos h]
  rw [if_neg h]
  rcases readNumRegisters typeLength str with ⟨_ | n, str1⟩
  · rfl
  dsimp only
  rcases BufferReadStream.readVaruint str1 with ⟨_ | reg, str2⟩
  · rfl
  dsimp only
  rw [shape_readRegisters]
  split_ifs
  · exact shape_eq rfl (by simp)
  · exact shape_eq rfl (by simp)

theorem shape_processSubframeClientToServer (str : Bytes) :
    shape (processSubframeClientToServer env str s).2.2 = shape s := by
  rw [processSubframeClientToServer]
  rcases BufferReadStream.readVaruint str with ⟨maybeChannel, str1⟩
  dsimp only
  rcases BufferReadStream.readVaruint str1 with ⟨maybeBytes, str2⟩
  rcases maybeChannel with _ | channel <;> rcases maybeBytes with _ | bytes
  · rfl
  · rfl
  · rfl
  dsimp only
  by_cases hlen : str2.length < bytes.toNat
  · rw [if_pos hlen]
  rw [if_neg hlen]
  cases findTunnel channel s with
  | none => rfl
  | some i =>
    dsimp only
    have hread : ∀ s : State σ τ, shape { (doReadTransfer env i s).2 with anythingToDo := true }
        = shape s := fun s => shape_eq (core_doReadTransfer env s i)
      (congrArg Option.isSome (response_doReadTransfer env s i))
    rw [shape_tunnelResponse, hread]
    split_ifs
    · rfl
    · exact shape_eq (core_modifyTunnel s (fun t => t.id_receive _) i) rfl

theorem shape_processSubframeClientPollServer (str : Bytes) :
    shape (processSubframeClientPollServer env str s).2.2 = shape s := by
  rw [processSubframeClientPollServer]
  rcases BufferReadStream.readVaruint str with ⟨maybeChannel, str1⟩
  dsimp only
  rcases BufferReadStream.readVaruint str1 with ⟨maybeMaxBytes, str2⟩
  rcases maybeChannel with _ | channel <;> rcases maybeMaxBytes with _ | maxBytes
  · rfl
  · rfl
  · rfl
  dsimp only
  cases findTunnel channel s with
  | none => rfl
  | some i => exact shape_tunnelResponse env s _ _ _

/-- A pass neither starts nor drops the response, and keeps the tunnels' ids. -/
theorem shape_processSubframe (str : Bytes) : shape (processSubframe env str s).2.2 = shape s := by
  rw [processSubframe]
  rcases BufferReadStream.readVaruint str with ⟨_ | type, str1⟩
  · rfl
  dsimp only
  split_ifs
  · have h := shape_processSubframeClientToServer env s str1
    generalize processSubframeClientToServer env str1 s = r at h ⊢
    obtain ⟨_ | _, str', s'⟩ := r <;> exact h
  · have h := shape_processSubframeClientPollServer env s str1
    generalize processSubframeClientPollServer env str1 s = r at h ⊢
    obtain ⟨_ | _, str', s'⟩ := r <;> exact h
  · rfl
  · have h := shape_processSubframeWrite env s (type.toNat - Subframe.kWriteBase) str1
    generalize processSubframeWrite env (type.toNat - Subframe.kWriteBase) str1 s = r at h ⊢
    obtain ⟨_ | _ | _, str', s'⟩ := r <;> exact h
  · have h := shape_processSubframeRead env s (type.toNat - Subframe.kReadBase) str1
    generalize processSubframeRead env (type.toNat - Subframe.kReadBase) str1 s = r at h ⊢
    obtain ⟨_ | _, str', s'⟩ := r <;> exact h
  · rfl

end

/-! ### Runs in lockstep -/

/-- At every head of the loop that the two runs reach together, they agree on whether a tunnel
overruns, and on a read also on whether there is a response. -/
def InStepLoop (env : Env σ τ) : ℕ → Bytes → State σ τ → State σ τ → Prop
  | 0, _, _, _ => True
  | n + 1, str, s₁, s₂ =>
    if str = [] then True
    else overruns str s₁ = overruns str s₂ ∧
      (isRead str = true → s₁.hasResponse = s₂.hasResponse) ∧
      ((processSubframe env str s₁).1 = true →
        InStepLoop env n (processSubframe env str s₁).2.1 (processSubframe env str s₁).2.2
          (processSubframe env str s₂).2.2)

/-- The condition for a whole frame. -/
def InStep (env : Env σ τ) (subframes : Bytes) (s₁ s₂ : State σ τ) : Prop :=
  InStepLoop env subframes.length subframes s₁ s₂

theorem core_processSubframesLoop {n : ℕ} : ∀ {str : Bytes} {s₁ s₂ : State σ τ},
    core s₁ = core s₂ → InStepLoop env n str s₁ s₂ →
    core (processSubframesLoop env n str s₁) = core (processSubframesLoop env n str s₂) := by
  induction n with
  | zero => intro str s₁ s₂ h _; exact h
  | succ n ih =>
    intro str s₁ s₂ h hstep
    rw [InStepLoop] at hstep
    rw [processSubframesLoop, processSubframesLoop]
    by_cases hstr : str = []
    · rw [if_pos hstr, if_pos hstr]
      exact h
    rw [if_neg hstr] at hstep ⊢
    rw [if_neg hstr]
    obtain ⟨hover, hread, hnext⟩ := hstep
    obtain ⟨ha, hb, hc⟩ := processSubframe_agree env h hover hread
    generalize processSubframe env str s₁ = r₁ at ha hb hc hnext ⊢
    generalize processSubframe env str s₂ = r₂ at ha hb hc hnext ⊢
    obtain ⟨a₁, b₁, c₁⟩ := r₁
    obtain ⟨a₂, b₂, c₂⟩ := r₂
    dsimp only at ha hb hc hnext
    subst ha
    subst hb
    cases a₁ with
    | false => exact hc
    | true => exact ih hc (hnext rfl)

/-- **Two runs in lockstep** make the same calls of the server. -/
theorem core_processSubframes {subframes : Bytes} {s₁ s₂ : State σ τ} (h : core s₁ = core s₂)
    (hstep : InStep env subframes s₁ s₂) :
    core (processSubframes env subframes s₁) = core (processSubframes env subframes s₂) :=
  core_processSubframesLoop env h hstep

end Mjlib.Multiplex.MicroServer

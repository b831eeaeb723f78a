import Mjlib.Multiplex.Equiv.MicroServer.Subframe

/-!
# Is tunnel data executed?

For a frame of well-formed subframes, `tunnelData_iff`: `ProcessSubframes` starts to read a subframe
only where one starts, and makes the same calls of the server for two states of the tunnels, exactly
when at no head it meets tunnel data without room in its tunnel or a read without a response
(`Stays`).  In those two cases the arguments of the subframe are left to be executed
(`not_tunnelData`).
-/

namespace Mjlib.Multiplex.MicroServer

open RequestSubframe (Encodes bytes)

variable {σ τ : Type*} (env : Env σ τ)

/-- The tunnel that the subframe names exists. -/
def KnownChannel (ids : List UInt32) : RequestSubframe → Prop
  | .clientToServer channel _ => channel ∈ ids
  | .clientPollServer channel _ => channel ∈ ids
  | _ => True

/-- The ids of the tunnels. -/
def State.ids (s : State σ τ) : List UInt32 := s.tunnels.map (·.id)

/-- The next subframe has all the room it needs in a tunnel, and does not read registers without a
response. -/
def Stays (str : Bytes) (s : State σ τ) : Prop :=
  overruns str s = false ∧ (isRead str = true → s.hasResponse = true)

/-- A subframe of the frame, or its end, is at the front of the string. -/
def AtBoundary (L : List (RequestSubframe × Bytes)) (str : Bytes) : Prop :=
  ∃ L', L' <:+ L ∧ str = bytes L'

/-! ### One pass -/

theorem findTunnel_of_mem {channel : UInt32} {s : State σ τ} (h : channel ∈ s.ids) :
    ∃ i, findTunnel channel s = some i := by
  obtain ⟨t, ht, rfl⟩ := List.mem_map.mp h
  cases hf : findTunnel t.id s with
  | some i => exact ⟨i, rfl⟩
  | none =>
    have := (List.findIdx?_eq_none_iff.mp hf) t ht
    simp at this

/-- The type of a subframe, as the loop reads it. -/
theorem exists_type {sf : RequestSubframe} {e : Bytes} (h : sf.Encodes e) (rest : Bytes) :
    ∃ subframeType tail, BufferReadStream.readVaruint (e ++ rest) = (some subframeType, tail) ∧
      match sf with
      | .nop => subframeType.toNat = Subframe.kNop
      | .clientToServer _ _ => subframeType.toNat = Subframe.kClientToServer
      | .clientPollServer _ _ => subframeType.toNat = Subframe.kClientPollServer
      | .write _ _ _ => subframeType.toNat < Subframe.kReadBase
      | .read _ _ _ _ =>
        Subframe.kReadBase ≤ subframeType.toNat ∧
          subframeType.toNat < Subframe.kReadBase + 16 := by
  cases h with
  | nop h => exact ⟨_, _, h.read rest, rfl⟩
  | clientToServer h _ _ _ => exact ⟨_, _, by rw [List.append_assoc]; exact h.read _, rfl⟩
  | clientPollServer h _ _ => exact ⟨_, _, by rw [List.append_assoc]; exact h.read _, rfl⟩
  | write htype _ hh _ =>
    obtain ⟨low, tail, hlow, -, -, htypeRead, -, -⟩ := hh.read (_ ++ rest)
    refine ⟨_, tail, by rw [List.append_assoc]; exact htypeRead, ?_⟩
    rw [toNat_ofNat_of_lt (by rw [Subframe.kWriteBase]; omega), Subframe.kWriteBase,
      Subframe.kReadBase]
    omega
  | read htype hh _ =>
    obtain ⟨low, tail, hlow, -, -, htypeRead, -, -⟩ := hh.read (_ ++ rest)
    refine ⟨_, tail, by rw [List.append_assoc]; exact htypeRead, ?_⟩
    rw [toNat_ofNat_of_lt (by rw [Subframe.kReadBase]; omega)]
    omega

theorem isRead_of_read {type : ℕ} {start : Register} {count : ℕ} {explicit : Bool} {e : Bytes}
    (h : Encodes (.read type start count explicit) e) (rest : Bytes) :
    isRead (e ++ rest) = true := by
  obtain ⟨subframeType, tail, hread, htype⟩ := exists_type h rest
  simpa [isRead, hread] using htype

/-- Only tunnel data and reads can fail to stay. -/
theorem stays_or {sf : RequestSubframe} {e : Bytes} (h : sf.Encodes e) (rest : Bytes)
    (s : State σ τ) :
    Stays (e ++ rest) s ∨
      (∃ channel data, sf = .clientToServer channel data ∧ overruns (e ++ rest) s = true) ∨
      ∃ type start count explicit, sf = .read type start count explicit ∧
        s.hasResponse = false := by
  obtain ⟨subframeType, tail, hread, htype⟩ := exists_type h rest
  have hover : subframeType.toNat ≠ Subframe.kClientToServer → overruns (e ++ rest) s = false :=
    fun hne => by simp [overruns, hread, hne]
  have hnot : ¬ (Subframe.kReadBase ≤ subframeType.toNat ∧
      subframeType.toNat < Subframe.kReadBase + 16) → isRead (e ++ rest) = false :=
    fun hne => by simpa [isRead, hread] using hne
  cases sf with
  | nop =>
    dsimp only at htype
    exact Or.inl ⟨hover (by rw [htype]; decide), by rw [hnot (by rw [htype]; decide)]; simp⟩
  | clientPollServer channel maxBytes =>
    dsimp only at htype
    exact Or.inl ⟨hover (by rw [htype]; decide), by rw [hnot (by rw [htype]; decide)]; simp⟩
  | write type start values =>
    dsimp only at htype
    refine Or.inl ⟨hover ?_, by rw [hnot (by omega)]; simp⟩
    intro h0
    rw [h0] at htype
    exact absurd htype (by decide)
  | clientToServer channel data =>
    dsimp only at htype
    cases ho : overruns (e ++ rest) s with
    | true => exact Or.inr (Or.inl ⟨channel, data, rfl, rfl⟩)
    | false => exact Or.inl ⟨ho, by rw [hnot (by rw [htype]; decide)]; simp⟩
  | read type start count explicit =>
    dsimp only at htype
    cases hr : s.hasResponse with
    | false => exact Or.inr (Or.inr ⟨type, start, count, explicit, rfl, rfl⟩)
    | true =>
      refine Or.inl ⟨hover ?_, fun _ => hr⟩
      intro h0
      rw [h0] at htype
      exact absurd htype (by decide)

/-- A pass over a subframe that stays goes on behind it, if it goes on. -/
theorem processSubframe_of_stays {sf : RequestSubframe} {e : Bytes} (h : sf.Encodes e)
    (rest : Bytes) {s : State σ τ} (hch : KnownChannel s.ids sf) (hs : Stays (e ++ rest) s)
    (hnext : (processSubframe env (e ++ rest) s).1 = true) :
    (processSubframe env (e ++ rest) s).2.1 = rest := by
  cases sf with
  | nop => rw [processSubframe_nop env h]
  | clientToServer channel data =>
    obtain ⟨i, hi⟩ := findTunnel_of_mem hch
    rw [processSubframe_clientToServer env h rest hi hs.1]
  | clientPollServer channel maxBytes =>
    obtain ⟨i, hi⟩ := findTunnel_of_mem hch
    rw [processSubframe_clientPollServer env h rest hi]
  | write type start values =>
    obtain ⟨str, hp, hstr⟩ := processSubframe_write env h rest s
    rw [hp] at hnext ⊢
    exact hstr (by simpa using hnext)
  | read type start count explicit =>
    rw [processSubframe_read env h rest (hs.2 (isRead_of_read h rest))]
    rcases readRegisters env type s.responsePosition count start
      (respondHead type start count explicit s) with ⟨_ | _, s'⟩ <;> rfl

/-- A pass over a subframe that does not stay goes on inside it. -/
theorem processSubframe_of_not_stays {sf : RequestSubframe} {e : Bytes} (h : sf.Encodes e)
    (rest : Bytes) {s : State σ τ} (hs : ¬ Stays (e ++ rest) s) :
    ∃ str s', processSubframe env (e ++ rest) s = (true, str, s') ∧
      rest.length < str.length := by
  obtain hs' | ⟨channel, data, rfl, hover⟩ | ⟨type, start, count, explicit, rfl, hnone⟩ :=
    stays_or h rest s
  · exact absurd hs' hs
  · obtain ⟨s', hp, hlen⟩ := processSubframe_of_overrun env h rest hover
    exact ⟨_, s', hp, hlen⟩
  · obtain ⟨str, hp, hlen⟩ := processSubframe_read_of_noResponse env h rest hnone
    exact ⟨str, s, hp, hlen⟩

/-! ### The heads of the loop -/

theorem ids_processSubframe (str : Bytes) (s : State σ τ) :
    (processSubframe env str s).2.2.ids = s.ids :=
  congrArg Prod.snd (shape_processSubframe env s str)

theorem AtHeads.head {env : Env σ τ} {P : Bytes → State σ τ → Prop} {str : Bytes} {s : State σ τ}
    (h : str ≠ []) (hP : AtHeads env P str s) : P str s := by
  rcases hp : processSubframe env str s with ⟨_ | _, str', s'⟩
  · exact (atHeads_of_return h hp).mp hP
  · exact ((atHeads_of_next h hp).mp hP).1

/-- No boundary lies inside a subframe. -/
theorem AtBoundary.not_inside {L R : List (RequestSubframe × Bytes)}
    {p : RequestSubframe × Bytes} {str : Bytes} (hL : p :: R <:+ L) (h : AtBoundary L str)
    (hlt : (bytes R).length < str.length) : (bytes (p :: R)).length ≤ str.length := by
  obtain ⟨L', hL', rfl⟩ := h
  have hmono : ∀ {A B : List (RequestSubframe × Bytes)}, A <:+ B →
      (bytes A).length ≤ (bytes B).length := by
    rintro A B ⟨C, rfl⟩
    rw [bytes, bytes, List.flatMap_append, List.length_append]
    omega
  rcases List.suffix_or_suffix_of_suffix hL' hL with h | h
  · rcases List.suffix_cons_iff.mp h with rfl | h
    · exact le_rfl
    · have := hmono h
      omega
  · exact hmono h

/-- **Where the loop reads subframes**: only where one starts, exactly when every subframe it reaches
stays. -/
theorem atHeads_boundary_iff {L : List (RequestSubframe × Bytes)} :
    ∀ {R : List (RequestSubframe × Bytes)} {s : State σ τ}, R <:+ L →
    (∀ p ∈ R, p.1.Encodes p.2) → (∀ p ∈ R, KnownChannel s.ids p.1) →
    (AtHeads env (fun str _ => AtBoundary L str) (bytes R) s ↔ AtHeads env Stays (bytes R) s) := by
  intro R
  induction R with
  | nil => intro s _ _ _; simp
  | cons p R ih =>
    intro s hsuf henc hch
    have he : p.1.Encodes p.2 := henc p (by simp)
    have hne : p.2 ++ bytes R ≠ [] := List.append_ne_nil_of_left_ne_nil he.ne_nil _
    have hR : R <:+ L := (List.suffix_cons p R).trans hsuf
    have hhere : AtBoundary L (p.2 ++ bytes R) := ⟨p :: R, hsuf, by rw [RequestSubframe.bytes_cons]⟩
    rw [RequestSubframe.bytes_cons]
    by_cases hs : Stays (p.2 ++ bytes R) s
    · have hpos := processSubframe_of_stays env he (bytes R) (hch p (by simp)) hs
      have hids := ids_processSubframe env (p.2 ++ bytes R) s
      rcases hp : processSubframe env (p.2 ++ bytes R) s with ⟨_ | _, str', s'⟩
      · rw [atHeads_of_return hne hp, atHeads_of_return hne hp]
        exact ⟨fun _ => hs, fun _ => hhere⟩
      · rw [hp] at hpos hids
        obtain rfl := hpos rfl
        have := ih (s := s') hR (fun q hq => henc q (List.mem_cons_of_mem _ hq))
          (fun q hq => by
            have := hch q (List.mem_cons_of_mem _ hq)
            rwa [← hids] at this)
        rw [atHeads_of_next hne hp, atHeads_of_next hne hp, this]
        exact ⟨fun h => ⟨hs, h.2⟩, fun h => ⟨hhere, h.2⟩⟩
    · -- the next head is inside the subframe
      obtain ⟨str', s', hp, hlen⟩ := processSubframe_of_not_stays env he (bytes R) hs
      have hlt := length_processSubframe_lt env hne s
      rw [hp] at hlt
      rw [atHeads_of_next hne hp, atHeads_of_next hne hp]
      refine ⟨fun h => ?_, fun h => absurd h.1 hs⟩
      have hne' : str' ≠ [] := List.ne_nil_of_length_pos (by omega)
      have := (AtHeads.head hne' h.2).not_inside hsuf hlen
      rw [RequestSubframe.bytes_cons] at this
      dsimp only at hlt
      omega

/-! ### Two states of the tunnels -/

theorem inStepLoop_of_stays {n : ℕ} : ∀ {str : Bytes} {s₁ s₂ : State σ τ}, core s₁ = core s₂ →
    s₁.hasResponse = s₂.hasResponse → AtHeadsLoop env Stays n str s₁ →
    AtHeadsLoop env Stays n str s₂ → InStepLoop env n str s₁ s₂ := by
  induction n with
  | zero => intro str s₁ s₂ _ _ _ _; trivial
  | succ n ih =>
    intro str s₁ s₂ hcore hresp h₁ h₂
    rw [AtHeadsLoop] at h₁ h₂
    rw [InStepLoop]
    by_cases hstr : str = []
    · rw [if_pos hstr]
      trivial
    rw [if_neg hstr] at h₁ h₂ ⊢
    have hover : overruns str s₁ = overruns str s₂ := h₁.1.1.trans h₂.1.1.symm
    refine ⟨hover, fun _ => hresp, fun hnext => ?_⟩
    obtain ⟨ha, hb, hc⟩ := processSubframe_agree env hcore hover fun _ => hresp
    have hr₁ := congrArg Prod.fst (shape_processSubframe env s₁ str)
    have hr₂ := congrArg Prod.fst (shape_processSubframe env s₂ str)
    have h₁' := h₁.2
    have h₂' := h₂.2
    simp only [shape] at hr₁ hr₂
    generalize processSubframe env str s₁ = r₁ at *
    generalize processSubframe env str s₂ = r₂ at *
    obtain ⟨a₁, b₁, c₁⟩ := r₁
    obtain ⟨a₂, b₂, c₂⟩ := r₂
    dsimp only at ha hb hc hr₁ hr₂ hnext ⊢
    subst ha hb hnext
    exact ih hc (by rw [hr₁, hr₂, hresp]) h₁' h₂'

/-- **Tunnel data**: for a frame of well-formed subframes, and two states that differ in what the
tunnels hold only, the loop reads subframes only where one starts and the server sees the same calls,
exactly when every subframe reached stays, in either state. -/
theorem tunnelData_iff (env : Env σ τ) {L : List (RequestSubframe × Bytes)} {s₁ s₂ : State σ τ}
    (henc : ∀ p ∈ L, p.1.Encodes p.2) (hch : ∀ p ∈ L, KnownChannel s₁.ids p.1)
    (hcore : core s₁ = core s₂) (hresp : s₁.hasResponse = s₂.hasResponse) :
    (AtHeads env (fun str _ => AtBoundary L str) (bytes L) s₁ ∧
      AtHeads env (fun str _ => AtBoundary L str) (bytes L) s₂ ∧
      (processSubframes env (bytes L) s₁).calls = (processSubframes env (bytes L) s₂).calls) ↔
    AtHeads env Stays (bytes L) s₁ ∧ AtHeads env Stays (bytes L) s₂ := by
  have hids : s₁.ids = s₂.ids := congrArg (·.2.2) hcore
  rw [atHeads_boundary_iff env (List.suffix_refl L) henc hch,
    atHeads_boundary_iff env (List.suffix_refl L) henc (hids ▸ hch)]
  refine ⟨fun h => ⟨h.1, h.2.1⟩, fun h => ⟨h.1, h.2, ?_⟩⟩
  have hstep : InStep env (bytes L) s₁ s₂ := inStepLoop_of_stays env hcore hresp h.1 h.2
  exact congrArg (·.2.1) (core_processSubframes env hcore hstep)

/-- A state with one tunnel, with id 1, that holds the given unread data. -/
def oneTunnel (readData : Bytes) (h : readData.length ≤ readDataCapacity) : State Unit Unit where
  server := ()
  client := ()
  tunnels := [{ id := 1, readData := readData, readData_le := h }]

theorem encodes_clientToServer_three :
    Encodes (.clientToServer 1 [0x01, 0x05, 0x07]) [0x40, 0x01, 0x03, 0x01, 0x05, 0x07] := by
  have hlt : ([0x01, 0x05, 0x07] : Bytes).length < 2 ^ 32 := by decide
  exact .clientToServer (isVaruint_writeVaruint (UInt32.ofNat Subframe.kClientToServer))
    (isVaruint_writeVaruint 1) hlt (isVaruint_writeVaruint (UInt32.ofNat 3))

/-- Three bytes for an empty tunnel and for one that holds two bytes. -/
theorem tunnelData_iff_fits :
    let L := [(RequestSubframe.clientToServer 1 [0x01, 0x05, 0x07],
      [0x40, 0x01, 0x03, 0x01, 0x05, 0x07])]
    (AtHeads plainEnv (fun str _ => AtBoundary L str) (bytes L) (oneTunnel [] (by decide)) ∧
      AtHeads plainEnv (fun str _ => AtBoundary L str) (bytes L)
        (oneTunnel [0xaa, 0xbb] (by decide)) ∧
      (processSubframes plainEnv (bytes L) (oneTunnel [] (by decide))).calls
        = (processSubframes plainEnv (bytes L) (oneTunnel [0xaa, 0xbb] (by decide))).calls) ↔
    AtHeads plainEnv Stays (bytes L) (oneTunnel [] (by decide)) ∧
      AtHeads plainEnv Stays (bytes L) (oneTunnel [0xaa, 0xbb] (by decide)) :=
  tunnelData_iff plainEnv (by simpa using encodes_clientToServer_three) (by
    simp [KnownChannel, State.ids, oneTunnel]) rfl rfl

set_option maxRecDepth 4000 in
/-- With 126 bytes unread, the three bytes `01 05 07` for the tunnel are executed as a write of the
value 7 to the register 5. -/
theorem not_tunnelData : ¬ ∀ (env : Env Unit Unit) (L : List (RequestSubframe × Bytes))
    (s₁ s₂ : State Unit Unit), (∀ p ∈ L, p.1.Encodes p.2) →
    (∀ p ∈ L, KnownChannel s₁.ids p.1) → core s₁ = core s₂ → s₁.hasResponse = s₂.hasResponse →
    (processSubframes env (bytes L) s₁).calls = (processSubframes env (bytes L) s₂).calls := by
  intro h
  have := h plainEnv [(.clientToServer 1 [0x01, 0x05, 0x07],
      [0x40, 0x01, 0x03, 0x01, 0x05, 0x07])] (oneTunnel [] (by decide))
    (oneTunnel (List.replicate 126 0) (by simp [readDataCapacity])) (by simpa using encodes_clientToServer_three)
    (by simp [KnownChannel, State.ids, oneTunnel]) rfl rfl
  exact absurd this (by decide)

end Mjlib.Multiplex.MicroServer

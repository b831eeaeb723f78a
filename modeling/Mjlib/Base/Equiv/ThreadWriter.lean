import Mathlib
import Mjlib.Base.ThreadWriterRun

/-!
# A `ThreadWriter` writes what it is handed

Whatever the threads do in which order, the file holds what was handed over, in that order
(`Books`), and nothing stays behind: while the child waits in `read` on an empty pipe and the parent
is not about to signal it, there is no work left (`Wakes`), the destructor ends
(`childSteps_le_remaining`), and the file is then the one of the writer that appends each buffer at
once (`foldlM_write_of_destroyed`).  A flush reaches all that was handed over before it
(`Flushing`), and `posix_fadvise` is told of each block once, when it is in the file (`Advice`).
-/

namespace Mjlib.Base.ThreadWriter

/-! ### What a step does -/

/-- The steps, with what allows them. -/
inductive Moves (o : Options) (s : State) : Action → State → Prop
  | write (buffer : Bytes) (hparent : s.parent = .idle) : Moves o s (.write buffer) (s.write buffer)
  | flush (hparent : s.parent = .idle) (hmutex : s.child.holdsMutex = false) :
    Moves o s .flush { s with flush := true, parent := .signaling }
  | destroy (hparent : s.parent = .idle) (hmutex : s.child.holdsMutex = false) :
    Moves o s .destroy { s with done := true, parent := .signalingDone }
  | signal (hparent : s.parent = .signaling) : Moves o s .parent { s.signal o with parent := .idle }
  | signalDone (hparent : s.parent = .signalingDone) :
    Moves o s .parent { s.signal o with parent := .joining }
  | join (hparent : s.parent = .joining) (hchild : s.child = .exited) :
    Moves o s .parent { s with parent := .writingAll }
  | writeAll {buffer : Bytes} {data : List Bytes} {t : State} (hparent : s.parent = .writingAll)
    (hdata : s.data = buffer :: data) (ht : { s with data }.fwrite o buffer = some t) : Moves o s .parent t
  | close (hparent : s.parent = .writingAll) (hdata : s.data = []) :
    Moves o s .parent { s.fflush with parent := .destroyed }
  | start (hchild : s.child = .starting) : Moves o s .child { s with child := .reading }
  | read (hchild : s.child = .reading) (hpipe : 0 < s.pipe) :
    Moves o s .child { s with pipe := s.pipe - 1, child := .locking }
  | interrupted (hchild : s.child = .reading) : Moves o s .interrupted { s with child := .locking }
  | lockDone (hchild : s.child = .locking) (hdone : s.done = true) :
    Moves o s .child { s with child := .working true }
  | lockFlush (hchild : s.child = .locking) (hdone : s.done = false) (hflush : s.flush = true) :
    Moves o s .child { s with child := .flushing }
  | lock (hchild : s.child = .locking) (hdone : s.done = false) (hflush : s.flush = false) :
    Moves o s .child { s with child := .timer }
  | fflush (hchild : s.child = .flushing) : Moves o s .child { s.fflush with child := .timer }
  | timer (hchild : s.child = .timer) :
    Moves o s .child { (if s.timerFired then s.fflush else s) with child := .working false }
  | work {last : Bool} (hchild : s.child = .working last) (hdata : s.data ≠ []) :
    Moves o s .child { s with child := .popping last }
  | wait (hchild : s.child = .working false) (hdata : s.data = []) :
    Moves o s .child { s with child := .reading }
  | leave (hchild : s.child = .working true) (hdata : s.data = []) :
    Moves o s .child { s with child := .lastFlush }
  | pop {last : Bool} {buffer : Bytes} {data : List Bytes} (hchild : s.child = .popping last)
    (hdata : s.data = buffer :: data) :
    Moves o s .child { s with data, hand := some buffer, child := .writing last }
  | fwrite {last : Bool} {buffer : Bytes} {t : State} (hchild : s.child = .writing last)
    (hhand : s.hand = some buffer)
    (ht : { s with hand := none, child := .advising last }.fwrite o buffer = some t) : Moves o s .child t
  | advise {last : Bool} (hchild : s.child = .advising last) :
    Moves o s .child { s.advise o with child := .working last }
  | lastFlush (hchild : s.child = .lastFlush) : Moves o s .child { s.fflush with child := .stopping }
  | stop (hchild : s.child = .stopping) : Moves o s .child { s with child := .exited }
  | fwriteFails (h : s.AtFwrite) : Moves o s .fwriteFails { s with aborted := true }
  | timerFires (hasync : o.asynchronous = true) (hstarting : s.child ≠ .starting) :
    Moves o s .timerFires { s with timerFired := true, handlers := s.handlers + 1 }
  | timerSignals (h : 0 < s.handlers) :
    Moves o s .timerSignals { s.signal o with handlers := s.handlers - 1 }

variable {o : Options} {s t : State} {a : Action}

theorem moves_of_parentStep (h : s.parentStep o = some t) : Moves o s .parent t := by
  unfold State.parentStep at h
  split at h
  · cases h
  · cases h
  · next hparent =>
    obtain rfl := Option.some.inj h
    exact .signal hparent
  · next hparent =>
    obtain rfl := Option.some.inj h
    exact .signalDone hparent
  · next hparent =>
    split_ifs at h with hchild
    obtain rfl := Option.some.inj h
    exact .join hparent hchild
  · next hparent =>
    cases hdata : s.data with
    | nil =>
      rw [hdata] at h
      obtain rfl := Option.some.inj h
      exact .close hparent hdata
    | cons buffer data =>
      rw [hdata] at h
      exact .writeAll hparent hdata h

theorem moves_of_childStep (h : s.childStep o = some t) : Moves o s .child t := by
  cases hchild : s.child <;> simp only [State.childStep, hchild] at h
  case starting =>
    obtain rfl := Option.some.inj h
    exact .start hchild
  case reading =>
    split_ifs at h with hpipe
    obtain rfl := Option.some.inj h
    exact .read hchild hpipe
  case locking =>
    obtain rfl := Option.some.inj h
    split_ifs with hdone hflush
    · exact .lockDone hchild hdone
    · exact .lockFlush hchild (Bool.eq_false_iff.mpr hdone) hflush
    · exact .lock hchild (Bool.eq_false_iff.mpr hdone) (Bool.eq_false_iff.mpr hflush)
  case flushing =>
    obtain rfl := Option.some.inj h
    exact .fflush hchild
  case timer =>
    obtain rfl := Option.some.inj h
    exact .timer hchild
  case working last =>
    obtain rfl := Option.some.inj h
    split_ifs with hdata hlast
    · exact .work hchild hdata
    · exact .leave (hlast ▸ hchild) (not_not.mp hdata)
    · exact .wait (Bool.eq_false_iff.mpr hlast ▸ hchild) (not_not.mp hdata)
  case popping last =>
    cases hdata : s.data with
    | nil =>
      rw [hdata] at h
      cases h
    | cons buffer data =>
      rw [hdata] at h
      obtain rfl := Option.some.inj h
      exact .pop hchild hdata
  case writing last =>
    obtain ⟨buffer, hhand, ht⟩ := Option.bind_eq_some_iff.mp h
    exact .fwrite hchild hhand ht
  case advising last =>
    obtain rfl := Option.some.inj h
    exact .advise hchild
  case lastFlush =>
    obtain rfl := Option.some.inj h
    exact .lastFlush hchild
  case stopping =>
    obtain rfl := Option.some.inj h
    exact .stop hchild
  case exited => cases h

theorem moves_of_step (h : step o s a = some t) : Moves o s a t := by
  unfold step at h
  rw [if_neg fun haborted => by rw [if_pos haborted] at h; cases h] at h
  cases a with
  | write buffer =>
    dsimp only at h
    split_ifs at h with hparent
    obtain rfl := Option.some.inj h
    exact .write buffer hparent
  | flush =>
    dsimp only at h
    split_ifs at h with hguard
    obtain rfl := Option.some.inj h
    exact .flush hguard.1 (Bool.eq_false_iff.mpr hguard.2)
  | destroy =>
    dsimp only at h
    split_ifs at h with hguard
    obtain rfl := Option.some.inj h
    exact .destroy hguard.1 (Bool.eq_false_iff.mpr hguard.2)
  | parent => exact moves_of_parentStep h
  | child => exact moves_of_childStep h
  | interrupted =>
    dsimp only at h
    split_ifs at h with hchild
    obtain rfl := Option.some.inj h
    exact .interrupted hchild
  | fwriteFails =>
    dsimp only at h
    split_ifs at h with hat
    obtain rfl := Option.some.inj h
    exact .fwriteFails hat
  | timerFires =>
    dsimp only at h
    split_ifs at h with hguard
    obtain rfl := Option.some.inj h
    exact .timerFires hguard.1 hguard.2.1
  | timerSignals =>
    dsimp only at h
    split_ifs at h with hhandlers
    obtain rfl := Option.some.inj h
    exact .timerSignals hhandlers

theorem fwrite_eq_some {buffer : Bytes} (h : s.fwrite o buffer = some t) :
    buffer ≠ [] ∧ s.childOffset + buffer.length < 2 ^ 63 ∧ t = { s with
      written := s.written ++ [buffer]
      childOffset := s.childOffset + buffer.length
      reclaimed := s.reclaimed ++ if o.reclaims then [buffer] else [] } := by
  unfold State.fwrite at h
  by_cases hbuffer : buffer ≠ [] ∧ s.childOffset + buffer.length < 2 ^ 63
  · rw [if_pos hbuffer] at h
    exact ⟨hbuffer.1, hbuffer.2, (Option.some.inj h).symm⟩
  · rw [if_neg hbuffer] at h
    cases h

/-! ### Where the threads are -/

/-- In the destructor. -/
def ParentPc.closing : ParentPc → Bool
  | idle | signaling => false
  | _ => true

/-- After `done_` was seen. -/
def ChildPc.afterDone : ChildPc → Bool
  | working last | popping last | writing last | advising last => last
  | lastFlush | stopping | exited => true
  | _ => false

/-- How far the threads are, beside each other and the data. -/
structure Phases (s : State) : Prop where
  done : s.done = s.parent.closing
  last : s.child.afterDone = true → s.done = true
  data : s.child = .lastFlush ∨ s.child = .stopping ∨ s.child = .exited → s.data = []
  joined : s.parent = .writingAll ∨ s.parent = .destroyed → s.child = .exited
  popping : ∀ last, s.child = .popping last → s.data ≠ []
  hand : s.hand.isSome ↔ ∃ last, s.child = .writing last

theorem Phases.moves (hs : Phases s) (h : Moves o s a t) : Phases t := by
  obtain ⟨h1, h2, h3, h4, h5, h6⟩ := hs
  cases h with
  | write buffer hparent =>
    have hdone : s.done = false := by rw [h1, hparent]; rfl
    have hlast : s.child.afterDone = false := by
      rw [hdone] at h2
      exact Bool.eq_false_iff.mpr fun h => absurd (h2 h) Bool.false_ne_true
    refine ⟨hdone, fun h => ?_, ?_, ?_, fun _ _ => ?_, h6⟩
    · exact absurd h (Bool.eq_false_iff.mp hlast)
    · rintro (h | h | h) <;> rw [show s.child = _ from h] at hlast <;> cases hlast
    · rintro (h | h) <;> cases h
    · simp [State.write, State.pushBack]
  | flush hparent hmutex =>
    exact ⟨h1.trans (by rw [hparent]; rfl), h2, h3, by simp, h5, h6⟩
  | destroy hparent hmutex => exact ⟨rfl, fun _ => rfl, h3, by simp, h5, h6⟩
  | signal hparent => exact ⟨h1.trans (by rw [hparent]; rfl), h2, h3, by simp, h5, h6⟩
  | signalDone hparent => exact ⟨h1.trans (by rw [hparent]; rfl), h2, h3, by simp, h5, h6⟩
  | join hparent hchild =>
    exact ⟨h1.trans (by rw [hparent]; rfl), h2, h3, fun _ => hchild, h5, h6⟩
  | writeAll hparent hdata ht =>
    have hexited := h4 (Or.inl hparent)
    rw [h3 (Or.inr (Or.inr hexited))] at hdata
    cases hdata
  | close hparent hdata =>
    exact ⟨h1.trans (by rw [hparent]; rfl), h2, h3, fun _ => h4 (Or.inl hparent), h5, h6⟩
  | fwrite hchild hhand ht =>
    obtain ⟨-, -, rfl⟩ := fwrite_eq_some ht
    constructor <;> simp_all [ChildPc.afterDone]
  | pop hchild hdata => constructor <;> simp_all [ChildPc.afterDone]
  | fwriteFails => exact ⟨h1, h2, h3, h4, h5, h6⟩
  | timerFires => exact ⟨h1, h2, h3, h4, h5, h6⟩
  | timerSignals => exact ⟨h1, h2, h3, h4, h5, h6⟩
  | timer hchild =>
    split_ifs <;> constructor <;> simp_all [ChildPc.afterDone, State.fflush]
  | advise hchild =>
    unfold State.advise
    split_ifs <;> constructor <;> simp_all [ChildPc.afterDone, State.fflush]
  | _ => constructor <;> simp_all [ChildPc.afterDone, State.fflush]

/-! ### What is in the file -/

/-- Every buffer is in the file, in the child's hand or in `data_`, in the order of the calls. -/
structure Books (o : Options) (s : State) : Prop where
  handed : s.written ++ (s.hand.toList ++ s.data) = s.handed
  position : s.position = s.handed.flatten.length
  childOffset : s.childOffset = s.written.flatten.length
  childOffset_lt : s.childOffset < 2 ^ 63
  flushed : s.flushed ≤ s.childOffset
  ne_nil : [] ∉ s.written
  reclaimed : s.reclaimed = if o.reclaims then s.written else []
  capacity_pos : 0 < s.capacity
  data_le : s.data.length ≤ s.capacity
  closed : s.parent = .destroyed → s.flushed = s.childOffset

/-- `data_` grows before it would overwrite its front. -/
theorem data_write (hpos : 0 < s.capacity) (hle : s.data.length ≤ s.capacity) (buffer : Bytes) :
    (s.write buffer).data = s.data ++ [buffer] ∧ s.data.length < (s.write buffer).capacity ∧
      0 < (s.write buffer).capacity := by
  have hlt : s.data.length < (s.write buffer).capacity := by
    dsimp only [State.write]
    split_ifs <;> omega
  refine ⟨?_, hlt, lt_of_le_of_lt (Nat.zero_le _) hlt⟩
  show State.pushBack (s.write buffer).capacity s.data buffer = _
  rw [State.pushBack, if_neg hlt.ne]

theorem Books.moves (hphases : Phases s) (hs : Books o s) (h : Moves o s a t) : Books o t := by
  cases h with
  | write buffer hparent =>
    obtain ⟨hdata, hlt, hpos⟩ := data_write hs.capacity_pos hs.data_le buffer
    refine ⟨?_, ?_, hs.childOffset, hs.childOffset_lt, hs.flushed, hs.ne_nil, hs.reclaimed, hpos,
      ?_, fun hdestroyed => ?_⟩
    · rw [hdata]
      show s.written ++ (s.hand.toList ++ (s.data ++ [buffer])) = s.handed ++ [buffer]
      rw [← hs.handed]
      simp only [List.append_assoc]
    · show s.position + buffer.length = (s.handed ++ [buffer]).flatten.length
      rw [hs.position]
      simp
    · rw [hdata, List.length_append]
      exact hlt
    · cases hdestroyed
  | writeAll hparent hdata ht =>
    have hexited := hphases.joined (Or.inl hparent)
    rw [hphases.data (Or.inr (Or.inr hexited))] at hdata
    cases hdata
  | pop hchild hdata =>
    have hnone : s.hand = none := by
      rw [← Option.not_isSome_iff_eq_none, hphases.hand]
      rintro ⟨last, hwriting⟩
      rw [hchild] at hwriting
      cases hwriting
    have hle := hs.data_le
    rw [hdata, List.length_cons] at hle
    refine { hs with handed := ?_, data_le := Nat.le_of_succ_le hle }
    rw [← hs.handed, hnone, hdata]
    rfl
  | fwrite hchild hhand ht =>
    obtain ⟨hbuffer, hlt, rfl⟩ := fwrite_eq_some ht
    refine ⟨?_, hs.position, ?_, hlt, hs.flushed.trans (Nat.le_add_right _ _), ?_, ?_,
      hs.capacity_pos, hs.data_le, fun hparent => ?_⟩
    · rw [← hs.handed, hhand]
      simp
    · dsimp only
      rw [hs.childOffset]
      simp
    · simp [hs.ne_nil, Ne.symm hbuffer]
    · dsimp only
      rw [hs.reclaimed]
      split_ifs <;> rfl
    · have hexited := hphases.joined (Or.inr hparent)
      rw [hchild] at hexited
      cases hexited
  | timer hchild =>
    split_ifs
    · exact { hs with flushed := le_rfl, closed := fun _ => rfl }
    · exact { hs with }
  | advise hchild =>
    unfold State.advise
    split_ifs
    · exact { hs with flushed := le_rfl, closed := fun _ => rfl }
    · exact { hs with }
  | close | fflush | lastFlush => exact { hs with flushed := le_rfl, closed := fun _ => rfl }
  | flush | destroy | signal | signalDone | join => exact { hs with closed := fun h => by cases h }
  | _ => exact { hs with }

/-! ### No signal is lost -/

/-- Where there is work, the child has not come to its next `read` yet, or `read` finds a byte, or the
parent is about to write one. -/
structure Wakes (s : State) : Prop where
  data : s.data ≠ [] →
    s.parent = .signaling ∨ 0 < s.pipe ∨ s.child ≠ .starting ∧ s.child ≠ .reading
  done : s.done = true →
    s.parent = .signalingDone ∨ 0 < s.pipe ∨ s.child = .locking ∨ s.child.afterDone = true

theorem pipe_signal_pos (o : Options) (s : State) : 0 < (s.signal o).pipe :=
  lt_min (Nat.succ_pos _) (lt_trans Nat.zero_lt_one o.pipeSize_gt)

theorem Wakes.moves (hs : Wakes s) (h : Moves o s a t) : Wakes t := by
  obtain ⟨hdata, hdone⟩ := hs
  cases h with
  | write buffer hparent =>
    refine ⟨fun _ => Or.inl rfl, fun h => ?_⟩
    exact Or.inr ((hdone h).resolve_left fun h' => by rw [hparent] at h'; cases h')
  | flush hparent => exact ⟨fun _ => Or.inl rfl, fun h => Or.inr ((hdone h).resolve_left (by simp [hparent]))⟩
  | destroy hparent =>
    exact ⟨fun h => Or.inr ((hdata h).resolve_left (by simp [hparent])), fun _ => Or.inl rfl⟩
  | signal hparent | signalDone hparent | timerSignals =>
    exact ⟨fun _ => Or.inr (Or.inl (pipe_signal_pos o s)),
      fun _ => Or.inr (Or.inl (pipe_signal_pos o s))⟩
  | writeAll hparent hlist ht =>
    obtain ⟨-, -, rfl⟩ := fwrite_eq_some ht
    exact ⟨fun _ => hdata (by rw [hlist]; simp), hdone⟩
  | fwrite hchild hhand ht =>
    obtain ⟨-, -, rfl⟩ := fwrite_eq_some ht
    constructor <;> simp_all [ChildPc.afterDone]
  | timer hchild => split_ifs <;> constructor <;> simp_all [ChildPc.afterDone, State.fflush]
  | advise hchild =>
    unfold State.advise
    split_ifs <;> constructor <;> simp_all [ChildPc.afterDone, State.fflush]
  | _ => constructor <;> simp_all [ChildPc.afterDone, State.fflush]

/-! ### Every run -/

/-- What holds in every state that a run reaches. -/
structure Inv (o : Options) (s : State) : Prop where
  phases : Phases s
  books : Books o s
  wakes : Wakes s

theorem inv_init (o : Options) : Inv o {} where
  phases := ⟨rfl, by simp [ChildPc.afterDone], by simp, by simp, by simp, by simp⟩
  books := ⟨rfl, rfl, rfl, by decide, le_rfl, by simp, by simp, by simp, by simp, by simp⟩
  wakes := ⟨by simp, by simp⟩

theorem Inv.moves (hs : Inv o s) (h : Moves o s a t) : Inv o t :=
  ⟨hs.phases.moves h, hs.books.moves hs.phases h, hs.wakes.moves h⟩

theorem inv_of_run {actions : List Action} (h : Run.run (step o) {} actions = some s) : Inv o s :=
  Run.run_induction (fun _ _ _ hs h => hs.moves (moves_of_step h)) (inv_init o) h

/-- The buffer of a call of `Write`. -/
def Action.buffer? : Action → Option Bytes
  | write buffer => some buffer
  | _ => none

theorem handed_of_moves (h : Moves o s a t) : t.handed = s.handed ++ a.buffer?.toList := by
  cases h with
  | write buffer hparent => rfl
  | writeAll hparent hdata ht =>
    obtain ⟨-, -, rfl⟩ := fwrite_eq_some ht
    exact (List.append_nil _).symm
  | fwrite hchild hhand ht =>
    obtain ⟨-, -, rfl⟩ := fwrite_eq_some ht
    exact (List.append_nil _).symm
  | timer hchild => split_ifs <;> exact (List.append_nil _).symm
  | advise hchild =>
    unfold State.advise
    split_ifs <;> exact (List.append_nil _).symm
  | _ => exact (List.append_nil _).symm

theorem handed_of_run {actions : List Action} (h : Run.run (step o) s actions = some t) :
    t.handed = s.handed ++ actions.filterMap Action.buffer? := by
  induction actions generalizing s with
  | nil =>
    cases h
    simp
  | cons a actions ih =>
    obtain ⟨s', hstep, hrun⟩ := (Run.run_cons_eq_some _).mp h
    rw [ih hrun, handed_of_moves (moves_of_step hstep), List.append_assoc]
    cases a <;> rfl

/-- The writer that appends each buffer at once. -/
theorem foldlM_write {writer : ThreadWriter} {buffers : List Bytes}
    (h : writer.position + buffers.flatten.length < 2 ^ 63) :
    ∃ writer', buffers.foldlM ThreadWriter.write writer = some writer' ∧
      writer'.buffers = writer.buffers ++ buffers := by
  induction buffers generalizing writer with
  | nil => exact ⟨writer, rfl, (List.append_nil _).symm⟩
  | cons buffer buffers ih =>
    rw [List.flatten_cons, List.length_append, ← Nat.add_assoc] at h
    obtain ⟨writer₁, hwrite⟩ := exists_write (lt_of_le_of_lt (Nat.le_add_right _ _) h)
    have hbuffers := write_eq_some hwrite
    have hposition : writer₁.position = writer.position + buffer.length := by
      unfold position
      rw [hbuffers]
      simp
    obtain ⟨writer₂, hfold, hwriter₂⟩ := @ih writer₁ (hposition ▸ h)
    refine ⟨writer₂, ?_, by rw [hwriter₂, hbuffers, List.append_assoc]; rfl⟩
    rw [List.foldlM_cons, hwrite]
    exact hfold

/-- **The file is what was handed over.**  In every state it is so far a prefix of that, and
`position()` is where the next buffer will be; when the destructor has returned it is, as a whole, the
file of a writer that appends each buffer at once. -/
theorem written_of_run {actions : List Action} (h : Run.run (step o) {} actions = some s) :
    s.written <+: actions.filterMap Action.buffer? ∧
    s.position = (actions.filterMap Action.buffer?).flatten.length ∧
    (s.parent = .destroyed →
      ∃ writer, (actions.filterMap Action.buffer?).foldlM ThreadWriter.write empty = some writer ∧
        writer.buffers = s.written ∧ s.flushed = writer.position) := by
  have hinv := inv_of_run h
  have hhanded : s.handed = actions.filterMap Action.buffer? := handed_of_run h
  rw [← hhanded]
  refine ⟨⟨_, hinv.books.handed⟩, hinv.books.position, fun hdestroyed => ?_⟩
  have hexited := hinv.phases.joined (Or.inr hdestroyed)
  have hnone : s.hand = none := by
    rw [← Option.not_isSome_iff_eq_none, hinv.phases.hand]
    rintro ⟨last, hwriting⟩
    rw [hexited] at hwriting
    cases hwriting
  have hwritten : s.written = s.handed := by
    have hbooks := hinv.books.handed
    rwa [hnone, hinv.phases.data (Or.inr (Or.inr hexited)), Option.toList_none, List.append_nil,
      List.append_nil] at hbooks
  have hlt : empty.position + s.handed.flatten.length < 2 ^ 63 := by
    rw [← hwritten, ← hinv.books.childOffset]
    exact (Nat.zero_add _).symm ▸ hinv.books.childOffset_lt
  obtain ⟨writer, hfold, hbuffers⟩ := foldlM_write hlt
  refine ⟨writer, hfold, hbuffers.trans hwritten.symm, ?_⟩
  rw [hinv.books.closed hdestroyed, hinv.books.childOffset, hwritten, position, hbuffers]
  rfl

/-- A writer that is handed two bytes and flushed, up to where the child waits again. -/
def writeAndFlush : List Action :=
  [.write [1, 2], .parent, .flush, .parent] ++ List.replicate 15 .child

/-- The destructor of a writer whose child waits. -/
def destructor : List Action :=
  [.destroy, .parent] ++ List.replicate 5 .child ++ [.parent, .parent]

theorem written_of_run_destroyed : ∃ s, Run.run (step {}) {} (writeAndFlush ++ destructor) = some s ∧
    s.parent = .destroyed ∧ s.written <+: [[1, 2]] ∧ s.position = 2 := by
  have hparent : (Run.run (step {}) {} (writeAndFlush ++ destructor)).map (·.parent) =
      some .destroyed := by decide
  obtain ⟨s, hrun, hs⟩ := Option.map_eq_some_iff.mp hparent
  obtain ⟨hfront, hposition, -⟩ := written_of_run hrun
  exact ⟨s, hrun, hs, hfront, hposition⟩

/-- **No signal is lost.**  While the child waits in `read` and nobody is about to signal it, all that
was handed over is written, and the parent is not waiting for the child. -/
theorem written_of_waiting {actions : List Action} (h : Run.run (step o) {} actions = some s)
    (hchild : s.child = .reading) (hpipe : s.pipe = 0)
    (hparent : s.parent ≠ .signaling ∧ s.parent ≠ .signalingDone) :
    s.written = actions.filterMap Action.buffer? ∧ s.parent = .idle := by
  have hinv := inv_of_run h
  have hhanded : s.handed = actions.filterMap Action.buffer? := handed_of_run h
  have hdata : s.data = [] := by
    by_contra hdata
    have hwakes := hinv.wakes.data hdata
    simp [hparent.1, hpipe, hchild] at hwakes
  have hdone : s.done = false := by
    by_contra hdone
    have hwakes := hinv.wakes.done (Bool.not_eq_false _ ▸ hdone)
    simp [hparent.2, hpipe, hchild, ChildPc.afterDone] at hwakes
  have hnone : s.hand = none := by
    rw [← Option.not_isSome_iff_eq_none, hinv.phases.hand]
    rintro ⟨last, hwriting⟩
    rw [hchild] at hwriting
    cases hwriting
  refine ⟨?_, ?_⟩
  · have hbooks := hinv.books.handed
    rwa [hnone, hdata, hhanded, Option.toList_none, List.append_nil, List.append_nil] at hbooks
  · have hclosing := hinv.phases.done
    rw [hdone] at hclosing
    cases hp : s.parent with
    | idle => rfl
    | signaling => exact absurd hp hparent.1
    | _ => rw [hp] at hclosing; cases hclosing

theorem written_of_waiting_flushed : ∃ s, Run.run (step {}) {} writeAndFlush = some s ∧
    s.written = [[1, 2]] := by
  have hwaiting : (Run.run (step {}) {} writeAndFlush).map
      (fun s => (s.child, s.pipe, s.parent)) = some (.reading, 0, .idle) := by decide
  obtain ⟨s, hrun, hs⟩ := Option.map_eq_some_iff.mp hwaiting
  obtain ⟨hchild, hpipe, hparent⟩ := Prod.mk.inj hs |>.imp_right Prod.mk.inj
  exact ⟨s, hrun, (written_of_waiting hrun hchild hpipe (by simp [hparent])).1⟩

/-! ### The destructor -/

/-- How many steps the child makes at most when nothing is added to the `n` buffers of `data_`. -/
def ChildPc.remaining (n : ℕ) : ChildPc → ℕ
  | exited => 0
  | stopping => 1
  | lastFlush => 2
  | popping true => 4 * n + 2
  | working true => 4 * n + 3
  | advising true | locking => 4 * n + 4
  | writing true | reading | popping false => 4 * n + 5
  | starting | working false => 4 * n + 6
  | timer | advising false => 4 * n + 7
  | flushing | writing false => 4 * n + 8

/-- How many steps the parent has before it in the destructor. -/
def ParentPc.remaining : ParentPc → ℕ
  | signalingDone => 3
  | joining => 2
  | writingAll => 1
  | _ => 0

/-- How many steps the threads have before them when the destructor was called. -/
def State.remaining (s : State) : ℕ := s.parent.remaining + s.child.remaining s.data.length

/-- A thread goes on. -/
def Action.IsThread (a : Action) : Prop := a = .parent ∨ a = .child ∨ a = .interrupted

instance (a : Action) : Decidable a.IsThread := by
  unfold Action.IsThread
  infer_instance

/-- A step of a thread in the destructor brings it nearer to its end. -/
theorem remaining_of_moves (hphases : Phases s) (hdone : s.done = true) (h : Moves o s a t) :
    t.done = true ∧ t.remaining + (if a.IsThread then 1 else 0) ≤ s.remaining := by
  have hclosing : s.parent.closing = true := hphases.done.symm.trans hdone
  cases h with
  | write buffer hparent | flush hparent | destroy hparent | signal hparent =>
    rw [hparent] at hclosing
    cases hclosing
  | signalDone hparent | join hparent | close hparent =>
    exact ⟨hdone, by simp [State.remaining, ParentPc.remaining, Action.IsThread, hparent,
      State.signal, State.fflush]⟩
  | writeAll hparent hdata ht =>
    have hexited := hphases.joined (Or.inl hparent)
    rw [hphases.data (Or.inr (Or.inr hexited))] at hdata
    cases hdata
  | fwrite hchild hhand ht =>
    obtain ⟨-, -, rfl⟩ := fwrite_eq_some ht
    refine ⟨hdone, ?_⟩
    cases ‹Bool› <;> simp [State.remaining, ChildPc.remaining, Action.IsThread, hchild]
  | pop hchild hdata =>
    refine ⟨hdone, ?_⟩
    cases ‹Bool› <;> simp [State.remaining, ChildPc.remaining, Action.IsThread, hchild, hdata]
    all_goals omega
  | work hchild hdata =>
    refine ⟨hdone, ?_⟩
    cases ‹Bool› <;> simp [State.remaining, ChildPc.remaining, Action.IsThread, hchild]
  | timer hchild =>
    split_ifs <;>
      exact ⟨hdone, by simp [State.remaining, ChildPc.remaining, hchild, State.fflush]⟩
  | advise hchild =>
    unfold State.advise
    cases ‹Bool› <;> split_ifs <;>
      exact ⟨hdone, by simp [State.remaining, ChildPc.remaining, hchild, State.fflush]⟩
  | lockFlush hchild hnot | lock hchild hnot =>
    rw [hdone] at hnot
    cases hnot
  | fwriteFails | timerFires | timerSignals =>
    exact ⟨hdone, by simp [State.remaining, Action.IsThread, State.signal]⟩
  | wait hchild hdata | leave hchild hdata =>
    exact ⟨hdone, by simp [State.remaining, ChildPc.remaining, Action.IsThread, hchild, hdata]⟩
  | start hchild | read hchild | interrupted hchild | lockDone hchild | fflush hchild
  | lastFlush hchild | stop hchild =>
    exact ⟨hdone, by simp [State.remaining, ChildPc.remaining, Action.IsThread, hchild,
      State.fflush]⟩

/-- The child goes on until it has left, but for a `fwrite` that fails. -/
theorem exists_childStep (hs : Inv o s) (hpipe : s.child = .reading → 0 < s.pipe)
    (hchild : s.child ≠ .exited) : (s.childStep o).isSome ∨ s.AtFwrite := by
  cases hc : s.child with
  | exited => exact absurd hc hchild
  | reading => exact Or.inl (by simp [State.childStep, hc, hpipe hc])
  | popping last =>
    obtain ⟨buffer, data, hdata⟩ := List.exists_cons_of_ne_nil (hs.phases.popping last hc)
    exact Or.inl (by simp [State.childStep, hc, hdata])
  | writing last => exact Or.inr (Or.inl ⟨last, hc⟩)
  | _ => exact Or.inl (by simp [State.childStep, hc])

/-- In the destructor a thread can go on, or `fwrite` fails. -/
theorem exists_step_of_done (hs : Inv o s) (haborted : s.aborted = false) (hdone : s.done = true)
    (hparent : s.parent ≠ .destroyed) :
    ∃ a t, (a.IsThread ∨ a = .fwriteFails) ∧ step o s a = some t := by
  have hclosing : s.parent.closing = true := hs.phases.done.symm.trans hdone
  have hthread : ∀ t, s.parentStep o = some t → ∃ a t, (a.IsThread ∨ a = .fwriteFails) ∧
      step o s a = some t := fun t ht => ⟨.parent, t, Or.inl (Or.inl rfl), by simp [step, haborted, ht]⟩
  cases hp : s.parent with
  | idle | signaling =>
    rw [hp] at hclosing
    cases hclosing
  | signalingDone => exact hthread _ (by rw [State.parentStep, hp])
  | joining =>
    by_cases hchild : s.child = .exited
    · exact hthread _ (by rw [State.parentStep, hp]; exact if_pos hchild)
    · have hpipe : s.child = .reading → 0 < s.pipe := by
        intro hreading
        simpa [hp, hreading, ChildPc.afterDone] using hs.wakes.done hdone
      rcases exists_childStep hs hpipe hchild with h | h
      · obtain ⟨t, ht⟩ := Option.isSome_iff_exists.mp h
        exact ⟨.child, t, Or.inl (Or.inr (Or.inl rfl)), by simp [step, haborted, ht]⟩
      · exact ⟨.fwriteFails, { s with aborted := true }, Or.inr rfl, by simp [step, haborted, h]⟩
  | writingAll =>
    have hdata := hs.phases.data (Or.inr (Or.inr (hs.phases.joined (Or.inl hp))))
    exact hthread { s.fflush with parent := .destroyed } (by simp [State.parentStep, hp, hdata])
  | destroyed => exact absurd hp hparent

/-- **The destructor returns.**  After it was called, the threads go on for a number of steps that is
known by then, whatever the signal handlers do; and as long as it has not returned, one of the
threads can go on, or the process is ended by a `fwrite` that fails. -/
theorem destructor_returns {before after : List Action}
    (hbefore : Run.run (step o) {} before = some s) (hdone : s.done = true)
    (hafter : Run.run (step o) s after = some t) :
    after.countP (·.IsThread) ≤ s.remaining ∧
    (t.parent = .destroyed ∨ t.aborted = true ∨
      ∃ a t', (a.IsThread ∨ a = .fwriteFails) ∧ step o t a = some t') := by
  have hcount : ∀ {s t : State} {actions : List Action}, Inv o s → s.done = true →
      Run.run (step o) s actions = some t →
      Inv o t ∧ t.done = true ∧ t.remaining + actions.countP (·.IsThread) ≤ s.remaining := by
    intro s t actions hs hdone hrun
    induction actions generalizing s with
    | nil =>
      cases hrun
      exact ⟨hs, hdone, le_rfl⟩
    | cons a actions ih =>
      obtain ⟨s', hstep, hrun⟩ := (Run.run_cons_eq_some _).mp hrun
      have hmoves := moves_of_step hstep
      obtain ⟨hdone', hle⟩ := remaining_of_moves hs.phases hdone hmoves
      obtain ⟨ht, htdone, hrest⟩ := ih (hs.moves hmoves) hdone' hrun
      refine ⟨ht, htdone, ?_⟩
      rw [List.countP_cons]
      simp only [decide_eq_true_eq]
      omega
  obtain ⟨ht, htdone, hle⟩ := hcount (inv_of_run hbefore) hdone hafter
  refine ⟨(Nat.le_add_left _ _).trans hle, ?_⟩
  by_cases hdestroyed : t.parent = .destroyed
  · exact Or.inl hdestroyed
  cases haborted : t.aborted with
  | true => exact Or.inr (Or.inl rfl)
  | false => exact Or.inr (Or.inr (exists_step_of_done ht haborted htdone hdestroyed))

theorem destructor_returns_run : ∃ s t, Run.run (step {}) {} (writeAndFlush ++ [.destroy]) = some s ∧
    Run.run (step {}) s destructor.tail = some t ∧
    destructor.tail.countP (·.IsThread) ≤ s.remaining := by
  have hdone : (Run.run (step {}) {} (writeAndFlush ++ [.destroy])).map (·.done) = some true := by
    decide
  have hsome : (Run.run (step {}) {} (writeAndFlush ++ [.destroy] ++ destructor.tail)).isSome := by
    decide
  obtain ⟨s, hrun, hs⟩ := Option.map_eq_some_iff.mp hdone
  obtain ⟨t, ht⟩ := Option.isSome_iff_exists.mp hsome
  obtain ⟨s', hrun', hafter⟩ := (Run.run_append_eq_some _).mp ht
  obtain rfl : s' = s := Option.some.inj (hrun'.symm.trans hrun)
  exact ⟨s', t, hrun, hafter, (destructor_returns hrun hs hafter).1⟩

/-! ### `posix_fadvise` -/

theorem nextFadvise_spec {blockSize childOffset : ℕ} (hpos : 0 < blockSize) :
    ∀ {n next : ℕ}, childOffset ≤ next + n →
      ∃ k, State.nextFadvise blockSize childOffset n next = next + k * blockSize ∧
        childOffset ≤ next + k * blockSize + blockSize ∧
        (k = 0 ∨ next + k * blockSize < childOffset) ∧
        (next + blockSize < childOffset → 0 < k) := by
  intro n
  induction n with
  | zero =>
    intro next h
    exact ⟨0, by simp [State.nextFadvise], by omega, Or.inl rfl, by omega⟩
  | succ n ih =>
    intro next h
    rw [State.nextFadvise]
    split_ifs with hlt
    · obtain ⟨k, hk, hle, hor, -⟩ := @ih (next + blockSize) (by omega)
      have hsum : next + blockSize + k * blockSize = next + (k + 1) * blockSize := by ring
      refine ⟨k + 1, hk.trans hsum, by omega, Or.inr ?_, fun _ => Nat.succ_pos k⟩
      rcases hor with rfl | hor <;> omega
    · exact ⟨0, by simp, by omega, Or.inl rfl, fun h' => absurd h' hlt⟩

/-- The ranges follow each other from `start` to `stop`, each one of whole blocks. -/
def Tiles (blockSize : ℕ) : ℕ → List (ℕ × ℕ) → ℕ → Prop
  | start, [], stop => start = stop
  | start, (offset, length) :: ranges, stop =>
    offset = start ∧ 0 < length ∧ blockSize ∣ length ∧ Tiles blockSize (offset + length) ranges stop

theorem Tiles.concat {blockSize start stop length : ℕ} {ranges : List (ℕ × ℕ)}
    (h : Tiles blockSize start ranges stop) (hpos : 0 < length) (hdvd : blockSize ∣ length) :
    Tiles blockSize start (ranges ++ [(stop, length)]) (stop + length) := by
  induction ranges generalizing start with
  | nil => exact ⟨h.symm, hpos, hdvd, rfl⟩
  | cons range ranges ih =>
    obtain ⟨hoffset, hlength, hblocks, h⟩ := h
    exact ⟨hoffset, hlength, hblocks, ih h⟩

/-- What was advised so far. -/
structure Advice (o : Options) (s : State) : Prop where
  tiles : Tiles o.blockSize 0 s.advised s.lastFadvise
  flushed : s.lastFadvise ≤ s.flushed
  near : o.asynchronous = true →
    s.childOffset ≤ s.lastFadvise + o.blockSize ∨ ∃ last, s.child = .advising last

theorem Advice.moves (hinv : Inv o s) (hs : Advice o s) (h : Moves o s a t) : Advice o t := by
  have hflush : s.lastFadvise ≤ s.childOffset := hs.flushed.trans hinv.books.flushed
  cases h with
  | writeAll hparent hdata ht =>
    have hexited := hinv.phases.joined (Or.inl hparent)
    rw [hinv.phases.data (Or.inr (Or.inr hexited))] at hdata
    cases hdata
  | fwrite hchild hhand ht =>
    obtain ⟨-, -, rfl⟩ := fwrite_eq_some ht
    exact { hs with near := fun _ => Or.inr ⟨_, rfl⟩ }
  | advise hchild =>
    unfold State.advise
    split_ifs with hfar
    · obtain ⟨k, hk, hle, hor, hpos⟩ := @nextFadvise_spec o.blockSize s.childOffset
        o.blockSize_pos s.childOffset s.lastFadvise (Nat.le_add_left _ _)
      have hk0 := hpos (by omega)
      have hlt := hor.resolve_left hk0.ne'
      have hlength : s.lastFadvise + k * o.blockSize - s.lastFadvise = k * o.blockSize :=
        Nat.add_sub_cancel_left _ _
      refine ⟨?_, ?_, fun _ => Or.inl ?_⟩
      · dsimp only [State.fflush]
        rw [hk, hlength]
        exact hs.tiles.concat (Nat.mul_pos hk0 o.blockSize_pos) (Dvd.intro_left k rfl)
      · dsimp only [State.fflush]
        rw [hk]
        exact hlt.le
      · dsimp only [State.fflush]
        rw [hk]
        exact hle
    · refine { hs with near := fun hasync => Or.inl ?_ }
      have hnear : ¬s.childOffset - s.lastFadvise > o.blockSize := fun h => hfar ⟨hasync, h⟩
      dsimp only
      omega
  | timer hchild =>
    split_ifs <;> refine { hs with flushed := ?_, near := fun hasync => Or.inl ?_ }
    · exact hflush
    · exact (hs.near hasync).resolve_right (by simp [hchild])
    · exact hs.flushed
    · exact (hs.near hasync).resolve_right (by simp [hchild])
  | fflush hchild | lastFlush hchild =>
    exact { hs with
      flushed := hflush
      near := fun hasync => Or.inl ((hs.near hasync).resolve_right (by simp [hchild])) }
  | close hparent => exact { hs with flushed := hflush }
  | write | flush | destroy | signal | signalDone | join | fwriteFails | timerFires | timerSignals =>
    exact { hs with }
  | start hchild | read hchild | interrupted hchild | lockDone hchild | lockFlush hchild
  | lock hchild | work hchild | wait hchild | leave hchild | pop hchild | stop hchild =>
    exact { hs with
      near := fun hasync => Or.inl ((hs.near hasync).resolve_right (by simp [hchild])) }

/-- **`posix_fadvise` is told of whole blocks, one after the other** from the start of the file, each
when it is in the file; and in asynchronous mode no more than a block that is written stays behind,
but for the moment between a write and the advice. -/
theorem advice_of_run {actions : List Action} (h : Run.run (step o) {} actions = some s) :
    Tiles o.blockSize 0 s.advised s.lastFadvise ∧ s.lastFadvise ≤ s.flushed ∧
    (o.asynchronous = true →
      s.written.flatten.length ≤ s.lastFadvise + o.blockSize ∨ ∃ last, s.child = .advising last) := by
  have hboth : Inv o s ∧ Advice o s :=
    Run.run_induction (I := fun s => Inv o s ∧ Advice o s)
      (fun _ _ _ hs h => ⟨hs.1.moves (moves_of_step h), hs.2.moves hs.1 (moves_of_step h)⟩)
      ⟨inv_init o, rfl, le_rfl, fun _ => Or.inl (Nat.zero_le _)⟩ h
  obtain ⟨hinv, hadvice⟩ := hboth
  rw [← hinv.books.childOffset]
  exact ⟨hadvice.tiles, hadvice.flushed, hadvice.near⟩

theorem advice_of_run_two : ∃ s, Run.run (step { asynchronous := true, blockSize := 1 }) {}
      (.write [1, 2] :: .parent :: List.replicate 9 .child) = some s ∧
    s.lastFadvise ≤ s.flushed := by
  have hsome : (Run.run (step { asynchronous := true, blockSize := 1 }) {}
      (.write [1, 2] :: .parent :: List.replicate 9 .child)).isSome := by decide
  obtain ⟨s, hrun⟩ := Option.isSome_iff_exists.mp hsome
  exact ⟨s, hrun, (advice_of_run hrun).2.1⟩

/-! ### `Flush` -/

/-- How often `read` will find a byte, whoever else writes to the pipe. -/
def State.signals (s : State) : ℕ :=
  s.pipe + if s.parent = .signaling ∨ s.parent = .signalingDone then 1 else 0

/-- The first `m` bytes are in the file, or on their way: written and to be flushed, or to be written
before a `read` behind which they are flushed. -/
structure Flushing (m : ℕ) (s : State) : Prop where
  flush : s.flush = true
  le : m ≤ s.position
  owed : m ≤ s.flushed ∨
    m ≤ s.childOffset ∧ (s.child = .locking ∨ s.child = .flushing ∨ 0 < s.signals) ∨
    s.child ≠ .starting ∧ s.child ≠ .reading ∧ 0 < s.signals ∨
    1 < s.signals ∨ s.child.afterDone = true

/-- A step that the child has no part in. -/
theorem Flushing.mono {m : ℕ} (hs : Flushing m s) (hflush : t.flush = true)
    (hposition : s.position ≤ t.position) (hflushed : s.flushed ≤ t.flushed)
    (hoffset : t.childOffset = s.childOffset) (hchild : t.child = s.child)
    (hsignals : s.signals ≤ t.signals ∨ 1 < t.signals) : Flushing m t := by
  refine ⟨hflush, hs.le.trans hposition, ?_⟩
  rw [hoffset, hchild]
  rcases hsignals with hsignals | hsignals
  · rcases hs.owed with h | ⟨h, hnext⟩ | ⟨hstarting, hreading, h⟩ | h | h
    · exact Or.inl (h.trans hflushed)
    · exact Or.inr (Or.inl ⟨h, hnext.imp_right (Or.imp_right fun h => h.trans_le hsignals)⟩)
    · exact Or.inr (Or.inr (Or.inl ⟨hstarting, hreading, h.trans_le hsignals⟩))
    · exact Or.inr (Or.inr (Or.inr (Or.inl (h.trans_le hsignals))))
    · exact Or.inr (Or.inr (Or.inr (Or.inr h)))
  · exact Or.inr (Or.inr (Or.inr (Or.inl hsignals)))

/-- All that was handed over is written where nothing is left. -/
theorem Inv.position_eq (hs : Inv o s) (hdata : s.data = [])
    (hwriting : ∀ last, s.child ≠ .writing last) : s.position = s.childOffset := by
  have hnone : s.hand = none := by
    rw [← Option.not_isSome_iff_eq_none, hs.phases.hand]
    rintro ⟨last, h⟩
    exact hwriting last h
  rw [hs.books.position, hs.books.childOffset, ← hs.books.handed, hnone, hdata]
  simp

theorem Flushing.moves {m : ℕ} (hinv : Inv o s) (hs : Flushing m s) (h : Moves o s a t) :
    Flushing m t := by
  have hflushed := hinv.books.flushed
  have hsize := o.pipeSize_gt
  cases h with
  | write buffer hparent =>
    exact hs.mono hs.flush (Nat.le_add_right _ _) le_rfl rfl rfl
      (Or.inl (by simp [State.signals, State.write, hparent]))
  | flush hparent | destroy hparent =>
    exact hs.mono (by simp [hs.flush]) le_rfl le_rfl rfl rfl
      (Or.inl (by simp [State.signals, hparent]))
  | signal hparent | signalDone hparent =>
    refine hs.mono hs.flush le_rfl le_rfl rfl rfl ?_
    simp only [State.signals, State.signal, hparent]
    simp
    omega
  | timerSignals =>
    refine hs.mono hs.flush le_rfl le_rfl rfl rfl ?_
    simp only [State.signals, State.signal]
    split_ifs <;> omega
  | join hparent | fwriteFails | timerFires =>
    exact hs.mono hs.flush le_rfl le_rfl rfl rfl (Or.inl (by simp [State.signals, *]))
  | close hparent =>
    exact hs.mono hs.flush le_rfl hflushed rfl rfl
      (Or.inl (by simp [State.signals, State.fflush, hparent]))
  | writeAll hparent hdata ht =>
    have hexited := hinv.phases.joined (Or.inl hparent)
    rw [hinv.phases.data (Or.inr (Or.inr hexited))] at hdata
    cases hdata
  | lastFlush hchild =>
    refine ⟨hs.flush, hs.le, Or.inl ?_⟩
    exact hs.le.trans (hinv.position_eq (hinv.phases.data (Or.inl hchild)) (by simp [hchild])).le
  | fwrite hchild hhand ht =>
    obtain ⟨-, -, rfl⟩ := fwrite_eq_some ht
    obtain ⟨hflush, hle, howed⟩ := hs
    constructor <;> grind [State.signals, ChildPc.afterDone]
  | timer hchild =>
    obtain ⟨hflush, hle, howed⟩ := hs
    split_ifs <;> constructor <;> grind [State.signals, State.fflush, ChildPc.afterDone]
  | advise hchild =>
    obtain ⟨hflush, hle, howed⟩ := hs
    unfold State.advise
    split_ifs <;> constructor <;> grind [State.signals, State.fflush, ChildPc.afterDone]
  | wait hchild hdata | leave hchild hdata =>
    have hposition := hinv.position_eq hdata (by simp [hchild])
    obtain ⟨hflush, hle, howed⟩ := hs
    constructor <;> grind [State.signals, ChildPc.afterDone]
  | _ =>
    obtain ⟨hflush, hle, howed⟩ := hs
    constructor <;> grind [State.signals, State.fflush, ChildPc.afterDone]

/-- `Flush` puts what was handed over on its way. -/
theorem flushing_of_flush (hs : Inv o s) (h : step o s .flush = some t) : Flushing s.position t := by
  cases moves_of_step h with
  | flush hparent hmutex =>
    refine ⟨rfl, le_rfl, ?_⟩
    by_cases hdata : s.data = []
    · by_cases hwriting : ∃ last, s.child = .writing last
      · obtain ⟨last, hwriting⟩ := hwriting
        exact Or.inr (Or.inr (Or.inl (by simp [State.signals, hwriting])))
      · have hposition := hs.position_eq hdata fun last h => hwriting ⟨last, h⟩
        exact Or.inr (Or.inl ⟨hposition.le, Or.inr (Or.inr (by simp [State.signals]))⟩)
    · rcases hs.wakes.data hdata with h | h | h
      · rw [hparent] at h
        cases h
      · exact Or.inr (Or.inr (Or.inr (Or.inl (by simpa [State.signals] using h))))
      · exact Or.inr (Or.inr (Or.inl ⟨h.1, h.2, by simp [State.signals]⟩))

/-- **A flush reaches all that was handed over before it**, by the time at which the child waits again
or the writer is gone. -/
theorem flushed_of_run {before after : List Action}
    (h : Run.run (step o) {} (before ++ .flush :: after) = some t)
    (hwaiting : t.child = .reading ∧ t.pipe = 0 ∧ t.parent ≠ .signaling ∧ t.parent ≠ .signalingDone ∨
      t.parent = .destroyed) :
    (before.filterMap Action.buffer?).flatten.length ≤ t.flushed := by
  obtain ⟨s, hbefore, hrun⟩ := (Run.run_append_eq_some _).mp h
  obtain ⟨s', hflush, hafter⟩ := (Run.run_cons_eq_some _).mp hrun
  have hinv := inv_of_run hbefore
  have hboth : Inv o t ∧ Flushing s.position t :=
    Run.run_induction (I := fun t => Inv o t ∧ Flushing s.position t)
      (fun _ _ _ ht h => ⟨ht.1.moves (moves_of_step h), ht.2.moves ht.1 (moves_of_step h)⟩)
      ⟨hinv.moves (moves_of_step hflush), flushing_of_flush hinv hflush⟩ hafter
  obtain ⟨ht, hflushing⟩ := hboth
  have hposition : s.position = (before.filterMap Action.buffer?).flatten.length := by
    rw [hinv.books.position, handed_of_run hbefore]
    rfl
  rw [← hposition]
  rcases hwaiting with ⟨hchild, hpipe, hsignaling, hdone⟩ | hdestroyed
  · have hsignals : t.signals = 0 := by simp [State.signals, hpipe, hsignaling, hdone]
    simpa [hchild, hsignals, ChildPc.afterDone] using hflushing.owed
  · have hexited := ht.phases.joined (Or.inr hdestroyed)
    rw [ht.books.closed hdestroyed, ← ht.position_eq (ht.phases.data (Or.inr (Or.inr hexited)))
      (by simp [hexited])]
    exact hflushing.le

theorem flushed_of_run_two : ∃ t, Run.run (step {}) {} writeAndFlush = some t ∧ 2 ≤ t.flushed := by
  have hwaiting : (Run.run (step {}) {} writeAndFlush).map
      (fun s => (s.child, s.pipe, s.parent)) = some (.reading, 0, .idle) := by decide
  obtain ⟨t, hrun, ht⟩ := Option.map_eq_some_iff.mp hwaiting
  obtain ⟨hchild, hpipe, hparent⟩ := Prod.mk.inj ht |>.imp_right Prod.mk.inj
  have hsplit : Run.run (step {}) {} ([.write [1, 2], .parent] ++ .flush :: writeAndFlush.drop 3) =
      some t := hrun
  exact ⟨t, hrun, flushed_of_run hsplit
    (Or.inl ⟨hchild, hpipe, by simp [hparent], by simp [hparent]⟩)⟩

end Mjlib.Base.ThreadWriter

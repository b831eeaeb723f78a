import Mathlib
import Mjlib.Micro.StreamPipe

/-!
# How far the operations of a pipe have come

Each operation goes through the states of `Status`: a read that meets a write that is waiting is
`first`, and the write `second`, until the event that it posts runs; then both are `calling`.  The
statuses determine the fields of the two sides (`sides`).  `Books` is about the callbacks alone: each
that was started was invoked once, or is held by the operation of its port.
-/

namespace Mjlib.Micro.StreamPipe

/-! ### Statuses -/

/-- How far the operation of a port has come. -/
inductive Status
  | idle
  /-- It is outstanding: nothing has met it. -/
  | waiting (callback : Callback)
  /-- It is of zero bytes, and an event is posted for it. -/
  | zero (callback : Callback)
  /-- It met an operation that was waiting, and an event is posted for them. -/
  | first (callback : Callback) (toCopy : ℕ)
  /-- It was waiting, and was met. -/
  | second (callback : Callback) (toCopy : ℕ)
  /-- Its event is running, and is to invoke the callback. -/
  | calling (callback : Callback) (toCopy : ℕ)

/-- The size of the buffer. -/
def Op.size : Op → ℕ
  | read _ size => size
  | write _ data => data.length

namespace Status

/-- The callback of the operation. -/
def callback : Status → Option Callback
  | idle => none
  | waiting c | zero c | first c _ | second c _ | calling c _ => some c

/-- The callback that is stored as an outstanding one. -/
def outstanding : Status → Option Callback
  | waiting c | second c _ => some c
  | _ => none

/-- The callback that is stored as a pending one. -/
def pending : Status → Option Callback
  | zero c | first c _ => some c
  | _ => none

/-- The buffer of a read that is outstanding. -/
def buffer (status : Status) : Span :=
  match status.outstanding with
  | some ⟨number, .read _ size⟩ => ⟨number, size⟩
  | _ => {}

/-- The data of a write that is outstanding. -/
def data (status : Status) : Bytes :=
  match status.outstanding with
  | some ⟨_, .write _ data⟩ => data
  | _ => []

/-- The event that is posted by the operation. -/
def event : Port → Status → Option Event
  | .reader x, first _ n => some (.read x n)
  | .writer x, first _ n => some (.write x n)
  | .reader x, zero _ => some (.readZero x)
  | .writer x, zero _ => some (.writeZero x)
  | _, _ => none

/-- The call that is to be made. -/
def call : Status → Option (Option Callback × ℕ)
  | calling c n => some (some c, n)
  | _ => none

/-- What is to be copied fits. -/
def Bounded : Status → Prop
  | zero c => c.op.size = 0
  | first c n | second c n | calling c n => n ≤ c.op.size
  | _ => True

/-- An operation that met another one, or was met. -/
def Matched : Status → Prop
  | first _ _ | second _ _ => True
  | _ => False

/-- The statuses of a port and of the one opposite. -/
inductive Linked (memory : ℕ → Bytes) : Status → Status → Prop
  | first {c d n} (h : c.bytes memory n = d.bytes memory n) : Linked memory (first c n) (second d n)
  | second {c d n} (h : c.bytes memory n = d.bytes memory n) : Linked memory (second c n) (first d n)
  | unmatched {p q : Status} (hp : ¬ p.Matched) (hq : ¬ q.Matched)
    (h : ∀ c d, p = waiting c → q ≠ waiting d) : Linked memory p q

end Status

/-- The port at the other end. -/
def Port.opposite : Port → Port
  | reader x => writer x.other
  | writer x => reader x.other

@[simp] theorem SideId.other_other (x : SideId) : x.other.other = x := by cases x <;> rfl

theorem SideId.other_ne (x : SideId) : x.other ≠ x := by cases x <;> nofun

@[simp] theorem Port.opposite_opposite (p : Port) : p.opposite.opposite = p := by
  cases p <;> simp [opposite]

theorem Port.opposite_ne (p : Port) : p.opposite ≠ p := by cases p <;> nofun

/-- Where an event comes from. -/
def Event.port : Event → Port
  | read x _ | readZero x => .reader x
  | write x _ | writeZero x => .writer x

theorem Status.port_of_event {p : Port} {status : Status} {e : Event}
    (h : status.event p = some e) : e.port = p := by
  cases p <;> cases status <;> cases h <;> rfl

theorem Status.event_idle (p : Port) : idle.event p = none := by cases p <;> rfl

theorem Status.callback_of_outstanding {status : Status} {c : Callback}
    (h : status.outstanding = some c) : status.callback = some c := by
  cases status <;> cases h <;> rfl

theorem Status.Linked.symm {memory : ℕ → Bytes} {p q : Status} (h : Linked memory p q) :
    Linked memory q p := by
  cases h with
  | first h => exact .second h.symm
  | second h => exact .first h.symm
  | unmatched hp hq h => exact .unmatched hq hp fun c d hc hd => h d c hd hc

/-- What the statuses make of the fields of a side. -/
def sides (σ : Port → Status) (x : SideId) : Side where
  outstandingReadBuffer := (σ (.reader x)).buffer
  outstandingReadCallback := (σ (.reader x)).outstanding
  pendingReadCallback := (σ (.reader x)).pending
  outstandingWriteBuffer := (σ (.writer x)).data
  outstandingWriteCallback := (σ (.writer x)).outstanding
  pendingWriteCallback := (σ (.writer x)).pending

variable {σ : Port → Status} {s s' : State} {x : SideId} {p q : Port} {c d : Callback} {n : ℕ}

theorem sides_reader (σ : Port → Status) (x : SideId) (status : Status) :
    sides (Function.update σ (.reader x) status) =
      Function.update (sides σ) x { sides σ x with
        outstandingReadBuffer := status.buffer
        outstandingReadCallback := status.outstanding
        pendingReadCallback := status.pending } := by
  funext y
  rcases eq_or_ne y x with rfl | hne
  · simp [sides]
  · simp [sides, hne]

theorem sides_writer (σ : Port → Status) (x : SideId) (status : Status) :
    sides (Function.update σ (.writer x) status) =
      Function.update (sides σ) x { sides σ x with
        outstandingWriteBuffer := status.data
        outstandingWriteCallback := status.outstanding
        pendingWriteCallback := status.pending } := by
  funext y
  rcases eq_or_ne y x with rfl | hne
  · simp [sides]
  · simp [sides, hne]

theorem sides_reader_pending (x : SideId) (status : Status) (hs : s.side = sides σ)
    (h : (σ (.reader x)).outstanding = none) (hstatus : status.outstanding = none) :
    Function.update s.side x { s.side x with pendingReadCallback := status.pending } =
      sides (Function.update σ (.reader x) status) := by
  rw [hs, sides_reader, sides, Status.buffer, Status.buffer, h, hstatus]

theorem sides_writer_pending (x : SideId) (status : Status) (hs : s.side = sides σ)
    (h : (σ (.writer x)).outstanding = none) (hstatus : status.outstanding = none) :
    Function.update s.side x { s.side x with pendingWriteCallback := status.pending } =
      sides (Function.update σ (.writer x) status) := by
  rw [hs, sides_writer, sides, Status.data, Status.data, h, hstatus]

theorem sides_reader_outstanding (x : SideId) (status : Status) (hs : s.side = sides σ)
    (h : (σ (.reader x)).pending = status.pending) :
    Function.update s.side x { s.side x with
        outstandingReadBuffer := status.buffer
        outstandingReadCallback := status.outstanding } =
      sides (Function.update σ (.reader x) status) := by
  rw [hs, sides_reader, sides, h]

theorem sides_writer_outstanding (x : SideId) (status : Status) (hs : s.side = sides σ)
    (h : (σ (.writer x)).pending = status.pending) :
    Function.update s.side x { s.side x with
        outstandingWriteBuffer := status.data
        outstandingWriteCallback := status.outstanding } =
      sides (Function.update σ (.writer x) status) := by
  rw [hs, sides_writer, sides, h]

/-! ### Callbacks -/

/-- Every callback that was started was invoked once, or it is held by its port. -/
structure Books (held : Port → Option Callback) (started invoked : List Callback) : Prop where
  numbers : started.map Callback.number = List.range started.length
  port : ∀ {p c}, held p = some c → c.op.port = p
  started_iff : ∀ c, c ∈ started ↔ c ∈ invoked ∨ held c.op.port = some c
  disjoint : ∀ {p c}, held p = some c → c ∉ invoked
  nodup : invoked.Nodup

namespace Books

variable {held : Port → Option Callback} {started invoked : List Callback}

theorem mem_started (h : Books held started invoked) (hp : held p = some c) : c ∈ started := by
  rw [h.started_iff, h.port hp]
  exact .inr hp

theorem number_lt (h : Books held started invoked) (hc : c ∈ started) :
    c.number < started.length := by
  have hmem : c.number ∈ started.map Callback.number := List.mem_map_of_mem hc
  rwa [h.numbers, List.mem_range] at hmem

theorem number_inj (h : Books held started invoked) (hc : c ∈ started) (hd : d ∈ started)
    (heq : c.number = d.number) : c = d := by
  have hnodup : (started.map Callback.number).Nodup := by
    rw [h.numbers]
    exact List.nodup_range
  exact List.inj_on_of_nodup_map hnodup hc hd heq

theorem number_ne (h : Books held started invoked) (hp : held p = some c) (hq : held q = some d)
    (hne : p ≠ q) : c.number ≠ d.number := by
  intro heq
  have hcd : c = d := h.number_inj (h.mem_started hp) (h.mem_started hq) heq
  subst hcd
  exact hne ((h.port hp).symm.trans (h.port hq))

theorem start (h : Books held started invoked) (hp : held c.op.port = none)
    (hnumber : c.number = started.length) :
    Books (Function.update held c.op.port (some c)) (started ++ [c]) invoked := by
  have hnew : c ∉ started := by
    intro hc
    exact absurd (h.number_lt hc) (by omega)
  refine ⟨?_, ?_, fun d => ?_, ?_, h.nodup⟩
  · rw [List.map_append, h.numbers, List.length_append, List.length_singleton, List.range_succ,
      List.map_singleton, hnumber]
  · intro q d hd
    rw [Function.update_apply] at hd
    split_ifs at hd with hq
    · cases hd
      exact hq.symm
    · exact h.port hd
  · rw [List.mem_append, h.started_iff, List.mem_singleton, Function.update_apply]
    split_ifs with hq
    · rw [hq, hp]
      simp [eq_comm]
    · have hne : d ≠ c := by
        rintro rfl
        exact hq rfl
      simp [hne]
  · intro q d hd
    rw [Function.update_apply] at hd
    split_ifs at hd with hq
    · cases hd
      exact fun hc => hnew ((h.started_iff c).mpr (.inl hc))
    · exact h.disjoint hd

theorem complete (h : Books held started invoked) (hp : held p = some c) :
    Books (Function.update held p none) started (invoked ++ [c]) := by
  refine ⟨h.numbers, ?_, fun d => ?_, ?_, ?_⟩
  · intro q d hd
    rw [Function.update_apply] at hd
    split_ifs at hd with hq
    exact h.port hd
  · rw [h.started_iff, List.mem_append, List.mem_singleton, Function.update_apply, or_assoc]
    refine or_congr Iff.rfl ?_
    split_ifs with hq
    · rw [hq, hp]
      simp [eq_comm]
    · have hne : d ≠ c := by
        rintro rfl
        exact hq (h.port hp)
      simp [hne]
  · intro q d hd hmem
    rw [Function.update_apply] at hd
    split_ifs at hd with hq
    rcases List.mem_append.mp hmem with hmem | hmem
    · exact h.disjoint hd hmem
    · obtain rfl := List.mem_singleton.mp hmem
      exact hq ((h.port hd).symm.trans (h.port hp))
  · exact List.nodup_append.mpr ⟨h.nodup, List.nodup_singleton c, fun a ha b hb hab => by
      obtain rfl := List.mem_singleton.mp hb
      subst hab
      exact h.disjoint hp ha⟩

end Books

end Mjlib.Micro.StreamPipe

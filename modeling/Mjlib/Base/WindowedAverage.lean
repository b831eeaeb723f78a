import Mjlib.Lib.IntegerType
import Mjlib.Lib.RingBuffer
import Mjlib.Lib.Run

/-!
# The average of a window

`base::WindowedAverage` keeps the last values in a ring buffer, with their sum.  The average divides
the sum by the number of values, as a value of their type `T`: a number that the type does not have
becomes another one, or zero.
-/

namespace Mjlib.Base.WindowedAverage

open RingBuffer (last Rings)

/-- The fields of a `WindowedAverage`. -/
structure State where
  data : List ℤ
  total : ℤ := 0
  capacity : ℕ
  size : ℕ := 0
  pos : ℕ := 0
deriving DecidableEq, Repr

/-- `WindowedAverage::WindowedAverage`. -/
def new (maxCapacity capacity : ℕ) : State :=
  { data := List.replicate maxCapacity 0, capacity := min maxCapacity capacity }

/-- `Add`, for an `AccumType`. -/
def add (accumType : IntegerType) (value : ℤ) (s : State) : State :=
  let old := s.data.getD s.pos 0
  let total := accumType.convert (s.total + value)
  let size := min (s.size + 1) s.capacity
  { s with
    data := s.data.set s.pos value
    pos := (s.pos + 1) % s.capacity
    size
    total := if s.size = size then accumType.convert (total - old) else total }

/-- `average`; nothing for a division by zero. -/
def average (T accumType : IntegerType) (s : State) : Option ℤ :=
  if s.size = 0 then some 0
  else (IntegerType.divide accumType s.total T (T.convert s.size)).map T.convert

/-- A call of `Add` is a step. -/
def step (accumType : IntegerType) (s : State) (value : ℤ) : Option State :=
  some (add accumType value s)

/-- The value is one of `T`, and the accumulator does not overflow when it is added. -/
def NoOverflow (T accumType : IntegerType) (s : State) (value : ℤ) : Prop :=
  T.InRange value ∧ accumType.InRange (s.total + value) ∧
    (s.size = min (s.size + 1) s.capacity →
      accumType.InRange (s.total + value - s.data.getD s.pos 0))

instance (T accumType : IntegerType) (s : State) (value : ℤ) :
    Decidable (NoOverflow T accumType s value) :=
  inferInstanceAs (Decidable (_ ∧ _))

/-- The sum and the average are those of the last values, and the divisor is their number. -/
structure Averages (T accumType : IntegerType) (capacity : ℕ) (values : List ℤ) (s : State) :
    Prop where
  total : s.total = (last capacity values).sum
  size : s.size = min values.length capacity
  divisor : T.convert s.size = s.size
  average : average T accumType s = some ((last capacity values).sum.tdiv s.size)

/-! ### The invariant -/

section
variable {T accumType : IntegerType} {capacity : ℕ} {values : List ℤ} {s : State} {value : ℤ}

/-- The ring buffer holds the last values, and the total is their sum. -/
structure Holds (T accumType : IntegerType) (capacity : ℕ) (values : List ℤ) (s : State) :
    Prop where
  rings : Rings capacity values s.data
  capacity_eq : s.capacity = capacity
  size : s.size = min values.length capacity
  pos : s.pos = values.length % capacity
  total : s.total = (last capacity values).sum
  inRange : ∀ v ∈ values, T.InRange v
  accum : accumType.InRange s.total

theorem inRange_zero (t : IntegerType) : t.InRange 0 := by
  have hzero : t.convert 0 = 0 := by
    rw [IntegerType.convert]
    split_ifs
    · exact Int.zero_bmod
    · exact Int.zero_emod _
  exact hzero ▸ t.inRange_convert 0

theorem holds_new {maxCapacity : ℕ} (hle : capacity ≤ maxCapacity) :
    Holds T accumType capacity [] (new maxCapacity capacity) where
  rings := ⟨by rwa [new, List.length_replicate], nofun⟩
  capacity_eq := min_eq_right hle
  size := by simp [new]
  pos := by simp [new]
  total := by simp [new, last]
  inRange := nofun
  accum := inRange_zero accumType

/-- What an addition does to the total: the oldest value leaves a full ring buffer. -/
theorem Holds.total_add (h : Holds T accumType capacity values s) (hpos : 0 < capacity)
    (hvalue : NoOverflow T accumType s value) :
    (WindowedAverage.add accumType value s).total = (last capacity (values ++ [value])).sum := by
  obtain ⟨-, haccum, hfull⟩ := hvalue
  rw [h.size, h.capacity_eq] at hfull
  rw [WindowedAverage.add, h.size, h.capacity_eq, IntegerType.convert_of_inRange haccum]
  dsimp only
  -- while the window fills up nothing leaves it
  rcases Nat.lt_or_ge values.length capacity with hlt | hle
  · rw [if_neg (by omega), RingBuffer.last_concat_of_lt hlt, List.sum_append, h.total,
      List.sum_singleton]
  · have hsame : min values.length capacity = min (min values.length capacity + 1) capacity := by
      omega
    obtain ⟨rest, hold, hnew⟩ := RingBuffer.last_concat_of_le hpos hle value
    have holdest : s.data.getD s.pos 0 = values[values.length - capacity] := by
      rw [h.pos, List.getD_eq_getElem?_getD, h.rings.oldest hle hpos]
      rfl
    rw [if_pos hsame, IntegerType.convert_of_inRange (hfull hsame), h.total, holdest, hold, hnew,
      List.sum_cons, List.sum_append, List.sum_singleton]
    omega

/-- **A value is added.** -/
theorem Holds.add (h : Holds T accumType capacity values s) (hpos : 0 < capacity)
    (hvalue : NoOverflow T accumType s value) :
    Holds T accumType capacity (values ++ [value]) (add accumType value s) where
  rings := by
    rw [WindowedAverage.add, h.pos]
    exact h.rings.set hpos value
  capacity_eq := h.capacity_eq
  size := by
    rw [WindowedAverage.add, h.capacity_eq, h.size, List.length_append, List.length_singleton]
    dsimp only
    omega
  pos := by
    rw [WindowedAverage.add, h.capacity_eq, h.pos, List.length_append, List.length_singleton]
    exact Nat.mod_add_mod ..
  total := h.total_add hpos hvalue
  inRange := by
    intro v hv
    rcases List.mem_append.mp hv with hold | hnew
    · exact h.inRange v hold
    · rw [List.mem_singleton.mp hnew]
      exact hvalue.1
  accum := by
    rw [WindowedAverage.add]
    dsimp only
    split_ifs <;> exact accumType.inRange_convert _

theorem holds_of_run {maxCapacity : ℕ} (hpos : 0 < capacity) (hle : capacity ≤ maxCapacity)
    (hok : Run.Guarded (step accumType) (NoOverflow T accumType) (new maxCapacity capacity) values)
    (hrun : Run.run (step accumType) (new maxCapacity capacity) values = some s) :
    Holds T accumType capacity values s := by
  -- the values that were added come before those that are left
  suffices hgoal : ∀ (before after : List ℤ) (s₀ : State),
      Holds T accumType capacity before s₀ →
        Run.Guarded (step accumType) (NoOverflow T accumType) s₀ after →
          Run.run (step accumType) s₀ after = some s →
            Holds T accumType capacity (before ++ after) s from
    hgoal [] values _ (holds_new hle) hok hrun
  intro before after
  induction after generalizing before with
  | nil =>
    intro s₀ h _ hrun
    obtain rfl := Option.some.inj hrun
    rwa [List.append_nil]
  | cons value after ih =>
    intro s₀ h hok hrun
    obtain ⟨s₁, hstep, hrest⟩ := (Run.run_cons_eq_some _).mp hrun
    have hafter := hok.2 s₁ hstep
    obtain rfl := Option.some.inj hstep
    have hlast := ih (before ++ [value]) _ (h.add hpos hok.1) hafter hrest
    rwa [List.append_assoc] at hlast

/-! ### The average -/

/-- The mean of values of a type is a value of the type. -/
theorem inRange_mean (hT : T.signed = true) {window : List ℤ} (hne : 0 < window.length)
    (hwindow : ∀ v ∈ window, T.InRange v) :
    T.InRange (window.sum.tdiv window.length) := by
  have hlen : (0 : ℤ) < window.length := Int.natCast_pos.mpr hne
  have hhigh : window.sum ≤ window.length * T.max := by
    have hle := List.sum_le_card_nsmul window T.max fun v hv => (hwindow v hv).2
    rwa [nsmul_eq_mul] at hle
  have hlow : window.length * T.min ≤ window.sum := by
    have hle := List.card_nsmul_le_sum window T.min fun v hv => (hwindow v hv).1
    rwa [nsmul_eq_mul] at hle
  obtain ⟨hmin, hmax⟩ := inRange_zero T
  rcases le_total 0 window.sum with hnonneg | hneg
  · have hdiv : window.sum.tdiv window.length ≤ T.max := by
      rw [Int.tdiv_eq_ediv_of_nonneg hnonneg]
      exact Int.ediv_le_of_le_mul hlen (by linarith [mul_comm (window.length : ℤ) T.max])
    have hge := Int.tdiv_nonneg hnonneg hlen.le
    exact ⟨by omega, hdiv⟩
  · have hdiv : (-window.sum).tdiv window.length ≤ -T.min := by
      rw [Int.tdiv_eq_ediv_of_nonneg (by omega)]
      exact Int.ediv_le_of_le_mul hlen (by linarith [mul_comm (window.length : ℤ) T.min])
    have hge : 0 ≤ (-window.sum).tdiv window.length := Int.tdiv_nonneg (by omega) hlen.le
    rw [Int.neg_tdiv] at hdiv hge
    exact ⟨by omega, by omega⟩

/-- **The average is that of the window** after every addition, in a run that does not overflow the
accumulator, exactly if the type of the values has their number. -/
theorem averages_iff (T accumType : IntegerType) (hT : T.signed = true)
    (maxCapacity capacity : ℕ) (hpos : 0 < capacity) (hle : capacity ≤ maxCapacity)
    (values : List ℤ) (hne : values ≠ []) (s : State)
    (hok : Run.Guarded (step accumType) (NoOverflow T accumType) (new maxCapacity capacity) values)
    (hrun : Run.run (step accumType) (new maxCapacity capacity) values = some s) :
    Averages T accumType capacity values s ↔ (min values.length capacity : ℕ) ≤ T.max := by
  have h : Holds T accumType capacity values s := holds_of_run hpos hle hok hrun
  have hsize : 0 < s.size := by
    have hlength := List.length_pos_iff.mpr hne
    rw [h.size]
    omega
  constructor
  · intro haverages
    have hrange := T.inRange_convert s.size
    rw [haverages.divisor, h.size] at hrange
    exact hrange.2
  · intro hmax
    have hrange : T.InRange s.size := by
      rw [h.size]
      exact ⟨(inRange_zero T).1.trans (Int.natCast_nonneg _), hmax⟩
    have hdivisor := IntegerType.convert_of_inRange hrange
    refine ⟨h.total, h.size, hdivisor, ?_⟩
    have hlength : (last capacity values).length = s.size := by
      rw [RingBuffer.length_last, ← h.size]
    have hmean := inRange_mean hT (hlength.symm ▸ hsize)
      fun v hv => h.inRange v (RingBuffer.mem_of_mem_last hv)
    rw [hlength] at hmean
    rw [average, if_neg hsize.ne', hdivisor,
      IntegerType.divide_of_pos hT h.accum hrange (Int.natCast_pos.mpr hsize), Option.map_some,
      h.total, IntegerType.convert_of_inRange hmean]

/-- Three values in a window of two. -/
theorem averages_two : Averages ⟨true, 8, by decide⟩ ⟨true, 32, by decide⟩ 2 [5, -4, -3]
    (add ⟨true, 32, by decide⟩ (-3) (add ⟨true, 32, by decide⟩ (-4)
      (add ⟨true, 32, by decide⟩ 5 (new 4 2)))) :=
  (averages_iff _ _ rfl 4 2 (by decide) (by decide) [5, -4, -3] (by decide) _ (by decide)
    rfl).mpr (by decide)

/-- A window of 128 values of 8 bits: their number becomes -128. -/
theorem not_averages_wide :
    ∃ s, Run.run (step ⟨true, 32, by decide⟩) (new 128 128) (List.replicate 128 1) = some s ∧
      Run.Guarded (step ⟨true, 32, by decide⟩)
        (NoOverflow ⟨true, 8, by decide⟩ ⟨true, 32, by decide⟩) (new 128 128)
        (List.replicate 128 1) ∧
      average ⟨true, 8, by decide⟩ ⟨true, 32, by decide⟩ s = some (-1) ∧
      (last 128 (List.replicate 128 (1 : ℤ))).sum.tdiv s.size = 1 ∧
      ¬ Averages ⟨true, 8, by decide⟩ ⟨true, 32, by decide⟩ 128 (List.replicate 128 1) s := by
  refine ⟨_, rfl, by decide +kernel, by decide +kernel, by decide +kernel, fun h => ?_⟩
  exact absurd h.divisor (by decide +kernel)

end

end Mjlib.Base.WindowedAverage

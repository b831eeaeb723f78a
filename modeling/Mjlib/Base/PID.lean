import Mathlib
import Mjlib.Lib.Run

/-!
# A PID controller

`base::PID` with exact rationals for its floats.  The desired value of a state may be absent, which
is a NaN in the code; nothing else is ever one then.

A run of `Apply` keeps the integral within its limit, and so no update is larger for being clamped
(`integral_moved`); the other limits are about one call.
-/

namespace Mjlib.Base

/-- `Limit`, of numbers. -/
def limit (a min max : ℚ) : ℚ := if a < min then min else if a > max then max else a

namespace PID

/-- `PID::Config`. -/
structure Config where
  kp : ℚ := 0
  ki : ℚ := 0
  kd : ℚ := 0
  iratelimit : ℚ := -1
  ilimit : ℚ := 0
  kpkdLimit : ℚ := -1
  /-- 0 is unlimited. -/
  maxDesiredRate : ℚ := 0
  sign : ℚ := 1
deriving DecidableEq, Repr

/-- `PID::State`; `{}` is a cleared one. -/
structure State where
  integral : ℚ := 0
  desired : Option ℚ := none
  error : ℚ := 0
  errorRate : ℚ := 0
  p : ℚ := 0
  d : ℚ := 0
  pd : ℚ := 0
  command : ℚ := 0
deriving DecidableEq, Repr

/-- `PID::ApplyOptions`. -/
structure ApplyOptions where
  kpScale : ℚ := 1
  kdScale : ℚ := 1
deriving DecidableEq, Repr

/-- The arguments of a call; `rate_hz` is positive. -/
structure Input where
  measured : ℚ
  inputDesired : ℚ
  measuredRate : ℚ
  inputDesiredRate : ℚ
  rateHz : ℤ
  rateHz_pos : 0 < rateHz
  applyOptions : ApplyOptions := {}

/-- The desired value and the desired rate, with `max_desired_rate` applied. -/
def limitDesired (config : Config) (state : State) (input : Input) : ℚ × ℚ :=
  match state.desired with
  | some stateDesired =>
    if config.maxDesiredRate ≠ 0 then
      let maxStep := config.maxDesiredRate / input.rateHz
      let proposedStep := input.inputDesired - stateDesired
      let actualStep := limit proposedStep (-maxStep) maxStep
      (stateDesired + actualStep,
        limit input.inputDesiredRate (-config.maxDesiredRate) config.maxDesiredRate)
    else (input.inputDesired, input.inputDesiredRate)
  | none => (input.inputDesired, input.inputDesiredRate)

/-- The update of the integral, for an error. -/
def toUpdateI (config : Config) (input : Input) (error : ℚ) : ℚ :=
  let maxIUpdate := config.iratelimit / input.rateHz
  let toUpdateI := error * config.ki / input.rateHz
  if maxIUpdate > 0 then
    if toUpdateI > maxIUpdate then maxIUpdate
    else if toUpdateI < -maxIUpdate then -maxIUpdate
    else toUpdateI
  else toUpdateI

/-- Clamp a value to `ilimit` or `kpkd_limit`. -/
def clamp (value bound : ℚ) : ℚ :=
  if value > bound then bound else if value < -bound then -bound else value

/-- `PID::Apply`. -/
def apply (config : Config) (state : State) (input : Input) : State :=
  let (desired, desiredRate) := limitDesired config state input
  let error := input.measured - desired
  let errorRate := input.measuredRate - desiredRate
  let integral := clamp (state.integral + toUpdateI config input error) config.ilimit
  let p := input.applyOptions.kpScale * config.kp * error
  let d := input.applyOptions.kdScale * config.kd * errorRate
  let pd := if config.kpkdLimit ≥ 0 then clamp (p + d) config.kpkdLimit else p + d
  { integral, desired := some desired, error, errorRate, p, d, pd
    command := config.sign * (pd + integral) }

/-- A call is a step. -/
def step (config : Config) (state : State) (input : Input) : Option State :=
  some (apply config state input)

/-! ### Clamps -/

theorem abs_limit_le {a bound : ℚ} (hbound : 0 ≤ bound) : |limit a (-bound) bound| ≤ bound := by
  rw [limit, abs_le]
  split_ifs <;> constructor <;> linarith

theorem clamp_eq_limit {value bound : ℚ} (hbound : 0 ≤ bound) :
    clamp value bound = limit value (-bound) bound := by
  rw [clamp, limit]
  split_ifs <;> linarith

theorem abs_clamp_le {value bound : ℚ} (hbound : 0 ≤ bound) : |clamp value bound| ≤ bound := by
  rw [clamp_eq_limit hbound]
  exact abs_limit_le hbound

/-- A value within the bound does not move further for the sum being clamped. -/
theorem abs_clamp_sub_le {value update bound : ℚ} (hvalue : |value| ≤ bound) :
    |clamp (value + update) bound - value| ≤ |update| := by
  obtain ⟨hlow, hhigh⟩ := abs_le.mp hvalue
  have hle := le_abs_self update
  have hge := neg_le_abs update
  rw [clamp, abs_le]
  split_ifs <;> constructor <;> linarith

/-! ### One call -/

section
variable {config : Config} {state : State} {input : Input}

theorem rateHz_pos (input : Input) : (0 : ℚ) < input.rateHz := Int.cast_pos.mpr input.rateHz_pos

theorem abs_toUpdateI_le (hlimit : 0 < config.iratelimit) (error : ℚ) :
    |toUpdateI config input error| ≤ config.iratelimit / input.rateHz := by
  have hpos : 0 < config.iratelimit / input.rateHz := div_pos hlimit (rateHz_pos input)
  rw [toUpdateI, if_pos hpos]
  exact abs_clamp_le hpos.le

theorem abs_integral_le (hlimit : 0 ≤ config.ilimit) (state : State) (input : Input) :
    |(apply config state input).integral| ≤ config.ilimit :=
  abs_clamp_le hlimit

/-- An integral within its limit moves by the update at most. -/
theorem integral_moved (hstate : |state.integral| ≤ config.ilimit) (hlimit : 0 < config.iratelimit)
    (input : Input) : |(apply config state input).integral - state.integral|
      ≤ config.iratelimit / input.rateHz :=
  (abs_clamp_sub_le hstate).trans (abs_toUpdateI_le hlimit _)

/-- A desired value that was stored moves by the rate at most. -/
theorem desired_moved (hrate : 0 ≤ config.maxDesiredRate) (hlimited : config.maxDesiredRate ≠ 0)
    {stateDesired : ℚ} (hstored : state.desired = some stateDesired) (input : Input) :
    ∃ desired, (apply config state input).desired = some desired ∧
      |desired - stateDesired| ≤ config.maxDesiredRate / input.rateHz := by
  have hstep : 0 ≤ config.maxDesiredRate / input.rateHz := div_nonneg hrate (rateHz_pos input).le
  refine ⟨(limitDesired config state input).1, rfl, ?_⟩
  have hdesired : (limitDesired config state input).1 = stateDesired +
      limit (input.inputDesired - stateDesired) (-(config.maxDesiredRate / input.rateHz))
        (config.maxDesiredRate / input.rateHz) := by
    unfold limitDesired
    rw [hstored]
    dsimp only
    rw [if_pos hlimited]
  -- what moves the desired value is the limited step
  rw [hdesired, add_sub_cancel_left]
  exact abs_limit_le hstep

theorem abs_pd_le (hlimit : 0 ≤ config.kpkdLimit) (state : State) (input : Input) :
    |(apply config state input).pd| ≤ config.kpkdLimit := by
  have hpd : (apply config state input).pd = clamp ((apply config state input).p +
      (apply config state input).d) config.kpkdLimit := if_pos hlimit
  rw [hpd]
  exact abs_clamp_le hlimit

end

/-! ### Runs -/

theorem integral_of_run {config : Config} (hlimit : 0 ≤ config.ilimit) {inputs : List Input}
    {state : State} (hrun : Run.run (step config) {} inputs = some state) :
    |state.integral| ≤ config.ilimit := by
  refine Run.run_induction (I := fun s : State => |s.integral| ≤ config.ilimit) ?_ ?_ hrun
  · rintro s input s' - hstep
    obtain rfl := Option.some.inj hstep
    exact abs_integral_le hlimit s input
  · rw [abs_zero]
    exact hlimit

/-- What a call leaves within the limits, of the state that it found. -/
structure WithinLimits (config : Config) (state : State) (input : Input) (state' : State) :
    Prop where
  integral : |state'.integral| ≤ config.ilimit
  integralMoved : 0 < config.iratelimit →
    |state'.integral - state.integral| ≤ config.iratelimit / input.rateHz
  desiredMoved : config.maxDesiredRate ≠ 0 → ∀ stored, state.desired = some stored →
    ∃ desired, state'.desired = some desired ∧
      |desired - stored| ≤ config.maxDesiredRate / input.rateHz
  pd : 0 ≤ config.kpkdLimit → |state'.pd| ≤ config.kpkdLimit

/-- **Every call of a run keeps all limits.** -/
theorem withinLimits_of_run (config : Config) (hilimit : 0 ≤ config.ilimit)
    (hrate : 0 ≤ config.maxDesiredRate) (inputs : List Input) (state : State)
    (hrun : Run.run (step config) {} inputs = some state) (input : Input) :
    WithinLimits config state input (apply config state input) where
  integral := abs_integral_le hilimit state input
  integralMoved := fun hlimit => integral_moved (integral_of_run hilimit hrun) hlimit input
  desiredMoved := fun hlimited _ hstored => desired_moved hrate hlimited hstored input
  pd := fun hlimit => abs_pd_le hlimit state input

/-- A controller with every limit. -/
def limitedConfig : Config :=
  { kp := 1, ki := 8, iratelimit := 2, ilimit := 3, kpkdLimit := 5, maxDesiredRate := 4 }

/-- Two calls that ask for more than is allowed. -/
theorem withinLimits_second :
    WithinLimits limitedConfig
      (apply limitedConfig {} ⟨0, 10, 0, 0, 2, by decide, {}⟩) ⟨0, 20, 0, 0, 2, by decide, {}⟩
      (apply limitedConfig (apply limitedConfig {} ⟨0, 10, 0, 0, 2, by decide, {}⟩)
        ⟨0, 20, 0, 0, 2, by decide, {}⟩) :=
  withinLimits_of_run limitedConfig (by decide) (by decide) [⟨0, 10, 0, 0, 2, by decide, {}⟩] _ rfl _

end PID

end Mjlib.Base

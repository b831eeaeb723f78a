import Mathlib

/-!
# Times and their 64-bit encoding

`boost::posix_time::ptime` and `time_duration` at microsecond resolution, and the conversions of
`time_conversions.h` between them and `int64_t` microseconds.  A `ptime` is one of boost's three
special values or lies in the years 1400 to 9999; a `time_duration` is a 64-bit tick count of which
boost takes the three outermost values for its special values.
-/

namespace Mjlib.Base

/-- `boost::posix_time::ptime`, a finite one in microseconds since 1970-01-01. -/
inductive Ptime
  | notADateTime
  | posInfin
  | negInfin
  | finite (us : ℤ) (h : -17987443200000000 ≤ us ∧ us ≤ 253402300799999999)
deriving DecidableEq, Repr

/-- `boost::posix_time::time_duration`, a finite one in microseconds. -/
inductive Duration
  | notADateTime
  | posInfin
  | negInfin
  | finite (us : ℤ) (h : -2 ^ 63 < us ∧ us < 2 ^ 63 - 2)
deriving DecidableEq, Repr

/-- `ptime - ptime`; a difference of two finite times is finite. -/
def Ptime.sub : Ptime → Ptime → Duration
  | .notADateTime, _ => .notADateTime
  | _, .notADateTime => .notADateTime
  | .posInfin, .posInfin => .notADateTime
  | .negInfin, .negInfin => .notADateTime
  | .posInfin, _ => .posInfin
  | .negInfin, _ => .negInfin
  | .finite .., .posInfin => .negInfin
  | .finite .., .negInfin => .posInfin
  | .finite us h, .finite us' h' => .finite (us - us') (by omega)

/-- `time_duration < time_duration`: nothing is below or above `not_a_date_time`. -/
def Duration.lt : Duration → Duration → Bool
  | .notADateTime, _ => false
  | _, .notADateTime => false
  | .negInfin, d => d ≠ .negInfin
  | .posInfin, _ => false
  | .finite .., .negInfin => false
  | .finite .., .posInfin => true
  | .finite us _, .finite us' _ => us < us'

/-- `time_duration >= time_duration`, which boost takes for the negation of `<`. -/
def Duration.ge (d d' : Duration) : Bool := !d.lt d'

/-- `std::numeric_limits<int64_t>::min()`. -/
abbrev int64Min : BitVec 64 := BitVec.intMin 64

/-- `std::numeric_limits<int64_t>::max()`. -/
abbrev int64Max : BitVec 64 := BitVec.intMax 64

/-- `ConvertPtimeToEpochMicroseconds`. -/
def convertPtimeToEpochMicroseconds : Ptime → BitVec 64
  | .posInfin => int64Max
  | .negInfin => int64Min
  | .notADateTime => int64Min + 1
  | .finite us _ => BitVec.ofInt 64 us

/-- `ConvertEpochMicrosecondsToPtime`; none outside the years that boost defines. -/
def convertEpochMicrosecondsToPtime (value : BitVec 64) : Option Ptime :=
  if value = int64Max then some .posInfin
  else if value = int64Min then some .negInfin
  else if value = int64Min + 1 then some .notADateTime
  else if h : -17987443200000000 ≤ value.toInt ∧ value.toInt ≤ 253402300799999999 then
    some (.finite value.toInt h)
  else none

/-- `ConvertDurationToMicroseconds`. -/
def convertDurationToMicroseconds : Duration → BitVec 64
  | .posInfin => int64Max
  | .negInfin => int64Min
  | .notADateTime => int64Min + 1
  | .finite us _ => BitVec.ofInt 64 us

/-- `ConvertMicrosecondsToDuration`; the largest tick count but one is boost's own
`not_a_date_time`. -/
def convertMicrosecondsToDuration (timeUs : BitVec 64) : Duration :=
  if timeUs = int64Min then .negInfin
  else if timeUs = int64Max then .posInfin
  else if timeUs = int64Min + 1 then .notADateTime
  else if h : -2 ^ 63 < timeUs.toInt ∧ timeUs.toInt < 2 ^ 63 - 2 then .finite timeUs.toInt h
  else .notADateTime

/-- A finite duration of `int64_t::min() + 1` microseconds, whose encoding is the one that stands
for `not_a_date_time`. -/
def Duration.Aliased (d : Duration) : Prop :=
  ∃ h, d = .finite (-2 ^ 63 + 1) h

instance (d : Duration) : Decidable d.Aliased := by
  unfold Duration.Aliased
  cases d with
  | finite us h =>
    exact decidable_of_iff (us = -2 ^ 63 + 1)
      ⟨fun e => ⟨e ▸ h, by subst e; rfl⟩, fun ⟨_, e⟩ => by injection e⟩
  | _ => exact isFalse (fun ⟨_, e⟩ => by cases e)

/-! ### Round trips -/

theorem toInt_ofInt {us : ℤ} (h : -2 ^ 63 ≤ us ∧ us < 2 ^ 63) : (BitVec.ofInt 64 us).toInt = us :=
  BitVec.toInt_ofInt_eq_self (by decide) h.1 h.2

/-- A time survives its encoding. -/
theorem convertEpochMicrosecondsToPtime_convert (t : Ptime) :
    convertEpochMicrosecondsToPtime (convertPtimeToEpochMicroseconds t) = some t := by
  cases t with
  | notADateTime => decide
  | posInfin => decide
  | negInfin => decide
  | finite us h =>
    have hi : (BitVec.ofInt 64 us).toInt = us := toInt_ofInt (by omega)
    have hne : ∀ b : BitVec 64, b.toInt ≠ us → BitVec.ofInt 64 us ≠ b := by
      intro b hb e
      exact hb (by rw [← e, hi])
    rw [convertPtimeToEpochMicroseconds, convertEpochMicrosecondsToPtime,
      if_neg (hne _ (by rw [show int64Max.toInt = 2 ^ 63 - 1 by decide]; omega)),
      if_neg (hne _ (by rw [show int64Min.toInt = -2 ^ 63 by decide]; omega)),
      if_neg (hne _ (by rw [show (int64Min + 1).toInt = -2 ^ 63 + 1 by decide]; omega)),
      dif_pos (by rw [hi]; exact h)]
    simp only [hi]

/-- What a duration is read back as. -/
theorem convertMicrosecondsToDuration_convert (d : Duration) :
    convertMicrosecondsToDuration (convertDurationToMicroseconds d) =
      if d.Aliased then .notADateTime else d := by
  cases d with
  | notADateTime => decide
  | posInfin => decide
  | negInfin => decide
  | finite us h =>
    have hi : (BitVec.ofInt 64 us).toInt = us := toInt_ofInt (by omega)
    have hne : ∀ b : BitVec 64, b.toInt ≠ us → BitVec.ofInt 64 us ≠ b := by
      intro b hb e
      exact hb (by rw [← e, hi])
    rw [convertDurationToMicroseconds, convertMicrosecondsToDuration,
      if_neg (hne _ (by rw [show int64Min.toInt = -2 ^ 63 by decide]; omega)),
      if_neg (hne _ (by rw [show int64Max.toInt = 2 ^ 63 - 1 by decide]; omega))]
    by_cases ha : us = -2 ^ 63 + 1
    · subst ha
      rw [if_pos (by decide), if_pos ⟨h, rfl⟩]
    · rw [if_neg (hne _ (by rw [show (int64Min + 1).toInt = -2 ^ 63 + 1 by decide]; omega)),
        dif_pos (by rw [hi]; exact h), if_neg (fun ⟨_, e⟩ => ha (by injection e))]
      simp only [hi]

/-- Only the aliased duration is lost. -/
theorem convertMicrosecondsToDuration_eq_iff (d : Duration) :
    convertMicrosecondsToDuration (convertDurationToMicroseconds d) = d ↔ ¬d.Aliased := by
  rw [convertMicrosecondsToDuration_convert]
  by_cases ha : d.Aliased
  · rw [if_pos ha]
    obtain ⟨h, rfl⟩ := ha
    simp [Duration.Aliased]
  · simp [ha]

end Mjlib.Base

import Mathlib.Data.Int.SuccPred
import Mathlib.Data.Nat.Find

/-!
# The Gregorian calendar

A date and a time of day are counted in seconds from 1 January of the year 1, before the
Gregorian rules came into force as well. Counting and breaking down are inverse to each other on
the dates that exist.
-/

namespace TcpIot.Framework

def LeapYear (y : Int) : Prop := y % 4 = 0 ∧ (y % 100 ≠ 0 ∨ y % 400 = 0)

instance : DecidablePred LeapYear := fun y =>
  inferInstanceAs (Decidable (y % 4 = 0 ∧ (y % 100 ≠ 0 ∨ y % 400 = 0)))

/-- The days before a year. -/
def yearStart (y : Int) : Int := 365 * (y - 1) + (y - 1) / 4 - (y - 1) / 100 + (y - 1) / 400

/-- The days of a common year before a month, which is counted from 0. -/
def commonStart (m : Nat) : Int :=
  [0, 31, 59, 90, 120, 151, 181, 212, 243, 273, 304, 334].getD m 365

def monthStart (y : Int) (m : Nat) : Int :=
  commonStart m + if LeapYear y ∧ 2 ≤ m then 1 else 0

def monthDays (y : Int) (m : Nat) : Int := monthStart y (m + 1) - monthStart y m

/-- The year of a day: 400 years have 146097 days, which fixes it up to one. -/
def yearOf (n : Int) : Int :=
  let y := 400 * n / 146097 + 1
  if n < yearStart y then y - 1 else if yearStart (y + 1) ≤ n then y + 1 else y

def monthOf (y d : Int) : Nat := Nat.findGreatest (fun m => monthStart y m ≤ d) 11

@[ext]
structure DateTime where
  year : Int
  month : Nat
  day : Int
  hour : Int
  minute : Int
  second : Int
deriving DecidableEq

namespace DateTime

structure Valid (c : DateTime) : Prop where
  month : c.month < 12
  day : 1 ≤ c.day ∧ c.day ≤ monthDays c.year c.month
  hour : 0 ≤ c.hour ∧ c.hour < 24
  minute : 0 ≤ c.minute ∧ c.minute < 60
  second : 0 ≤ c.second ∧ c.second < 60

def dayNumber (c : DateTime) : Int := yearStart c.year + monthStart c.year c.month + (c.day - 1)

def toSeconds (c : DateTime) : Int :=
  c.dayNumber * 86400 + c.hour * 3600 + c.minute * 60 + c.second

def ofSeconds (n : Int) : DateTime :=
  let date := n / 86400
  let time := n % 86400
  let dayOfYear := date - yearStart (yearOf date)
  let month := monthOf (yearOf date) dayOfYear
  { year := yearOf date
    month := month
    day := dayOfYear - monthStart (yearOf date) month + 1
    hour := time / 3600
    minute := time / 60 % 60
    second := time % 60 }

end DateTime

theorem between_unique {ι : Type*} [LinearOrder ι] [Add ι] [One ι] [SuccAddOrder ι]
    [NoMaxOrder ι] {f : ι → Int} (hf : ∀ i j, i ≤ j → f i ≤ f j) {n : Int} {i j : ι}
    (hi : f i ≤ n ∧ n < f (i + 1)) (hj : f j ≤ n ∧ n < f (j + 1)) : i = j := by
  have hij : i < j + 1 := by
    by_contra h
    have hle := hf _ _ (not_lt.mp h)
    omega
  have hji : j < i + 1 := by
    by_contra h
    have hle := hf _ _ (not_lt.mp h)
    omega
  exact le_antisymm (Order.le_of_lt_add_one hij) (Order.le_of_lt_add_one hji)

theorem yearStart_succ (y : Int) :
    yearStart (y + 1) = yearStart y + if LeapYear y then 366 else 365 := by
  by_cases h : LeapYear y
  · rw [if_pos h]
    unfold yearStart
    unfold LeapYear at h
    omega
  · rw [if_neg h]
    unfold yearStart
    unfold LeapYear at h
    omega

theorem yearStart_mono (y z : Int) (h : y ≤ z) : yearStart y ≤ yearStart z := by
  unfold yearStart
  omega

theorem yearOf_spec (n : Int) : yearStart (yearOf n) ≤ n ∧ n < yearStart (yearOf n + 1) := by
  unfold yearOf
  dsimp only
  unfold yearStart
  split
  · omega
  · split <;> omega

section Months

variable (y : Int)

theorem monthStart_zero : monthStart y 0 = 0 := by
  simp [monthStart, commonStart]

theorem monthStart_twelve : monthStart y 12 = if LeapYear y then 366 else 365 := by
  by_cases h : LeapYear y
  · simp [monthStart, commonStart, h]
  · simp [monthStart, commonStart, h]

theorem commonStart_le (m : Nat) : commonStart m ≤ commonStart (m + 1) := by
  match m with
  | 0 | 1 | 2 | 3 | 4 | 5 | 6 | 7 | 8 | 9 | 10 | 11 => decide
  | _ + 12 => exact le_rfl

theorem monthStart_le (m : Nat) : monthStart y m ≤ monthStart y (m + 1) := by
  have hle := commonStart_le m
  unfold monthStart
  split
  · rename_i h
    rw [if_pos ⟨h.1, by omega⟩]
    omega
  · split <;> omega

theorem monthStart_mono (m k : Nat) (h : m ≤ k) : monthStart y m ≤ monthStart y k := by
  induction h with
  | refl => exact le_rfl
  | step _ ih => exact ih.trans (monthStart_le y _)

variable {y} {d : Int}

theorem monthOf_spec (hd : 0 ≤ d ∧ d < monthStart y 12) :
    monthOf y d < 12 ∧ monthStart y (monthOf y d) ≤ d ∧ d < monthStart y (monthOf y d + 1) := by
  have hle : monthOf y d ≤ 11 := Nat.findGreatest_le 11
  have hstart : monthStart y (monthOf y d) ≤ d :=
    Nat.findGreatest_spec (P := fun m => monthStart y m ≤ d) (Nat.zero_le 11)
      (by rw [monthStart_zero]; exact hd.1)
  refine ⟨Nat.lt_succ_of_le hle, hstart, ?_⟩
  rcases hle.lt_or_eq with hlt | heq
  · exact not_le.mp (Nat.findGreatest_is_greatest (Nat.lt_succ_self _) hlt)
  · rw [heq]
    exact hd.2

end Months

theorem dayOfYear_spec (n : Int) : 0 ≤ n - yearStart (yearOf n) ∧
    n - yearStart (yearOf n) < monthStart (yearOf n) 12 := by
  have hyear := yearOf_spec n
  rw [yearStart_succ, ← monthStart_twelve] at hyear
  omega

namespace DateTime

theorem ofSeconds_valid (n : Int) : (ofSeconds n).Valid := by
  obtain ⟨hmonth, hfrom, hto⟩ := monthOf_spec (dayOfYear_spec (n / 86400))
  refine ⟨hmonth, ?_, ?_, ?_, ?_⟩
  · simp only [ofSeconds, monthDays]
    omega
  · simp only [ofSeconds]
    omega
  · simp only [ofSeconds]
    omega
  · simp only [ofSeconds]
    omega

theorem toSeconds_ofSeconds (n : Int) : (ofSeconds n).toSeconds = n := by
  simp only [toSeconds, dayNumber, ofSeconds]
  omega

section Valid

variable {c : DateTime} (hc : c.Valid)

include hc

theorem Valid.dayOfYear : 0 ≤ monthStart c.year c.month + (c.day - 1) ∧
    monthStart c.year c.month + (c.day - 1) < monthStart c.year (c.month + 1) := by
  have hfrom := monthStart_mono c.year _ _ (Nat.zero_le c.month)
  have hday := hc.day
  rw [monthStart_zero] at hfrom
  unfold monthDays at hday
  omega

theorem Valid.yearOf_dayNumber : yearOf c.dayNumber = c.year := by
  have hday := hc.dayOfYear
  have hto : monthStart c.year (c.month + 1) ≤ monthStart c.year 12 :=
    monthStart_mono c.year _ _ hc.month
  apply between_unique yearStart_mono (yearOf_spec c.dayNumber)
  rw [yearStart_succ, ← monthStart_twelve]
  unfold dayNumber
  omega

theorem Valid.monthOf_dayNumber :
    monthOf c.year (c.dayNumber - yearStart c.year) = c.month := by
  have hday := hc.dayOfYear
  have hto : monthStart c.year (c.month + 1) ≤ monthStart c.year 12 :=
    monthStart_mono c.year _ _ hc.month
  have hnumber : c.dayNumber - yearStart c.year = monthStart c.year c.month + (c.day - 1) := by
    unfold dayNumber
    omega
  have hfound := (@monthOf_spec c.year (c.dayNumber - yearStart c.year) (by omega)).2
  have hfirst := hc.day.1
  exact between_unique (monthStart_mono c.year) hfound (by omega)

theorem ofSeconds_toSeconds : ofSeconds c.toSeconds = c := by
  have hhour := hc.hour
  have hminute := hc.minute
  have hsecond := hc.second
  have hdate : c.toSeconds / 86400 = c.dayNumber := by
    unfold toSeconds
    omega
  have htime : c.toSeconds % 86400 = c.hour * 3600 + c.minute * 60 + c.second := by
    unfold toSeconds
    omega
  have hday : c.dayNumber - yearStart c.year - monthStart c.year c.month + 1 = c.day := by
    unfold dayNumber
    omega
  simp only [ofSeconds, hdate, htime, hc.yearOf_dayNumber, hc.monthOf_dayNumber, hday]
  rw [show (c.hour * 3600 + c.minute * 60 + c.second) / 3600 = c.hour by omega,
    show (c.hour * 3600 + c.minute * 60 + c.second) / 60 % 60 = c.minute by omega,
    show (c.hour * 3600 + c.minute * 60 + c.second) % 60 = c.second by omega]

end Valid

/-- A date and time comes out of the seconds that it stands for and some more exactly when it
exists and there are no more. -/
theorem ofSeconds_add_eq_iff (c : DateTime) (more : Int) :
    ofSeconds (c.toSeconds + more) = c ↔ c.Valid ∧ more = 0 := by
  constructor
  · intro h
    have hback := toSeconds_ofSeconds (c.toSeconds + more)
    rw [h] at hback
    exact ⟨h ▸ ofSeconds_valid _, by omega⟩
  · rintro ⟨hc, rfl⟩
    rw [Int.add_zero]
    exact ofSeconds_toSeconds hc

end DateTime

end TcpIot.Framework

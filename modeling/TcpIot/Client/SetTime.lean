import TcpIot.Client.Listen
import TcpIot.Framework.Delimited
import TcpIot.Framework.Mktime
import TcpIot.Framework.Scanf

/-!
# Setting the time

The `SET_TIME` branch of `get_host_cmd_task`. Six scans share one pointer; a field is taken from
the start of its scan, or from the two bytes in front of the separator. `mktime` puts the `struct
tm` into normal form in place, and reads its `tm_isdst`, which the branch does not set.
-/

namespace TcpIot.Client

open Framework Scanf Printf

/-- `'/'`, `' '` and `':'`. -/
def slash : UInt8 := 47

def blank : UInt8 := 32

def colon : UInt8 := 58

/-- `memset(temp_time,0,sizeof(temp_time)); memcpy(temp_time,start,count);` followed by `atoi`;
`stray` is what lies behind `temp_time`, and the copy is undefined when it leaves an array. -/
def timeField (stray : List UInt8) (tempx : Buffer 255) (start count : Int) : Option Int :=
  ((Buffer.zero 5).memmove 0 tempx start count).map fun temp => atoi (temp.bytes ++ stray)

/-- A scan from `pch` for a field that is copied from `pch-i-1` on; the new `pch` with it. -/
def countedField (stray : List UInt8) (tempx : Buffer 255) (msgLen : Nat) (sep : UInt8)
    (pch : Nat) : Option (Int × Nat) :=
  (scanTo sep msgLen (tempx.bytes.drop pch)).bind fun i =>
    let pch := pch + i + 1
    (timeField stray tempx ((pch : Int) - i - 1) i).map fun value => (value, pch)

/-- A scan from `pch` for a field whose last two bytes are copied, from `pch-3` on. -/
def fixedField (stray : List UInt8) (tempx : Buffer 255) (msgLen : Nat) (sep : UInt8)
    (pch : Nat) : Option (Int × Nat) :=
  (scanTo sep msgLen (tempx.bytes.drop pch)).bind fun i =>
    let pch := pch + i + 1
    (timeField stray tempx ((pch : Int) - 3) 2).map fun value => (value, pch)

/-- The correction for `'P'` and `'A'`. -/
def clockHour (letter : UInt8) (hour : Int) : Int :=
  if letter = 80 then (if hour ≠ 12 then hour + 12 else hour)
  else if letter = 65 ∧ hour = 12 then hour - 12 else hour

/-- The `SET_TIME` branch up to `mktime`; `isdst` is what `tm_isdst` holds before, from the stack or
from an earlier `SET_TIME`. -/
def setTime (mktime : Tm → Tm) (isdst : Int) (stray : List UInt8) (tempx : Buffer 255)
    (msgLen : Nat) : Option Tm :=
  (countedField stray tempx msgLen slash 0).bind fun mon =>
  (countedField stray tempx msgLen slash mon.2).bind fun mday =>
  (fixedField stray tempx msgLen blank mday.2).bind fun year =>
  (countedField stray tempx msgLen colon year.2).bind fun hour =>
  (fixedField stray tempx msgLen colon hour.2).bind fun min =>
  (fixedField stray tempx msgLen blank min.2).bind fun sec =>
  (tempx.read sec.2 1).map fun letter =>
    mktime
      { sec := sec.1
        min := min.1
        hour := clockHour (letter.headD 0) hour.1
        mday := mday.1
        mon := mon.1 - 1
        year := year.1 + 100
        isdst := isdst }

/-- What a `SET_TIME` message leaves in the `struct tm`. -/
def hostSetTime (mktime : Tm → Tm) (isdst : Int) (stray : List UInt8) (mtext : Buffer 300) :
    Option Tm :=
  (hostUnpack mtext).bind fun r => setTime mktime isdst stray r.2.2 r.2.1

section Fields

variable {stray : List UInt8} {tempx : Buffer 255} {msgLen pch : Nat}

theorem behind_field {front field rest : List UInt8} {sep : UInt8}
    (hbytes : tempx.bytes = front ++ (field ++ sep :: rest)) :
    tempx.bytes = (front ++ field ++ [sep]) ++ rest := by
  rw [hbytes]
  simp

theorem behind_length (front field : List UInt8) (sep : UInt8) :
    (front ++ field ++ [sep]).length = front.length + field.length + 1 := by
  rw [List.length_append, List.length_append, List.length_singleton]

theorem timeField_eq {front field rest : List UInt8} {start : Nat}
    (hbytes : tempx.bytes = front ++ (field ++ rest)) (hstart : front.length = start)
    (hfit : field.length ≤ 5) :
    timeField stray tempx start field.length =
      some (atoi (field ++ (List.replicate (5 - field.length) 0 ++ stray))) := by
  have hsize := tempx.bytes_length
  rw [hbytes] at hsize
  simp only [List.length_append] at hsize
  obtain ⟨temp, htemp, htempBytes⟩ :=
    @Buffer.memmove_eq_some _ _ (Buffer.zero 5) tempx 0 start field.length
      (by rw [Access.inBounds_mk]; omega) (by rw [Access.inBounds_mk]; omega)
  rw [timeField, htemp, Option.map_some, htempBytes, hbytes, Buffer.zero_bytes]
  simp only [Int.toNat_zero, Int.toNat_natCast, List.take_zero, List.nil_append, Nat.zero_add,
    ← hstart, List.drop_left, List.take_left, List.drop_replicate, List.append_assoc]

theorem timeField_none {start count : Int} (hlong : 5 < count) :
    timeField stray tempx start count = none := by
  rw [timeField, Option.map_eq_none_iff, ← Option.not_isSome_iff_eq_none, Buffer.memmove_isSome]
  rintro ⟨-, hin⟩
  rw [Access.inBounds_mk] at hin
  omega

theorem read_letter {front rest : List UInt8} {letter : UInt8}
    (hbytes : tempx.bytes = front ++ letter :: rest) :
    tempx.read front.length 1 = some [letter] := by
  have hsize := tempx.bytes_length
  rw [hbytes, List.length_append, List.length_cons] at hsize
  rw [Buffer.read_eq_some, Access.inBounds_mk, hbytes, Int.toNat_natCast, List.drop_left]
  exact ⟨by omega, rfl⟩

theorem countedField_found {front field rest : List UInt8} {sep : UInt8}
    (hbytes : tempx.bytes = front ++ (field ++ sep :: rest)) (hsep : sep ∉ field)
    (hlen : field.length ≤ msgLen) (hfit : field.length ≤ 5) :
    countedField stray tempx msgLen sep front.length =
      some (atoi (field ++ (List.replicate (5 - field.length) 0 ++ stray)),
        (front ++ field ++ [sep]).length) := by
  have hpch := behind_length front field sep
  have hstart : ((front.length + field.length + 1 : Nat) : Int) - field.length - 1 =
      front.length := by omega
  rw [countedField, hbytes, List.drop_left, scanTo_found hsep hlen, Option.bind_some]
  dsimp only
  rw [hstart, timeField_eq hbytes rfl hfit, Option.map_some, hpch]

theorem fixedField_found {front field before two rest : List UInt8} {sep : UInt8}
    (hbytes : tempx.bytes = front ++ (field ++ sep :: rest)) (hsep : sep ∉ field)
    (hlen : field.length ≤ msgLen) (htwo : front ++ field = before ++ two)
    (htwoLen : two.length = 2) :
    fixedField stray tempx msgLen sep front.length =
      some (atoi (two ++ (List.replicate (5 - two.length) 0 ++ stray)),
        (front ++ field ++ [sep]).length) := by
  have hlengths := congrArg List.length htwo
  simp only [List.length_append] at hlengths
  have hpch := behind_length front field sep
  have hstart : ((front.length + field.length + 1 : Nat) : Int) - 3 = before.length := by omega
  have hcount : (2 : Int) = two.length := by omega
  have hsplit : tempx.bytes = before ++ (two ++ sep :: rest) := by
    rw [hbytes, ← List.append_assoc, htwo, List.append_assoc]
  rw [fixedField, hbytes, List.drop_left, scanTo_found hsep hlen, Option.bind_some]
  dsimp only
  rw [hstart, hcount, timeField_eq hsplit rfl (by omega), Option.map_some, hpch]

end Fields

/-- A time on a twelve-hour clock. -/
structure ClockTime where
  month : Nat
  day : Nat
  year : Nat
  hour : Nat
  minute : Nat
  second : Nat
  pm : Bool
deriving DecidableEq

structure ClockTime.Valid (t : ClockTime) : Prop where
  month : 1 ≤ t.month ∧ t.month ≤ 12
  day : 1 ≤ t.day ∧ t.day ≤ 31
  year : 2000 ≤ t.year ∧ t.year ≤ 2099
  hour : 1 ≤ t.hour ∧ t.hour ≤ 12
  minute : t.minute ≤ 59
  second : t.second ≤ 59

def ClockTime.hour24 (t : ClockTime) : Nat :=
  if t.pm then (if t.hour = 12 then 12 else t.hour + 12)
  else if t.hour = 12 then 0 else t.hour

/-- The struct with the fields of the time, and the flag that it held before. -/
def ClockTime.tm (t : ClockTime) (isdst : Int) : Tm where
  sec := t.second
  min := t.minute
  hour := t.hour24
  mday := t.day
  mon := t.month - 1
  year := t.year - 1900
  isdst := isdst

/-- The struct shows the time. -/
structure ClockTime.ShownBy (t : ClockTime) (tm : Tm) : Prop where
  sec : tm.sec = t.second
  min : tm.min = t.minute
  hour : tm.hour = t.hour24
  mday : tm.mday = t.day
  mon : tm.mon = t.month - 1
  year : tm.year = t.year - 1900

def ClockTime.date (t : ClockTime) : DateTime where
  year := t.year
  month := t.month - 1
  day := t.day
  hour := t.hour24
  minute := t.minute
  second := t.second

/-- The month of the time has its day. -/
def ClockTime.DayExists (t : ClockTime) : Prop := (t.day : Int) ≤ monthDays t.year (t.month - 1)

instance (t : ClockTime) : Decidable t.DayExists := inferInstanceAs (Decidable (_ ≤ _))

/-- A decimal numeral, possibly with leading zeros. -/
def IsNumeral (text : List UInt8) (n : Nat) : Prop :=
  (∀ c ∈ text, isDigit c) ∧ numeral text = n

instance (text : List UInt8) (n : Nat) : Decidable (IsNumeral text n) :=
  have _ : Decidable (∀ c ∈ text, isDigit c) := List.decidableBAll _ _
  inferInstanceAs (Decidable (_ ∧ _))

/-- `M/D/Y h:mm:ss AM`: month, day and hour in one or two digits, the year in two or four. -/
structure Written (t : ClockTime) where
  month : List UInt8
  day : List UInt8
  year : List UInt8
  hour : List UInt8
  minute : List UInt8
  second : List UInt8
  month_eq : IsNumeral month t.month ∧ (month.length = 1 ∨ month.length = 2)
  day_eq : IsNumeral day t.day ∧ (day.length = 1 ∨ day.length = 2)
  year_eq : (IsNumeral year (t.year - 2000) ∧ year.length = 2) ∨
    (IsNumeral year t.year ∧ year.length = 4)
  hour_eq : IsNumeral hour t.hour ∧ (hour.length = 1 ∨ hour.length = 2)
  minute_eq : IsNumeral minute t.minute ∧ minute.length = 2
  second_eq : IsNumeral second t.second ∧ second.length = 2

def Written.text {t : ClockTime} (w : Written t) : List UInt8 :=
  w.month ++ slash :: (w.day ++ slash :: (w.year ++ blank :: (w.hour ++ colon :: (w.minute ++
    colon :: (w.second ++ blank :: [if t.pm then 80 else 65, 77])))))

theorem IsNumeral.sep_notMem {text : List UInt8} {n : Nat} (h : IsNumeral text n) {sep : UInt8}
    (hsep : isDigit sep = false) : sep ∉ text := by
  intro hmem
  rw [h.1 sep hmem] at hsep
  cases hsep

theorem IsNumeral.atoi {text : List UInt8} {n : Nat} (h : IsNumeral text n)
    (hfit : text.length < 5) (stray : List UInt8) :
    Scanf.atoi (text ++ (List.replicate (5 - text.length) 0 ++ stray)) = n := by
  rw [show 5 - text.length = (4 - text.length) + 1 by omega, List.replicate_succ,
    List.cons_append, atoi_digits h.1, h.2]

theorem year_lastTwo {year : List UInt8} {y : Nat} (hy : 2000 ≤ y ∧ y ≤ 2099)
    (h : (IsNumeral year (y - 2000) ∧ year.length = 2) ∨ (IsNumeral year y ∧ year.length = 4)) :
    ∃ before two, year = before ++ two ∧ two.length = 2 ∧ IsNumeral two (y - 2000) := by
  rcases h with ⟨hnum, hlen⟩ | ⟨hnum, hlen⟩
  · exact ⟨[], year, rfl, hlen, hnum⟩
  · match year, hlen with
    | [a, b, c, d], _ =>
      refine ⟨[a, b], [c, d], rfl, rfl, fun e he => hnum.1 e (by simp at he ⊢; tauto), ?_⟩
      have hdigit (e : UInt8) (he : e ∈ [a, b, c, d]) : 48 ≤ e.toNat ∧ e.toNat ≤ 57 :=
        isDigit_iff.mp (hnum.1 e he)
      have hc := hdigit c (by simp)
      have hd := hdigit d (by simp)
      have hvalue := hnum.2
      simp only [numeral, List.foldl_cons, List.foldl_nil] at hvalue ⊢
      omega

theorem clockHour_eq (t : ClockTime) :
    clockHour (if t.pm then 80 else 65) t.hour = t.hour24 := by
  unfold clockHour ClockTime.hour24
  cases t.pm
  · by_cases h12 : t.hour = 12
    · simp [h12]
    · have hcast : (t.hour : Int) ≠ 12 := by omega
      simp [h12, hcast]
  · by_cases h12 : t.hour = 12
    · simp [h12]
    · have hcast : (t.hour : Int) ≠ 12 := by omega
      simp [h12, hcast]

section Parse

variable {t : ClockTime} (w : Written t)

theorem Written.blank_notMem_year : blank ∉ w.year := by
  rcases w.year_eq with h | h
  · exact h.1.sep_notMem rfl
  · exact h.1.sep_notMem rfl

theorem Written.length_le : w.text.length ≤ 22 := by
  have hmonth := w.month_eq.2
  have hday := w.day_eq.2
  have hyear := w.year_eq
  have hhour := w.hour_eq.2
  have hminute := w.minute_eq.2
  have hsecond := w.second_eq.2
  simp only [Written.text, List.length_append, List.length_cons, List.length_nil]
  omega

/-- Every field lands where the next scan expects it, whatever the widths. -/
theorem setTime_written (ht : t.Valid) (mktime : Tm → Tm) (isdst : Int) (stray : List UInt8)
    {tempx : Buffer 255} {rest : List UInt8} (hbytes : tempx.bytes = w.text ++ rest) :
    setTime mktime isdst stray tempx w.text.length = some (mktime (t.tm isdst)) := by
  obtain ⟨hmonth, hmonthLen⟩ := w.month_eq
  obtain ⟨hday, hdayLen⟩ := w.day_eq
  obtain ⟨hhour, hhourLen⟩ := w.hour_eq
  obtain ⟨hminute, hminuteLen⟩ := w.minute_eq
  obtain ⟨hsecond, hsecondLen⟩ := w.second_eq
  obtain ⟨before, two, hyear, htwoLen, htwo⟩ := year_lastTwo ht.year w.year_eq
  have hlen : w.text.length = w.month.length + w.day.length + w.year.length + w.hour.length +
      w.minute.length + w.second.length + 8 := by
    simp only [Written.text, List.length_append, List.length_cons, List.length_nil]
    omega
  have hb1 : tempx.bytes = [] ++ (w.month ++ slash :: (w.day ++ slash :: (w.year ++ blank ::
      (w.hour ++ colon :: (w.minute ++ colon :: (w.second ++ blank ::
        ((if t.pm then 80 else 65) :: 77 :: rest))))))) := by
    rw [hbytes, Written.text]
    simp
  have hb2 := behind_field hb1
  have hb3 := behind_field hb2
  have hb4 := behind_field hb3
  have hb5 := behind_field hb4
  have hb6 := behind_field hb5
  have hb7 := behind_field hb6
  have h1 := @countedField_found stray _ w.text.length _ _ _ _ hb1 (hmonth.sep_notMem rfl)
    (by omega) (by omega)
  have h2 := @countedField_found stray _ w.text.length _ _ _ _ hb2 (hday.sep_notMem rfl)
    (by omega) (by omega)
  have h3 := @fixedField_found stray _ w.text.length _ _ _ two _ _ hb3 w.blank_notMem_year
    (by omega) (by rw [hyear, ← List.append_assoc]) htwoLen
  have h4 := @countedField_found stray _ w.text.length _ _ _ _ hb4 (hhour.sep_notMem rfl)
    (by omega) (by omega)
  have h5 := @fixedField_found stray _ w.text.length _ _ _ w.minute _ _ hb5
    (hminute.sep_notMem rfl) (by omega) rfl hminuteLen
  have h6 := @fixedField_found stray _ w.text.length _ _ _ w.second _ _ hb6
    (hsecond.sep_notMem rfl) (by omega) rfl hsecondLen
  rw [hmonth.atoi (by omega)] at h1
  rw [hday.atoi (by omega)] at h2
  rw [htwo.atoi (by omega)] at h3
  rw [hhour.atoi (by omega)] at h4
  rw [hminute.atoi (by omega)] at h5
  rw [hsecond.atoi (by omega)] at h6
  have hletter := read_letter hb7
  have hyearValue : ((t.year - 2000 : Nat) : Int) + 100 = t.year - 1900 := by
    have hcentury := ht.year
    omega
  rw [List.length_nil] at h1
  simp only [setTime, h1, h2, h3, h4, h5, h6, hletter, Option.bind_some, Option.map_some,
    List.headD_cons, clockHour_eq, hyearValue, ClockTime.tm]

end Parse

/-- For every valid time, however it is written, and every `SET_TIME` message that carries it: what
the branch leaves is what `mktime` makes of the `struct tm` with the fields of that time, the hour
on a 24-hour clock. -/
theorem setTime_parses (mktime : Tm → Tm) (isdst : Int) (stray : List UInt8) {t : ClockTime}
    (ht : t.Valid) (w : Written t) {mtext : Buffer 300} {low high : UInt8} {tail : List UInt8}
    (hmessage : mtext.bytes = CmdTypes.setTime.code :: low :: high :: w.text ++ tail)
    (hlen : low.toNat ||| (high.toNat <<< 4) = w.text.length) :
    hostSetTime mktime isdst stray mtext = some (mktime (t.tm isdst)) := by
  have hshort := w.length_le
  obtain ⟨tempx, hunpack, hbytes⟩ := hostUnpack_eq hmessage hlen (by omega)
  rw [hostSetTime, hunpack, Option.bind_some]
  exact setTime_written w ht mktime isdst stray hbytes

section Shown

variable {t : ClockTime} (ht : t.Valid)

include ht

theorem ClockTime.tm_date (isdst : Int) : (t.tm isdst).date = t.date := by
  have hmonth := ht.month
  ext1
  · simp only [Tm.date, ClockTime.tm, ClockTime.date]
    omega
  · simp only [Tm.date, ClockTime.tm, ClockTime.date]
    omega
  · rfl
  · rfl
  · rfl
  · rfl

theorem ClockTime.date_valid : t.date.Valid ↔ t.DayExists := by
  have hmonth := ht.month
  have hday := ht.day
  have hminute := ht.minute
  have hsecond := ht.second
  have hhour : t.hour24 < 24 := by
    have hclock := ht.hour
    unfold ClockTime.hour24
    split <;> split <;> omega
  constructor
  · exact fun h => h.day.2
  · intro hexists
    refine ⟨?_, ⟨?_, hexists⟩, ?_, ?_, ?_⟩
    all_goals simp only [ClockTime.date]; omega

/-- A struct in normal form shows the time exactly when its date and time are those. -/
theorem ClockTime.shownBy_iff {tm : Tm} (hmon : 0 ≤ tm.mon ∧ tm.mon < 12) :
    t.ShownBy tm ↔ tm.date = t.date := by
  have hmonth := ht.month
  constructor
  · intro h
    rw [← t.tm_date ht tm.isdst]
    obtain ⟨hsec, hmin, hhour, hmday, hmon, hyear⟩ := h
    simp only [Tm.date, ClockTime.tm, hsec, hmin, hhour, hmday, hmon, hyear]
  · intro h
    simp only [Tm.date, ClockTime.date, DateTime.mk.injEq] at h
    obtain ⟨hyear, hmonth', hday, hhour, hminute, hsecond⟩ := h
    exact ⟨hsecond, hminute, hhour, hday, by omega, by omega⟩

end Shown

/-- `1/2/24 12:05:09 AM`. -/
def earlyMorning : ClockTime := ⟨1, 2, 2024, 12, 5, 9, false⟩

def earlyMorningText : Written earlyMorning where
  month := [49]
  day := [50]
  year := [50, 52]
  hour := [49, 50]
  minute := [48, 53]
  second := [48, 57]
  month_eq := by decide
  day_eq := by decide
  year_eq := by decide
  hour_eq := by decide
  minute_eq := by decide
  second_eq := by decide

theorem earlyMorning_valid : earlyMorning.Valid :=
  ⟨by decide, by decide, by decide, by decide, by decide, by decide⟩

def earlyMorningMessage : Buffer 300 :=
  .padded 300 (CmdTypes.setTime.code :: 18 :: 1 :: earlyMorningText.text)

/-- Five hours behind UTC, with an hour of daylight saving from 10 March to 3 November 2024. -/
def fiveBehind : Zone where
  offset := -18000
  saving := 3600
  inEffect := fun t => 1710054000 ≤ t ∧ t < 1730613600

/-- `7/1/24 12:00:00 PM`. -/
def summerNoon : Buffer 300 :=
  .padded 300 (CmdTypes.setTime.code :: 18 :: 1 :: [55, 47, 49, 47, 50, 52, 32, 49, 50, 58, 48,
    48, 58, 48, 48, 32, 80, 77])

end TcpIot.Client

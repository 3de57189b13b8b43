import TcpIot.Framework.Calendar

/-!
# `mktime`

`mktime` takes a `struct tm` for local time, under daylight saving or not as `tm_isdst` says, and
puts it into normal form in place. What it leaves shows the date and time that it was given only
when that date exists and the flag fits it.
-/

namespace TcpIot.Framework

/-- A `struct tm` without `tm_wday` and `tm_yday`, which `mktime` does not read. -/
structure Tm where
  sec : Int
  min : Int
  hour : Int
  mday : Int
  mon : Int
  year : Int
  isdst : Int
deriving DecidableEq

/-- How far local clocks are ahead of UTC, how much further under daylight saving, and whether
that is in effect at an instant, which is counted in seconds from 1970. -/
structure Zone where
  offset : Int
  saving : Int
  inEffect : Int → Bool

/-- 1 January 1970. -/
def unixEpoch : Int := 62135596800

/-- The date and time of the fields; a month outside the year counts in other years. -/
def Tm.date (tm : Tm) : DateTime where
  year := tm.year + 1900 + tm.mon / 12
  month := (tm.mon % 12).toNat
  day := tm.mday
  hour := tm.hour
  minute := tm.min
  second := tm.sec

namespace Zone

variable (zone : Zone)

/-- The instant at which clocks without daylight saving show a date and time. -/
def standard (c : DateTime) : Int := c.toSeconds - unixEpoch - zone.offset

/-- The instant that a date and time stands for under a `tm_isdst`. A negative flag leaves the
choice to the zone. -/
def instant (c : DateTime) (isdst : Int) : Int :=
  if 0 < isdst ∨ (isdst < 0 ∧ zone.inEffect (zone.standard c - zone.saving)) then
    zone.standard c - zone.saving
  else zone.standard c

/-- What local clocks are ahead of UTC at an instant. -/
def ahead (t : Int) : Int := zone.offset + if zone.inEffect t then zone.saving else 0

def localtime (t : Int) : Tm :=
  let c := DateTime.ofSeconds (t + zone.ahead t + unixEpoch)
  { sec := c.second
    min := c.minute
    hour := c.hour
    mday := c.day
    mon := c.month
    year := c.year - 1900
    isdst := if zone.inEffect t then 1 else 0 }

/-- Clocks show the date and time with the flag, or the zone has no daylight saving. -/
def FlagFits (c : DateTime) (isdst : Int) : Prop :=
  zone.saving = 0 ∨ (0 < isdst ∧ zone.inEffect (zone.standard c - zone.saving)) ∨
    (isdst = 0 ∧ ¬ zone.inEffect (zone.standard c)) ∨
    (isdst < 0 ∧ (zone.inEffect (zone.standard c - zone.saving) ∨
      ¬ zone.inEffect (zone.standard c)))

instance (c : DateTime) (isdst : Int) : Decidable (zone.FlagFits c isdst) :=
  inferInstanceAs (Decidable (_ ∨ _ ∨ _ ∨ _))

end Zone

/-- The instants that a `time_t` of so many bits holds. -/
def InTimeT (bits : Nat) (t : Int) : Prop := -2 ^ (bits - 1) ≤ t ∧ t < 2 ^ (bits - 1)

instance (bits : Nat) (t : Int) : Decidable (InTimeT bits t) :=
  inferInstanceAs (Decidable (_ ∧ _))

/-- What `mktime` leaves in the struct; an instant outside `time_t` leaves it as it was. -/
def mktime (bits : Nat) (zone : Zone) (tm : Tm) : Tm :=
  if InTimeT bits (zone.instant tm.date tm.isdst) then
    zone.localtime (zone.instant tm.date tm.isdst)
  else tm

section Local

variable {zone : Zone}

theorem localtime_mon (t : Int) :
    0 ≤ (zone.localtime t).mon ∧ (zone.localtime t).mon < 12 := by
  have hmonth := (DateTime.ofSeconds_valid (t + zone.ahead t + unixEpoch)).month
  simp only [Zone.localtime]
  omega

theorem localtime_date (t : Int) :
    (zone.localtime t).date = DateTime.ofSeconds (t + zone.ahead t + unixEpoch) := by
  have hmonth := (DateTime.ofSeconds_valid (t + zone.ahead t + unixEpoch)).month
  ext1
  · simp only [Tm.date, Zone.localtime]
    omega
  · simp only [Tm.date, Zone.localtime]
    omega
  · rfl
  · rfl
  · rfl
  · rfl

/-- Local clocks show the date and time at its instant when the flag fits, and are off by the
saving otherwise. -/
theorem instant_ahead (c : DateTime) (isdst : Int) :
    ∃ more, zone.instant c isdst + zone.ahead (zone.instant c isdst) + unixEpoch =
      c.toSeconds + more ∧ (more = 0 ↔ zone.FlagFits c isdst) := by
  have hback : zone.standard c + zone.offset + unixEpoch = c.toSeconds := by
    unfold Zone.standard
    omega
  by_cases hearly : 0 < isdst ∨ (isdst < 0 ∧ zone.inEffect (zone.standard c - zone.saving))
  · rw [Zone.instant, if_pos hearly, Zone.ahead]
    by_cases heffect : zone.inEffect (zone.standard c - zone.saving)
    · rw [if_pos heffect]
      refine ⟨0, by omega, iff_of_true rfl ?_⟩
      exact hearly.elim (fun h => .inr (.inl ⟨h, heffect⟩))
        fun h => .inr (.inr (.inr ⟨h.1, .inl heffect⟩))
    · have hflag : 0 < isdst := hearly.resolve_right fun h => heffect h.2
      rw [if_neg heffect]
      refine ⟨- zone.saving, by omega, ?_⟩
      simp [Zone.FlagFits, heffect, hflag.ne', hflag.not_gt]
  · obtain ⟨hflag, hlate⟩ := not_or.mp hearly
    rw [Zone.instant, if_neg hearly, Zone.ahead]
    by_cases heffect : zone.inEffect (zone.standard c)
    · rw [if_pos heffect]
      refine ⟨zone.saving, by omega, ?_⟩
      have hfits : zone.FlagFits c isdst ↔ zone.saving = 0 := by
        refine ⟨?_, .inl⟩
        rintro (hsaving | ⟨hpos, -⟩ | ⟨-, hwinter⟩ | ⟨hneg, hearly | hwinter⟩)
        · exact hsaving
        · exact absurd hpos hflag
        · exact absurd heffect hwinter
        · exact absurd ⟨hneg, hearly⟩ hlate
        · exact absurd heffect hwinter
      exact hfits.symm
    · rw [if_neg heffect]
      refine ⟨0, by omega, iff_of_true rfl ?_⟩
      rcases (not_lt.mp hflag).lt_or_eq with hneg | hzero
      · exact .inr (.inr (.inr ⟨hneg, .inr heffect⟩))
      · exact .inr (.inr (.inl ⟨hzero, heffect⟩))

end Local

theorem mktime_mon (bits : Nat) (zone : Zone) {tm : Tm} (h : 0 ≤ tm.mon ∧ tm.mon < 12) :
    0 ≤ (mktime bits zone tm).mon ∧ (mktime bits zone tm).mon < 12 := by
  unfold mktime
  split
  · exact localtime_mon _
  · exact h

/-- The struct still shows its date and time exactly when the date exists and the flag fits, or
the instant does not fit `time_t`. -/
theorem mktime_date_iff (bits : Nat) (zone : Zone) (tm : Tm) :
    (mktime bits zone tm).date = tm.date ↔
      (InTimeT bits (zone.instant tm.date tm.isdst) →
        tm.date.Valid ∧ zone.FlagFits tm.date tm.isdst) := by
  unfold mktime
  by_cases hbits : InTimeT bits (zone.instant tm.date tm.isdst)
  · obtain ⟨more, hahead, hmore⟩ := @instant_ahead zone tm.date tm.isdst
    rw [if_pos hbits, localtime_date, hahead, DateTime.ofSeconds_add_eq_iff, hmore]
    exact ⟨fun h _ => h, fun h => h hbits⟩
  · rw [if_neg hbits]
    exact iff_of_true rfl fun h => absurd h hbits

end TcpIot.Framework

import AcMuduo.DateT
import AcMuduo.GmTime

namespace AcMuduo.TimeZone

open Calendar CInt DateT

def kSecondsPerDay : Int := 86400

def kJulianDayOf19700101 : Option Int := getJulianDayNumber 1970 1 1

/-- The parameter is an `unsigned`. -/
def fillHMS (seconds : Nat) (utc : Tm) : Tm :=
  let minutes := seconds / 60
  { utc with
    sec := (seconds % 60 : Nat)
    min := (minutes % 60 : Nat)
    hour := (minutes / 60 : Nat) }

/-- The statement that repairs the truncated division of a negative time. -/
def repair (seconds days : Int) : Option (Int × Int) :=
  if seconds < 0 then do return (← add seconds kSecondsPerDay, ← sub days 1)
  else return (seconds, days)

def toUtcTime (secondsSinceEpoch : Int) (yday : Bool) : Option Tm := do
  let utc := { Tm.zero with zone := [71, 77, 84] }
  let seconds := narrow (secondsSinceEpoch.tmod kSecondsPerDay)
  let days := narrow (secondsSinceEpoch.tdiv kSecondsPerDay)
  let (seconds, days) ← repair seconds days
  let utc := fillHMS (unsigned seconds) utc
  let date ← add days (← kJulianDayOf19700101)
  let ymd ← getYearMonthDay date
  let utc := { utc with
    year := ← sub ymd.year 1900
    mon := ← sub ymd.month 1
    mday := ymd.day
    wday := ← weekDay date }
  if yday then
    let startOfYear ← getJulianDayNumber ymd.year 1 1
    return { utc with yday := ← sub date startOfYear }
  else return utc

def fromFields (year month day hour minute seconds : Int) : Option Int := do
  let date ← getJulianDayNumber year month day
  let secondsInDay ← add (← add (← mul hour 3600) (← mul minute 60)) seconds
  let days ← sub date (← kJulianDayOf19700101)
  return days * kSecondsPerDay + secondsInDay

def fromUtcTime (utc : Tm) : Option Int := do
  fromFields (← add utc.year 1900) (← add utc.mon 1) utc.mday utc.hour utc.min utc.sec

variable {s : Int}

theorem kJulianDayOf19700101_eq : kJulianDayOf19700101 = some epochDay := by decide

theorem repair_eq (hlow : -2440588 ≤ s / 86400) (hhigh : s / 86400 ≤ 2147483646) :
    repair (narrow (s.tmod 86400)) (narrow (s.tdiv 86400)) = some (s % 86400, s / 86400) := by
  have hlt := Int.tmod_lt_of_pos s (show (0 : Int) < 86400 by decide)
  have hgt := Int.lt_tmod_of_pos s (show (0 : Int) < 86400 by decide)
  rw [narrow_eq (x := s.tmod 86400) (by omega) (by omega), repair, kSecondsPerDay]
  by_cases hneg : s.tmod 86400 < 0
  · obtain ⟨hdiv, hmod⟩ := tdiv_of_tmod_neg (by decide) hneg
    rw [narrow_eq (by omega) (by omega), if_pos hneg, add_eq (by omega) (by omega),
      sub_eq (by omega) (by omega), hdiv, hmod]
    rfl
  · obtain ⟨hdiv, hmod⟩ := tdiv_of_tmod_nonneg (by decide) (not_lt.mp hneg)
    rw [narrow_eq (by omega) (by omega), if_neg hneg, hdiv, hmod]
    rfl

theorem fillHMS_eq {x : Int} (h : 0 ≤ x) (h' : x < 86400) (utc : Tm) :
    fillHMS (unsigned x) utc =
      { utc with sec := x % 60, min := x / 60 % 60, hour := x / 3600 } := by
  have hx := unsigned_eq h (by omega)
  have hhour : x / 60 / 60 = x / 3600 := by omega
  simp only [fillHMS, Int.natCast_emod, Int.natCast_ediv, hx, Nat.cast_ofNat, hhour]

theorem toUtcTime_eq (hlow : 0 ≤ s / 86400 + epochDay) (hhigh : s / 86400 + epochDay ≤ 536838867)
    (yday : Bool) : toUtcTime s yday =
      some { gmtime s with yday := if yday then (gmtime s).yday else 0 } := by
  obtain ⟨j, hj⟩ : ∃ j, j = s / 86400 + epochDay := ⟨_, rfl⟩
  rw [← hj] at hlow hhigh
  have hepoch : epochDay = 2440588 := rfl
  obtain ⟨hvalid, hnumber⟩ := ofJulianDay_spec j
  have hdate : add (s / 86400) epochDay = some j := hj ▸ add_eq (by omega) (by omega)
  have hymd := getYearMonthDay_eq (j := j) (by omega) (by omega)
  have hbounds := year_bounds hvalid (by omega) (by omega)
  have hyear : sub (ofJulianDay j).year 1900 = some ((ofJulianDay j).year - 1900) :=
    sub_eq (by omega) (by omega)
  have hmonth : sub (ofJulianDay j).month 1 = some ((ofJulianDay j).month - 1) :=
    sub_eq (by have := hvalid.month_pos; omega) (by have := hvalid.month_le; omega)
  have hweek := weekDay_eq (j := j) (by omega) (by omega)
  have hfirst := julianDay_sub_first (ofJulianDay j)
  have hnonneg := dayOfYear_nonneg hvalid
  have hle := dayOfYear_le hvalid
  have hstart : getJulianDayNumber (ofJulianDay j).year 1 1 =
      some (julianDay ⟨(ofJulianDay j).year, 1, 1⟩) :=
    getJulianDayNumber_eq (d := ⟨(ofJulianDay j).year, 1, 1⟩)
      ⟨le_rfl, by simp, le_rfl, monthLength_pos _ _⟩ (by omega) (by omega)
  have hyday : sub j (julianDay ⟨(ofJulianDay j).year, 1, 1⟩) =
      some (j - julianDay ⟨(ofJulianDay j).year, 1, 1⟩) := sub_eq (by omega) (by omega)
  have hrepair := repair_eq (s := s) (by omega) (by omega)
  have hwday : (j + 1) % 7 = (s / 86400 + 4) % 7 := by omega
  refine (bind_eq hrepair).trans ((bind_eq kJulianDayOf19700101_eq).trans ((bind_eq hdate).trans
    ((bind_eq hymd).trans ((bind_eq hyear).trans ((bind_eq hmonth).trans (bind_eq hweek |>.trans ?_))))))
  rw [fillHMS_eq (by omega) (by omega), hwday]
  cases yday with
  | true =>
    refine (bind_eq hstart).trans ((bind_eq hyday).trans ?_)
    simp only [gmtime, ← hj]
    rfl
  | false =>
    simp only [gmtime, ← hj]
    rfl

def date (tm : Tm) : Date := ⟨tm.year + 1900, tm.mon + 1, tm.mday⟩

def OnClock (hour min sec : Int) : Prop :=
  (0 ≤ hour ∧ hour ≤ 23) ∧ (0 ≤ min ∧ min ≤ 59) ∧ 0 ≤ sec ∧ sec ≤ 59

/-- The julian day numbers of the dates that the calendar functions convert. -/
def Convertible (j : Int) : Prop := 0 ≤ j ∧ j ≤ 536838867

theorem gmtime_onClock (s : Int) : OnClock (gmtime s).hour (gmtime s).min (gmtime s).sec := by
  simp only [OnClock, gmtime]
  omega

theorem date_gmtime (s : Int) : date (gmtime s) = ofJulianDay (s / 86400 + epochDay) := by
  simp only [date, gmtime, Int.sub_add_cancel]

theorem wday_gmtime (s : Int) : (gmtime s).wday = weekday (date (gmtime s)) := by
  have hepoch : julianDay ⟨1970, 1, 1⟩ = epochDay := by decide
  rw [date_gmtime, weekday, (ofJulianDay_spec _).2, hepoch, Int.add_sub_cancel]
  rfl

theorem yday_gmtime (s : Int) : (gmtime s).yday = dayOfYear (date (gmtime s)) := by
  rw [date_gmtime, ← julianDay_sub_first, (ofJulianDay_spec _).2]
  rfl

theorem fromFields_eq {d : Date} {hour min sec : Int} (h : d.Valid)
    (hrange : Convertible (julianDay d)) (hclock : OnClock hour min sec) :
    fromFields d.year d.month d.day hour min sec =
      some ((julianDay d - epochDay) * 86400 + (hour * 3600 + min * 60 + sec)) := by
  obtain ⟨hlow, hhigh⟩ := hrange
  simp only [OnClock] at hclock
  have hepoch : epochDay = 2440588 := rfl
  have hdate := getJulianDayNumber_eq h (by omega) hhigh
  have hhour : mul hour 3600 = some (hour * 3600) := mul_eq (by omega) (by omega)
  have hmin : mul min 60 = some (min * 60) := mul_eq (by omega) (by omega)
  have hsum : add (hour * 3600) (min * 60) = some (hour * 3600 + min * 60) :=
    add_eq (by omega) (by omega)
  have hday : add (hour * 3600 + min * 60) sec = some (hour * 3600 + min * 60 + sec) :=
    add_eq (by omega) (by omega)
  have hdays : sub (julianDay d) epochDay = some (julianDay d - epochDay) :=
    sub_eq (by omega) (by omega)
  rw [fromFields, bind_eq hdate, bind_eq hhour, bind_eq hmin, bind_eq hsum, bind_eq hday,
    bind_eq kJulianDayOf19700101_eq, bind_eq hdays]
  rfl

theorem fromUtcTime_eq {tm : Tm} (h : (date tm).Valid) (hrange : Convertible (julianDay (date tm)))
    (hclock : OnClock tm.hour tm.min tm.sec) : fromUtcTime tm =
      some ((julianDay (date tm) - epochDay) * 86400 +
        (tm.hour * 3600 + tm.min * 60 + tm.sec)) := by
  obtain ⟨hlow, hhigh⟩ := hrange
  have hbounds := year_bounds h (by omega) hhigh
  have hpos := h.month_pos
  have hle := h.month_le
  simp only [date] at hbounds hpos hle
  have hyear : add tm.year 1900 = some (tm.year + 1900) := add_eq (by omega) (by omega)
  have hmonth : add tm.mon 1 = some (tm.mon + 1) := add_eq (by omega) (by omega)
  rw [fromUtcTime, bind_eq hyear, bind_eq hmonth]
  exact fromFields_eq h ⟨hlow, hhigh⟩ hclock

theorem gmtime_eq {d : Date} {hour min sec : Int} (h : d.Valid) (hclock : OnClock hour min sec)
    {s : Int} (hs : s = (julianDay d - epochDay) * 86400 + (hour * 3600 + min * 60 + sec)) :
    s / 86400 + epochDay = julianDay d ∧ date (gmtime s) = d ∧ (gmtime s).hour = hour ∧
      (gmtime s).min = min ∧ (gmtime s).sec = sec := by
  simp only [OnClock] at hclock
  have hday : s / 86400 + epochDay = julianDay d := by omega
  refine ⟨hday, ?_, ?_⟩
  · rw [date_gmtime, hday, ofJulianDay_julianDay h]
  · simp only [gmtime]
    omega

/-- Breakdown and composition are inverse to each other, and the breakdown is right. -/
theorem utc_time_inverse :
    (∀ s, Convertible (s / 86400 + epochDay) → ∃ tm, toUtcTime s true = some tm ∧
      OnClock tm.hour tm.min tm.sec ∧ (date tm).Valid ∧ tm.wday = weekday (date tm) ∧
      tm.yday = dayOfYear (date tm) ∧ fromUtcTime tm = some s) ∧
    ∀ d hour min sec, d.Valid → Convertible (julianDay d) → OnClock hour min sec →
      ∃ s, fromFields d.year d.month d.day hour min sec = some s ∧
        ∀ yday, ∃ tm, toUtcTime s yday = some tm ∧ date tm = d ∧ tm.hour = hour ∧
          tm.min = min ∧ tm.sec = sec := by
  constructor
  · intro s hrange
    obtain ⟨hvalid, hnumber⟩ := ofJulianDay_spec (s / 86400 + epochDay)
    rw [← date_gmtime] at hvalid hnumber
    have hclock := gmtime_onClock s
    refine ⟨gmtime s, toUtcTime_eq hrange.1 hrange.2 true, hclock, hvalid, wday_gmtime s,
      yday_gmtime s, ?_⟩
    rw [fromUtcTime_eq hvalid (hnumber ▸ hrange) hclock, hnumber]
    simp only [gmtime]
    exact congrArg some (by omega)
  · intro d hour min sec hvalid hrange hclock
    refine ⟨_, fromFields_eq hvalid hrange hclock, fun yday => ?_⟩
    obtain ⟨hday, hfields⟩ := gmtime_eq hvalid hclock rfl
    rw [← hday] at hrange
    exact ⟨_, toUtcTime_eq hrange.1 hrange.2 yday, hfields⟩

theorem utc_time_inverse_examples :
    (∃ tm, toUtcTime (-1) true = some tm ∧ OnClock tm.hour tm.min tm.sec ∧ (date tm).Valid ∧
      tm.wday = weekday (date tm) ∧ tm.yday = dayOfYear (date tm) ∧ fromUtcTime tm = some (-1)) ∧
    ∃ s, fromFields 2000 2 29 0 0 0 = some s ∧ ∀ yday, ∃ tm, toUtcTime s yday = some tm ∧
      date tm = ⟨2000, 2, 29⟩ ∧ tm.hour = 0 ∧ tm.min = 0 ∧ tm.sec = 0 :=
  ⟨utc_time_inverse.1 (-1) (by simp [Convertible, epochDay]),
    utc_time_inverse.2 ⟨2000, 2, 29⟩ 0 0 0 (by decide)
      ⟨by decide, by decide⟩ (by simp [OnClock])⟩

end AcMuduo.TimeZone

namespace AcMuduo.DateT

open Calendar CInt TimeZone

/-- The constructor from a `struct tm`. The month is counted from 0, and 1 is added to it; the year
is counted from 1900, but 1 is added to it as well. -/
def ofTm (tm : Tm) : Option Int := do
  getJulianDayNumber (← add tm.year 1) (← add tm.mon 1) tm.mday

/-- The date made from the breakdown of a time is the day of that time. -/
def IsDayOf (s : Int) (yday : Bool) : Prop :=
  ∃ tm k j, toUtcTime s yday = some tm ∧ kJulianDayOf19700101 = some k ∧ ofTm tm = some j ∧
    j = s / 86400 + k ∧ getYearMonthDay j = some (date tm)

/-- The number is that of the day in another year, 1899 years before. -/
theorem ofTm_lt {tm : Tm} {j j' : Int} (hj : ofTm tm = some j)
    (hj' : getJulianDayNumber (date tm).year (date tm).month (date tm).day = some j') :
    j < j' := by
  simp only [ofTm, add, bind_val] at hj
  obtain ⟨-, -, hj⟩ := hj
  have hlt : tm.year + 1 < (date tm).year := by
    simp only [date]
    omega
  exact getJulianDayNumber_lt hj hj' hlt

theorem not_isDayOf {s : Int} (hrange : Convertible (s / 86400 + epochDay)) (yday : Bool) :
    ¬ IsDayOf s yday := by
  rintro ⟨tm, k, j, htm, hk, hj, rfl, -⟩
  obtain ⟨hlow, hhigh⟩ := hrange
  obtain ⟨hvalid, hnumber⟩ := ofJulianDay_spec (s / 86400 + epochDay)
  rw [toUtcTime_eq hlow hhigh] at htm
  rw [kJulianDayOf19700101_eq] at hk
  cases htm
  cases hk
  have hday := getJulianDayNumber_eq hvalid (by omega) (by omega)
  rw [hnumber, ← date_gmtime] at hday
  exact lt_irrefl _ (ofTm_lt hj hday)

theorem not_isDayOf_epoch : ¬ IsDayOf 0 false :=
  not_isDayOf (s := 0) ⟨by decide, by decide⟩ false

theorem isDayOf_fails :
    ¬ ∀ s, Convertible (s / 86400 + epochDay) → ∀ yday, IsDayOf s yday := by
  intro h
  obtain ⟨tm, k, j, htm, hk, hj, hday, -⟩ := h 0 ⟨by decide, by decide⟩ false
  rw [show toUtcTime 0 false = some { Tm.zero with
    mday := 1, year := 70, wday := 4, zone := [71, 77, 84] } by decide] at htm
  rw [kJulianDayOf19700101_eq] at hk
  cases htm
  cases hk
  rw [show ofTm { Tm.zero with mday := 1, year := 70, wday := 4, zone := [71, 77, 84] } =
    some 1746993 by decide] at hj
  cases hj
  cases hday

end AcMuduo.DateT

import AcMuduo.Calendar

namespace AcMuduo

structure Tm where
  sec : Int
  min : Int
  hour : Int
  mday : Int
  mon : Int
  year : Int
  wday : Int
  yday : Int
  isdst : Int
  gmtoff : Int
  zone : List UInt8
  deriving DecidableEq

def Tm.zero : Tm := ⟨0, 0, 0, 0, 0, 0, 0, 0, 0, 0, []⟩

open Calendar

def epochDay : Int := 2440588

example : julianDay ⟨1970, 1, 1⟩ = epochDay := by decide

def gmtime (seconds : Int) : Tm :=
  let days := seconds / 86400
  let rest := seconds % 86400
  let date := ofJulianDay (days + epochDay)
  { sec := rest % 60
    min := rest / 60 % 60
    hour := rest / 3600
    mday := date.day
    mon := date.month - 1
    year := date.year - 1900
    wday := (days + 4) % 7
    yday := days + epochDay - julianDay ⟨date.year, 1, 1⟩
    isdst := 0
    gmtoff := 0
    zone := [71, 77, 84] }

/-- `timegm` does not look at `wday`, `yday` and the zone, and the other fields need not be in their
ranges. -/
def timegm (tm : Tm) : Int :=
  let first := julianDay ⟨tm.year + 1900 + tm.mon / 12, tm.mon % 12 + 1, 1⟩
  let days := first + (tm.mday - 1) - epochDay
  ((days * 24 + tm.hour) * 60 + tm.min) * 60 + tm.sec

theorem julianDay_first (d : Date) :
    julianDay ⟨d.year, d.month, 1⟩ + (d.day - 1) = julianDay d := by
  simp only [julianDay]
  omega

theorem timegm_gmtime (seconds isdst gmtoff : Int) (zone : List UInt8) :
    timegm { gmtime seconds with isdst := isdst, gmtoff := gmtoff, zone := zone } = seconds := by
  obtain ⟨hvalid, hday⟩ := ofJulianDay_spec (seconds / 86400 + epochDay)
  have hpos := hvalid.month_pos
  have hle := hvalid.month_le
  have hfirst := julianDay_first (ofJulianDay (seconds / 86400 + epochDay))
  simp only [timegm, gmtime]
  generalize ofJulianDay (seconds / 86400 + epochDay) = d at *
  have hyear : d.year - 1900 + 1900 + (d.month - 1) / 12 = d.year := by omega
  have hmonth : (d.month - 1) % 12 + 1 = d.month := by omega
  rw [hyear, hmonth]
  generalize julianDay ⟨d.year, d.month, 1⟩ = first at *
  have hdays : first + (d.day - 1) - epochDay = seconds / 86400 := by omega
  rw [hdays]
  omega

end AcMuduo

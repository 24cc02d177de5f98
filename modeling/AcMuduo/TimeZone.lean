import AcMuduo.Fault
import AcMuduo.GmTime
import AcMuduo.LowerBound

namespace AcMuduo.TimeZone

open Machine

structure Transition where
  gmttime : Int
  localtime : Int
  localtimeIdx : Nat
  deriving DecidableEq

structure Comp where
  compareGmt : Bool

def Comp.key (comp : Comp) (t : Transition) : Int :=
  if comp.compareGmt then t.gmttime else t.localtime

def Comp.less (comp : Comp) (lhs rhs : Transition) : Bool := comp.key lhs < comp.key rhs

def Comp.equal (comp : Comp) (lhs rhs : Transition) : Bool := comp.key lhs = comp.key rhs

structure Localtime where
  gmtOffset : Int
  isDst : Bool
  arrbIdx : Nat
  deriving DecidableEq

/-- The `Data` of a time zone. Times are integers, without the bounds of `time_t`. -/
structure Data where
  transitions : List Transition
  localtimes : List Localtime
  abbreviation : List UInt8

def Data.fixed (eastOfUtc : Int) (name : List UInt8) : Data := ⟨[], [⟨eastOfUtc, false, 0⟩], name⟩

def at? {α : Type} (l : List α) (i : Nat) : Except (Stop Fault) α :=
  match l[i]? with
  | some a => .ok a
  | none => .error (.fault .outOfBounds)

def lowerBoundIdx (data : Data) (sentry : Transition) (comp : Comp) : Nat :=
  lowerBound (fun i => data.transitions[i]?.any fun t => comp.less t sentry)
    data.transitions.length

def findLocaltime (data : Data) (sentry : Transition) (comp : Comp) :
    Except (Stop Fault) Localtime :=
  if data.transitions.head?.all fun front => comp.less sentry front then at? data.localtimes 0
  else
    let transI := lowerBoundIdx data sentry comp
    match data.transitions[transI]? with
    | some t =>
      if comp.equal sentry t then at? data.localtimes t.localtimeIdx
      else do
        assert (transI ≠ 0)
        let t ← at? data.transitions (transI - 1)
        at? data.localtimes t.localtimeIdx
    | none => do
      let t ← at? data.transitions (data.transitions.length - 1)
      at? data.localtimes t.localtimeIdx

def toLocalTime (data : Data) (seconds : Int) : Except (Stop Fault) Tm := do
  let localtime ← findLocaltime data ⟨seconds, 0, 0⟩ ⟨true⟩
  if localtime.arrbIdx ≤ data.abbreviation.length then
    .ok { gmtime (seconds + localtime.gmtOffset) with
      isdst := if localtime.isDst then 1 else 0
      gmtoff := localtime.gmtOffset
      zone := data.abbreviation.drop localtime.arrbIdx }
  else .error (.fault .outOfBounds)

def fromLocalTime (data : Data) (localTm : Tm) : Except (Stop Fault) Int := do
  let seconds := timegm localTm
  let localtime ← findLocaltime data ⟨0, seconds, 0⟩ ⟨false⟩
  if localTm.isdst ≠ 0 then
    let tryTm ← toLocalTime data (seconds - localtime.gmtOffset)
    if tryTm.isdst = 0 ∧ tryTm.hour = localTm.hour ∧ tryTm.min = localTm.min then
      .ok (seconds - 3600 - localtime.gmtOffset)
    else .ok (seconds - localtime.gmtOffset)
  else .ok (seconds - localtime.gmtOffset)

end AcMuduo.TimeZone

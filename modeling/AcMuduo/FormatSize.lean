import AcMuduo.Convert
import AcMuduo.Logging
import AcMuduo.Rounding
import Mathlib.Data.Rat.Floor

namespace AcMuduo.LogStream

open Rounding

/-- The `double` nearest to a number. None of those here is too large or too small for one. -/
def double (x : ℚ) : ℚ := toPrecision 53 x

def pointed (decimals digits : Nat) : List Byte :=
  convert (digits / 10 ^ decimals : Nat) ++
    if decimals = 0 then []
    else bytes "." ++ padded 48 decimals (convert (digits % 10 ^ decimals : Nat))

def fixedPoint (decimals : Nat) (x : ℚ) : List Byte :=
  let digits := nearestEven (|x| * 10 ^ decimals)
  (if x < 0 then bytes "-" else []) ++ pointed decimals digits.toNat

example : fixedPoint 2 (double (9995 / 1000)) = bytes "9.99" := by decide +kernel

structure Style where
  decimals : Nat
  unit : ℚ
  suffix : List Byte

def Style.print (f : Style) (n : ℚ) : List Byte :=
  fixedPoint f.decimals (double (n / f.unit)) ++ f.suffix

def choose (key : ℚ) : List (ℚ × Style) → Style → Style
  | [], last => last
  | (limit, f) :: rest, last => if key < limit then f else choose key rest last

def branchesSI : List (ℚ × Style) := [
  (9995, ⟨2, 10 ^ 3, bytes "k"⟩),
  (99950, ⟨1, 10 ^ 3, bytes "k"⟩),
  (999500, ⟨0, 10 ^ 3, bytes "k"⟩),
  (9995000, ⟨2, 10 ^ 6, bytes "M"⟩),
  (99950000, ⟨1, 10 ^ 6, bytes "M"⟩),
  (999500000, ⟨0, 10 ^ 6, bytes "M"⟩),
  (9995000000, ⟨2, 10 ^ 9, bytes "G"⟩),
  (99950000000, ⟨1, 10 ^ 9, bytes "G"⟩),
  (999500000000, ⟨0, 10 ^ 9, bytes "G"⟩),
  (9995000000000, ⟨2, 10 ^ 12, bytes "T"⟩),
  (99950000000000, ⟨1, 10 ^ 12, bytes "T"⟩),
  (999500000000000, ⟨0, 10 ^ 12, bytes "T"⟩),
  (9995000000000000, ⟨2, 10 ^ 15, bytes "P"⟩),
  (99950000000000000, ⟨1, 10 ^ 15, bytes "P"⟩),
  (999500000000000000, ⟨0, 10 ^ 15, bytes "P"⟩)]

def lastSI : Style := ⟨2, 10 ^ 18, bytes "E"⟩

/-- The tests compare integers, and the quotients are of `double`s. -/
def formatSI (s : Int64) : List Byte :=
  let n := double s.toInt
  if s.toInt < 1000 then convert s.toInt
  else (choose s.toInt branchesSI lastSI).print n

def Ki : ℚ := 1024
def Mi : ℚ := double (Ki * 1024)
def Gi : ℚ := double (Mi * 1024)
def Ti : ℚ := double (Gi * 1024)
def Pi : ℚ := double (Ti * 1024)
def Ei : ℚ := double (Pi * 1024)

def limitIEC (unit literal : ℚ) : ℚ := double (unit * double literal)

def branchesIEC : List (ℚ × Style) := [
  (limitIEC Ki 9.995, ⟨2, Ki, bytes "Ki"⟩),
  (limitIEC Ki 99.95, ⟨1, Ki, bytes "Ki"⟩),
  (limitIEC Ki 1023.5, ⟨0, Ki, bytes "Ki"⟩),
  (limitIEC Mi 9.995, ⟨2, Mi, bytes "Mi"⟩),
  (limitIEC Mi 99.95, ⟨1, Mi, bytes "Mi"⟩),
  (limitIEC Mi 1023.5, ⟨0, Mi, bytes "Mi"⟩),
  (limitIEC Gi 9.995, ⟨2, Gi, bytes "Gi"⟩),
  (limitIEC Gi 99.95, ⟨1, Gi, bytes "Gi"⟩),
  (limitIEC Gi 1023.5, ⟨0, Gi, bytes "Gi"⟩),
  (limitIEC Ti 9.995, ⟨2, Ti, bytes "Ti"⟩),
  (limitIEC Ti 99.95, ⟨1, Ti, bytes "Ti"⟩),
  (limitIEC Ti 1023.5, ⟨0, Ti, bytes "Ti"⟩),
  (limitIEC Pi 9.995, ⟨2, Pi, bytes "Pi"⟩),
  (limitIEC Pi 99.95, ⟨1, Pi, bytes "Pi"⟩),
  (limitIEC Pi 1023.5, ⟨0, Pi, bytes "Pi"⟩),
  (limitIEC Ei 9.995, ⟨2, Ei, bytes "Ei"⟩)]

def lastIEC : Style := ⟨1, Ei, bytes "Ei"⟩

/-- The tests compare `double`s. -/
def formatIEC (s : Int64) : List Byte :=
  let n := double s.toInt
  if n < Ki then convert s.toInt
  else (choose n branchesIEC lastIEC).print n

example : formatSI 99949999999999999 = bytes "100.0P" := by decide +kernel

end AcMuduo.LogStream

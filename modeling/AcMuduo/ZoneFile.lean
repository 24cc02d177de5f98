import AcMuduo.BigEndian
import AcMuduo.StateError
import AcMuduo.TimeZone

namespace AcMuduo.TimeZone

open Machine StateError

def Data.empty : Data := ⟨[], [], []⟩

/-- What is left of an open file, and the data of the zone as far as they have been filled in. -/
structure Reading where
  rest : List UInt8
  data : Data

namespace Reading

def addTransitions (s : Reading) (l : List Transition) : Reading :=
  { s with data := { s.data with transitions := s.data.transitions ++ l } }

def addLocaltimes (s : Reading) (l : List Localtime) : Reading :=
  { s with data := { s.data with localtimes := s.data.localtimes ++ l } }

def setAbbreviation (s : Reading) (abbreviation : List UInt8) : Reading :=
  { s with data := { s.data with abbreviation := abbreviation } }

@[simp] theorem addTransitions_rest (s : Reading) (l : List Transition) :
    (s.addTransitions l).rest = s.rest := rfl

@[simp] theorem addTransitions_localtimes (s : Reading) (l : List Transition) :
    (s.addTransitions l).data.localtimes = s.data.localtimes := rfl

@[simp] theorem addTransitions_addTransitions (s : Reading) (l l' : List Transition) :
    (s.addTransitions l).addTransitions l' = s.addTransitions (l ++ l') := by
  simp [addTransitions]

@[simp] theorem addLocaltimes_rest (s : Reading) (l : List Localtime) :
    (s.addLocaltimes l).rest = s.rest := rfl

end Reading

inductive Exit where
  | logicError (what : String)
  | fault (f : Fault)

abbrev Reader := EStateM Exit Reading

namespace File

def fread (n : Nat) : Reader (List UInt8) := fun s =>
  .ok (s.rest.take n) { s with rest := s.rest.drop n }

/-- The bytes are read into an array on the stack, which has room for `stack` of them. An array of a
negative length is undefined. -/
def readBytes (stack : Nat) (n : Int32) : Reader (List UInt8) := do
  check (0 ≤ n.toInt) (.fault .outOfBounds)
  check (n.toInt ≤ stack) (.fault .stackOverflow)
  let buf ← fread n.toInt.toNat
  check (buf.length = n.toInt) (.logicError "no enough data")
  return buf

def be32toh (x : List UInt8) : UInt32 := UInt32.ofNat (BigEndian.value x)

def readInt32 : Reader Int32 := do
  let x ← fread 4
  check (x.length = 4) (.logicError "bad int32_t data")
  return (be32toh x).toInt32

def readUInt8 : Reader UInt8 := do
  let x ← fread 1
  match x with
  | [x] => return x
  | _ => throw (.logicError "bad uint8_t data")

end File

open File

def magic : List UInt8 := [84, 90, 105, 102]

structure Counts where
  isgmtcnt : Int32
  isstdcnt : Int32
  leapcnt : Int32
  timecnt : Int32
  typecnt : Int32
  charcnt : Int32

def readHeader (stack : Nat) : Reader Counts := do
  let head ← readBytes stack 4
  check (head = magic) (.logicError "bad head")
  let _version ← readBytes stack 1
  let _ ← readBytes stack 15
  let isgmtcnt ← readInt32
  let isstdcnt ← readInt32
  let leapcnt ← readInt32
  let timecnt ← readInt32
  let typecnt ← readInt32
  let charcnt ← readInt32
  return ⟨isgmtcnt, isstdcnt, leapcnt, timecnt, typecnt, charcnt⟩

def rounds (count : Int32) : Nat := count.toInt.toNat

/-- `reserve` takes the count as a `size_t`, and refuses one that was negative. -/
def reserve (count : Int32) : Reader Unit :=
  check (0 ≤ count.toInt) (.logicError "vector::reserve")

def index {α : Type} (l : List α) (i : Nat) : Reader α :=
  match l[i]? with
  | some a => return a
  | none => throw (.fault .outOfBounds)

def readLocaltime : Reader Unit := do
  let gmtoff ← readInt32
  let isdst ← readUInt8
  let abbrind ← readUInt8
  modify (·.addLocaltimes [⟨gmtoff.toInt, isdst ≠ 0, abbrind.toNat⟩])

def pushTransition (trans : List Int32) (localtimes : List UInt8) (i : Nat) : Reader Unit := do
  let localIdx ← index localtimes i
  let gmttime ← index trans i
  let localtime ← index (← get).data.localtimes localIdx.toNat
  modify (·.addTransitions
    [⟨gmttime.toInt, gmttime.toInt + localtime.gmtOffset, localIdx.toNat⟩])

/-- The `try` block of `readTimeZoneFile`. The loop over the leap seconds does nothing. -/
def readZone (stack : Nat) : Reader Unit := do
  let counts ← readHeader stack
  reserve counts.timecnt
  let trans ← repeatM (rounds counts.timecnt) readInt32
  let localtimes ← repeatM (rounds counts.timecnt) readUInt8
  let _ ← repeatM (rounds counts.typecnt) readLocaltime
  forM (List.range (rounds counts.timecnt)) (pushTransition trans localtimes)
  let abbreviation ← readBytes stack counts.charcnt
  modify (·.setAbbreviation abbreviation)

/-- The file is `none` if it cannot be opened. A `logic_error` is caught. -/
def readTimeZoneFile (stack : Nat) (zonefile : Option (List UInt8)) (data : Data) :
    Except (Stop Fault) (Bool × Data) :=
  match zonefile with
  | none => .ok (true, data)
  | some rest =>
    match readZone stack ⟨rest, data⟩ with
    | .ok _ s => .ok (true, s.data)
    | .error (.logicError _) s => .ok (true, s.data)
    | .error (.fault f) _ => .error (.fault f)

def ofFile (stack : Nat) (zonefile : Option (List UInt8)) :
    Except (Stop Fault) (Option Data) := do
  let (read, data) ← readTimeZoneFile stack zonefile .empty
  if read then return some data else return none

def valid (data_ : Option Data) : Bool := data_.isSome

end AcMuduo.TimeZone

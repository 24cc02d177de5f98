import AcMuduo.Convert
import AcMuduo.Fault

namespace AcMuduo

open Machine

def kSmallBuffer : Nat := 4000

def LogStream.kMaxNumericSize : Nat := 48

structure LogStream where
  buffer : FixedBuffer kSmallBuffer

/-- A text and the zero after it are written at `current()`, and the text is kept with `add()`. -/
def FixedBuffer.put {size : Nat} (b : FixedBuffer size) (text : List Byte) :
    Except (Stop Fault) (FixedBuffer size) :=
  if h : text.length < b.avail then .ok ⟨b.data ++ text, b.length_append_le h⟩
  else .error (.fault .outOfBounds)

structure Fmt where
  buf : List Byte
  length_lt : buf.length < 32

namespace LogStream

/-- What can be inserted. A `float` is inserted as a `double`, which is given by its text in the
format `%.12g`, and an address by its number. -/
inductive Insertion where
  | bool (v : Bool)
  | short (v : Int16)
  | unsignedShort (v : UInt16)
  | int (v : Int32)
  | unsignedInt (v : UInt32)
  | long (v : Int64)
  | unsignedLong (v : UInt64)
  | longLong (v : Int64)
  | unsignedLongLong (v : UInt64)
  | pointer (v : UInt64)
  | double (text : List Byte) (h : text.length < kMaxNumericSize)
  | char (v : Byte)
  | cString (str : Option (List Byte))
  | stringPiece (v : List Byte)
  | string (v : List Byte)
  | buffer (v : FixedBuffer kSmallBuffer)
  | fmt (v : Fmt)
  | append (data : List Byte) (len : Int32) (h : len.toInt ≤ data.length)

def empty : LogStream := ⟨FixedBuffer.empty⟩

def appendBytes (s : LogStream) (text : List Byte) : LogStream := ⟨s.buffer.append text⟩

/-- A negative length is a very large one of type `size_t`. -/
def append (s : LogStream) (data : List Byte) (len : Int32) : LogStream :=
  if len.toInt % 2 ^ 64 < s.buffer.avail then s.appendBytes (data.take len.toInt.toNat) else s

def putNumber (s : LogStream) (text : List Byte) : Except (Stop Fault) LogStream :=
  if s.buffer.avail ≥ kMaxNumericSize then (s.buffer.put text).map LogStream.mk else .ok s

def formatInteger (s : LogStream) (v : Int) : Except (Stop Fault) LogStream :=
  s.putNumber (convert v)

def insert (s : LogStream) : Insertion → Except (Stop Fault) LogStream
  | .bool v => .ok (s.appendBytes (bytes (if v then "1" else "0")))
  | .short v => s.formatInteger v.toInt32.toInt
  | .unsignedShort v => s.formatInteger v.toUInt32.toNat
  | .int v => s.formatInteger v.toInt
  | .unsignedInt v => s.formatInteger v.toNat
  | .long v => s.formatInteger v.toInt
  | .unsignedLong v => s.formatInteger v.toNat
  | .longLong v => s.formatInteger v.toInt
  | .unsignedLongLong v => s.formatInteger v.toNat
  | .pointer v => s.putNumber (bytes "0x" ++ convertHex v)
  | .double text _ => s.putNumber text
  | .char v => .ok (s.appendBytes [v])
  | .cString (some str) => .ok (s.appendBytes str)
  | .cString none => .ok (s.appendBytes (bytes "(null)"))
  | .stringPiece v => .ok (s.appendBytes v)
  | .string v => .ok (s.appendBytes v)
  | .buffer v => .ok (s.appendBytes v.data)
  | .fmt v => .ok (s.appendBytes v.buf)
  | .append data len _ => .ok (s.append data len)

def Insertion.text : Insertion → List Byte
  | .bool v => bytes (if v then "1" else "0")
  | .short v => convert v.toInt
  | .unsignedShort v => convert v.toNat
  | .int v => convert v.toInt
  | .unsignedInt v => convert v.toNat
  | .long v => convert v.toInt
  | .unsignedLong v => convert v.toNat
  | .longLong v => convert v.toInt
  | .unsignedLongLong v => convert v.toNat
  | .pointer v => bytes "0x" ++ convertHex v
  | .double text _ => text
  | .char v => [v]
  | .cString str => str.getD (bytes "(null)")
  | .stringPiece v => v
  | .string v => v
  | .buffer v => v.data
  | .fmt v => v.buf
  | .append data len _ => data.take len.toInt.toNat

def Insertion.isNumber : Insertion → Bool
  | .short _ | .unsignedShort _ | .int _ | .unsignedInt _ | .long _ | .unsignedLong _
  | .longLong _ | .unsignedLongLong _ | .pointer _ | .double _ _ => true
  | _ => false

def Insertion.room (x : Insertion) : Nat :=
  if x.isNumber then kMaxNumericSize else x.text.length + 1

theorem convert_length_lt {v : Int} (hlower : -2 ^ 63 ≤ v) (hupper : v < 2 ^ 64) :
    (convert v).length < kMaxNumericSize :=
  (convert_length_le hlower hupper).trans_lt (by decide)

theorem Insertion.length_lt {x : Insertion} (h : x.isNumber) : x.text.length < kMaxNumericSize := by
  cases x with
  | short v =>
    have hlower := v.le_toInt
    have hupper := v.toInt_lt
    exact convert_length_lt (by omega) (by omega)
  | int v =>
    have hlower := v.le_toInt
    have hupper := v.toInt_lt
    exact convert_length_lt (by omega) (by omega)
  | long v | longLong v =>
    have hlower := v.le_toInt
    have hupper := v.toInt_lt
    exact convert_length_lt (by omega) (by omega)
  | unsignedShort v | unsignedInt v | unsignedLong v | unsignedLongLong v =>
    have hupper := v.toNat_lt
    exact convert_length_lt (by omega) (by omega)
  | pointer v =>
    have hlength := convertHex_length_le v
    have htext : (Insertion.pointer v).text.length = 2 + (convertHex v).length :=
      List.length_append
    rw [htext, kMaxNumericSize]
    omega
  | double text htext => exact htext
  | _ => cases h

theorem append_eq (s : LogStream) {data : List Byte} {len : Int32} (h : len.toInt ≤ data.length) :
    s.append data len = s.appendBytes (data.take len.toInt.toNat) := by
  have hlower := len.le_toInt
  have hupper := len.toInt_lt
  have havail : s.buffer.avail ≤ 4000 := Nat.sub_le _ _
  rw [append]
  by_cases hlt : len.toInt % 2 ^ 64 < s.buffer.avail
  · rw [if_pos hlt]
  · rw [if_neg hlt]
    by_cases hneg : len.toInt < 0
    · rw [Int.toNat_of_nonpos hneg.le, List.take_zero, appendBytes, FixedBuffer.append_nil]
    · have hlength : (data.take len.toInt.toNat).length = len.toInt.toNat := by
        rw [List.length_take]
        omega
      rw [appendBytes, FixedBuffer.append_of_le (by omega)]

theorem insert_eq (s : LogStream) (x : Insertion) :
    s.insert x = if x.isNumber then s.putNumber x.text else .ok (s.appendBytes x.text) := by
  cases x with
  | short v => simp [insert, Insertion.isNumber, Insertion.text, formatInteger]
  | unsignedShort v => simp [insert, Insertion.isNumber, Insertion.text, formatInteger]
  | cString str => cases str <;> rfl
  | append data len h => exact congrArg Except.ok (s.append_eq h)
  | _ => rfl

theorem insert_data (s : LogStream) (x : Insertion) : ∃ s', s.insert x = .ok s' ∧
    s'.buffer.data =
      if x.room ≤ s.buffer.avail then s.buffer.data ++ x.text else s.buffer.data := by
  rw [insert_eq, Insertion.room]
  by_cases hnumber : x.isNumber
  · rw [if_pos hnumber, if_pos hnumber, putNumber]
    by_cases hroom : kMaxNumericSize ≤ s.buffer.avail
    · rw [if_pos hroom, if_pos hroom, FixedBuffer.put,
        dif_pos ((Insertion.length_lt hnumber).trans_le hroom)]
      exact ⟨_, rfl, rfl⟩
    · rw [if_neg hroom, if_neg hroom]
      exact ⟨_, rfl, rfl⟩
  · rw [if_neg hnumber, if_neg hnumber]
    refine ⟨_, rfl, ?_⟩
    by_cases hroom : x.text.length + 1 ≤ s.buffer.avail
    · rw [if_pos hroom]
      exact FixedBuffer.append_data hroom
    · rw [if_neg hroom, appendBytes, FixedBuffer.append_of_le (not_lt.mp hroom)]

end LogStream

end AcMuduo

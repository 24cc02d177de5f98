import Mathlib.Data.List.Basic

namespace AcMuduo

abbrev Byte := UInt8

structure FixedBuffer (size : Nat) where
  data : List Byte
  length_le : data.length ≤ size

namespace FixedBuffer

variable {size : Nat}

def empty : FixedBuffer size := ⟨[], Nat.zero_le _⟩

def length (b : FixedBuffer size) : Nat := b.data.length

def avail (b : FixedBuffer size) : Nat := size - b.data.length

theorem length_append_le (b : FixedBuffer size) {buf : List Byte} (h : buf.length < b.avail) :
    (b.data ++ buf).length ≤ size := by
  rw [List.length_append]
  rw [avail] at h
  omega

/-- Bytes that do not fit, with one to spare, are left out. -/
def append (b : FixedBuffer size) (buf : List Byte) : FixedBuffer size :=
  if h : buf.length < b.avail then ⟨b.data ++ buf, b.length_append_le h⟩ else b

def reset (_ : FixedBuffer size) : FixedBuffer size := empty

@[simp] theorem empty_data : (empty : FixedBuffer size).data = [] := rfl

@[simp] theorem empty_avail : (empty : FixedBuffer size).avail = size := by simp [avail]

theorem append_data {b : FixedBuffer size} {buf : List Byte} (h : buf.length < b.avail) :
    (b.append buf).data = b.data ++ buf := by
  simp [append, h]

theorem append_of_le {b : FixedBuffer size} {buf : List Byte} (h : b.avail ≤ buf.length) :
    b.append buf = b := by
  rw [append, dif_neg (Nat.not_lt.mpr h)]

theorem append_nil (b : FixedBuffer size) : b.append [] = b := by
  simp [append]

end FixedBuffer

end AcMuduo

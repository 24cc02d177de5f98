import AcMuduo.CInt
import AcMuduo.LogStream
import AcMuduo.Memory

namespace AcMuduo

open Machine LogStream CInt

def inBounds {α : Type} (x : Option α) : Except (Stop Fault) α :=
  x.elim (.error (.fault .outOfBounds)) .ok

/-- A `fixed_buffer<size>` with all its bytes, and how far `cur_` is from `data_`. -/
structure RawBuffer (size : Nat) where
  data : Vector Byte size
  cur : Nat

namespace RawBuffer

variable {size : Nat}

def empty : RawBuffer size := ⟨Vector.replicate size 0, 0⟩

def length (b : RawBuffer size) : Int := CInt.narrow b.cur

def avail (b : RawBuffer size) : Int := CInt.narrow (size - b.cur)

def add (b : RawBuffer size) (len : Nat) : RawBuffer size := { b with cur := b.cur + len }

def memcpy (data : Vector Byte size) (dest : Nat) (src : List Byte) (len : Nat) :
    Except (Stop Fault) (Vector Byte size) :=
  inBounds (if len ≤ src.length then Memory.storeAll data dest (src.take len) else none)

def append (b : RawBuffer size) (buf : List Byte) (len : Nat) :
    Except (Stop Fault) (RawBuffer size) :=
  if sizeT b.avail > len then do
    let data ← memcpy b.data b.cur buf len
    .ok { data := data, cur := b.cur + len }
  else .ok b

/-- The loop of `convert` and of `convert_hex`, which store the last digit first. -/
def storeDigits {α : Type} [DecidableEq α] [Zero α] (lsd : α → Byte) (rest : α → α) :
    Nat → α → Vector Byte size → Nat → Except (Stop Fault) (Vector Byte size × Nat)
  | 0, _, data, p => .ok (data, p)
  | fuel + 1, i, data, p => do
    let data ← inBounds (Memory.store data p (lsd i))
    if rest i = 0 then .ok (data, p + 1) else storeDigits lsd rest fuel (rest i) data (p + 1)

def terminate (data : Vector Byte size) (buf p : Nat) :
    Except (Stop Fault) (Vector Byte size × Nat) := do
  let data ← inBounds (Memory.store data p 0)
  let data ← inBounds (Memory.reverse data buf p)
  .ok (data, p - buf)

def convert (data : Vector Byte size) (buf : Nat) (value : Int) :
    Except (Stop Fault) (Vector Byte size × Nat) := do
  let (data, p) ← storeDigits (fun i => zero (i.tmod 10)) (fun i => i.tdiv 10)
    (value.natAbs + 1) value data buf
  if value < 0 then
    let data ← inBounds (Memory.store data p 45)
    terminate data buf (p + 1)
  else terminate data buf p

def convertHex (data : Vector Byte size) (buf : Nat) (value : UInt64) :
    Except (Stop Fault) (Vector Byte size × Nat) := do
  let (data, p) ← storeDigits (fun i => digitsHex.getD (i % 16) 0) (fun i => i / 16)
    (value.toNat + 1) value.toNat data buf
  terminate data buf p

/-- A text is written by `snprintf`, which cuts it off to keep a byte for the zero after it. -/
def snprintf (data : Vector Byte size) (s n : Nat) (text : List Byte) :
    Except (Stop Fault) (Vector Byte size × Nat) := do
  let data ← inBounds (Memory.storeAll data s (text.take (n - 1) ++ [0]))
  .ok (data, text.length)

def formatInteger (b : RawBuffer size) (v : Int) : Except (Stop Fault) (RawBuffer size) :=
  if b.avail ≥ kMaxNumericSize then do
    let (data, len) ← convert b.data b.cur v
    .ok ({ b with data := data }.add len)
  else .ok b

def formatPointer (b : RawBuffer size) (v : UInt64) : Except (Stop Fault) (RawBuffer size) :=
  if b.avail ≥ kMaxNumericSize then do
    let data ← inBounds (Memory.store b.data b.cur 48)
    let data ← inBounds (Memory.store data (b.cur + 1) 120)
    let (data, len) ← convertHex data (b.cur + 2) v
    .ok ({ b with data := data }.add (len + 2))
  else .ok b

def formatDouble (b : RawBuffer size) (text : List Byte) : Except (Stop Fault) (RawBuffer size) :=
  if b.avail ≥ kMaxNumericSize then do
    let (data, len) ← snprintf b.data b.cur kMaxNumericSize text
    .ok ({ b with data := data }.add len)
  else .ok b

/-- What can be inserted, where the length of a `string_piece` is any `int`. -/
inductive Argument where
  | value (x : Insertion)
  | stringPiece (ptr : List Byte) (length : Int32) (h : length.toInt ≤ ptr.length)

def Argument.insertion : Argument → Insertion
  | .value x => x
  | .stringPiece ptr length h => .append ptr length h

def insert (b : RawBuffer size) : Argument → Except (Stop Fault) (RawBuffer size)
  | .value (.bool v) => b.append (bytes (if v then "1" else "0")) 1
  | .value (.short v) => b.formatInteger v.toInt32.toInt
  | .value (.unsignedShort v) => b.formatInteger v.toUInt32.toNat
  | .value (.int v) => b.formatInteger v.toInt
  | .value (.unsignedInt v) => b.formatInteger v.toNat
  | .value (.long v) => b.formatInteger v.toInt
  | .value (.unsignedLong v) => b.formatInteger v.toNat
  | .value (.longLong v) => b.formatInteger v.toInt
  | .value (.unsignedLongLong v) => b.formatInteger v.toNat
  | .value (.pointer v) => b.formatPointer v
  | .value (.double text _) => b.formatDouble text
  | .value (.char v) => b.append [v] 1
  | .value (.cString (some str)) => b.append str str.length
  | .value (.cString none) => b.append (bytes "(null)") 6
  | .value (.stringPiece v) => b.append v v.length
  | .value (.string v) => b.append v v.length
  | .value (.buffer v) => b.append v.data v.data.length
  | .value (.fmt v) => b.append v.buf v.buf.length
  | .value (.append data len _) => b.append data (sizeT len.toInt)
  | .stringPiece ptr length _ => b.append ptr (sizeT length.toInt)

theorem inBounds_eq_ok {α : Type} {x : Option α} {a : α} : inBounds x = .ok a ↔ x = some a := by
  cases x <;> simp [inBounds]

theorem memcpy_extends (data : Vector Byte size) {dest len : Nat} {src : List Byte}
    (hlen : len ≤ src.length) (hfits : dest + len ≤ size) : ∃ w,
    memcpy data dest src len = .ok w ∧ Memory.Extends data w dest (src.take len) := by
  have hlength : (src.take len).length = len := List.length_take_of_le hlen
  obtain ⟨w, hw, hextends⟩ := Memory.storeAll_extends data (src.take len)
    (show dest + (src.take len).length ≤ size by omega)
  exact ⟨w, inBounds_eq_ok.mpr (by rw [if_pos hlen, hw]), hextends⟩

section

variable {α : Type} [DecidableEq α] [Zero α] {data u : Vector Byte size} {buf : Nat}

theorem storeDigits_eq (lsd : α → Byte) (rest : α → α) (digits : Nat → α → List Byte)
    (hzero : ∀ i, digits 0 i = [])
    (hsucc : ∀ fuel i, digits (fuel + 1) i =
      lsd i :: if rest i = 0 then [] else digits fuel (rest i))
    (fuel : Nat) (i : α) (data : Vector Byte size) (buf : Nat) :
    storeDigits lsd rest fuel i data buf =
      inBounds (Memory.storeAll data buf (digits fuel i)) >>= fun w =>
        .ok (w, buf + (digits fuel i).length) := by
  induction fuel generalizing i data buf with
  | zero =>
    rw [hzero]
    rfl
  | succ fuel ih =>
    rw [hsucc, storeDigits, Memory.storeAll]
    cases Memory.store data buf (lsd i) with
    | none => rfl
    | some w =>
      by_cases hrest : rest i = 0
      · simp only [hrest, if_true]
        rfl
      · have hlength : buf + 1 + (digits fuel (rest i)).length =
            buf + ((digits fuel (rest i)).length + 1) := by omega
        simp only [hrest, if_false]
        exact (ih (rest i) w (buf + 1)).trans (by rw [hlength]; rfl)

theorem terminate_writes {text : List Byte} (hfits : buf + text.length < size)
    (hu : Memory.storeAll data buf text = some u) : ∃ w,
    terminate u buf (buf + text.length) = .ok (w, text.length) ∧
      Memory.Writes data w buf (text.reverse ++ [0]) := by
  obtain ⟨w, w', hw, hw', hwrites⟩ := Memory.reverse_writes (x := 0) hfits hu
  refine ⟨w', ?_, hwrites⟩
  rw [terminate, hw, Nat.add_sub_cancel_left]
  exact bind_eq_ok.mpr ⟨w, rfl, by rw [hw']; rfl⟩

end

theorem convert_writes (data : Vector Byte size) {buf : Nat} {value : Int}
    (hfits : buf + (LogStream.convert value).length < size) : ∃ w,
    convert data buf value = .ok (w, (LogStream.convert value).length) ∧
      Memory.Writes data w buf (LogStream.convert value ++ [0]) := by
  obtain ⟨digits, hdigits⟩ : ∃ digits, digits = LogStream.convert.loop (value.natAbs + 1) value :=
    ⟨_, rfl⟩
  have hloop := storeDigits_eq (fun i : Int => zero (i.tmod 10)) (fun i => i.tdiv 10)
    LogStream.convert.loop (fun _ => rfl) (fun _ _ => rfl) (value.natAbs + 1) value data buf
  rw [← hdigits] at hloop
  by_cases hneg : value < 0
  · have htext : LogStream.convert value = (digits ++ [45]).reverse := by
      rw [LogStream.convert, ← hdigits, if_pos hneg]
      rfl
    rw [htext, List.length_reverse] at hfits
    obtain ⟨u, hu, -⟩ := Memory.storeAll_writes data _ hfits.le
    obtain ⟨w, hw, hwrites⟩ := terminate_writes hfits hu
    rw [Memory.storeAll_append, Option.bind_eq_bind, Option.bind_eq_some_iff] at hu
    obtain ⟨d, hd, hu⟩ := hu
    have hsign : Memory.store d (buf + digits.length) 45 = some u := by
      rw [Memory.storeAll] at hu
      exact (Option.bind_fun_some _).symm.trans hu
    have hlength : (digits ++ [45]).length = digits.length + 1 := List.length_append
    refine ⟨w, ?_, htext ▸ hwrites⟩
    rw [convert, hloop, hd, htext, List.length_reverse, hlength]
    rw [hlength] at hw
    exact (if_pos hneg).trans (bind_eq_ok.mpr ⟨u, inBounds_eq_ok.mpr hsign, hw⟩)
  · have htext : LogStream.convert value = digits.reverse := by
      rw [LogStream.convert, ← hdigits, if_neg hneg]
    rw [htext, List.length_reverse] at hfits
    obtain ⟨u, hu, -⟩ := Memory.storeAll_writes data _ hfits.le
    obtain ⟨w, hw, hwrites⟩ := terminate_writes hfits hu
    refine ⟨w, ?_, htext ▸ hwrites⟩
    rw [convert, hloop, hu, htext, List.length_reverse]
    exact (if_neg hneg).trans hw

theorem convertHex_writes (data : Vector Byte size) {buf : Nat} {value : UInt64}
    (hfits : buf + (LogStream.convertHex value).length < size) : ∃ w,
    convertHex data buf value = .ok (w, (LogStream.convertHex value).length) ∧
      Memory.Writes data w buf (LogStream.convertHex value ++ [0]) := by
  have hloop := storeDigits_eq (fun i : Nat => digitsHex.getD (i % 16) 0) (fun i => i / 16)
    LogStream.convertHex.loop (fun _ => rfl) (fun _ _ => rfl) (value.toNat + 1) value.toNat data buf
  rw [LogStream.convertHex, List.length_reverse] at hfits ⊢
  obtain ⟨u, hu, -⟩ := Memory.storeAll_writes data _ hfits.le
  obtain ⟨w, hw, hwrites⟩ := terminate_writes hfits hu
  refine ⟨w, ?_, hwrites⟩
  rw [convertHex, hloop, hu]
  exact hw

theorem snprintf_writes (data : Vector Byte size) (s n : Nat) (text : List Byte)
    (hfits : s + (text.take (n - 1)).length < size) : ∃ w,
    snprintf data s n text = .ok (w, text.length) ∧
      Memory.Writes data w s (text.take (n - 1) ++ [0]) := by
  obtain ⟨w, hw, hwrites⟩ := Memory.storeAll_writes data (text.take (n - 1) ++ [0])
    (show s + (text.take (n - 1) ++ [0]).length ≤ size by rw [List.length_append]; exact hfits)
  refine ⟨w, ?_, hwrites⟩
  rw [snprintf, hw]
  rfl

theorem snprintf_writes_all (data : Vector Byte size) {s n : Nat} {text : List Byte}
    (hn : text.length < n) (hfits : s + text.length < size) : ∃ w,
    snprintf data s n text = .ok (w, text.length) ∧ Memory.Writes data w s (text ++ [0]) := by
  have htake : text.take (n - 1) = text := List.take_of_length_le (by omega)
  have hwrites := snprintf_writes data s n text (by rwa [htake])
  rwa [htake] at hwrites

theorem written_extends {data : Vector Byte size} {buf : Nat} {text : List Byte}
    {write : Except (Stop Fault) (Vector Byte size × Nat)}
    (h : ∃ w, write = .ok (w, text.length) ∧ Memory.Writes data w buf (text ++ [0]))
    (hbuf : buf ≤ size) :
    ∃ w, write = .ok (w, text.length) ∧ Memory.Extends data w buf text := by
  obtain ⟨w, hw, hwrites⟩ := h
  exact ⟨w, hw, hwrites.extends hbuf⟩

def content (b : RawBuffer size) : List Byte := b.data.toList.take b.cur

def Added (b b' : RawBuffer size) (text : List Byte) (room : Nat) : Prop :=
  if room ≤ size - b.cur then b'.cur = b.cur + text.length ∧ b'.content = b.content ++ text
  else b' = b

section

variable {b : RawBuffer kSmallBuffer} (hcur : b.cur < kSmallBuffer)
include hcur

theorem avail_eq : b.avail = (kSmallBuffer - b.cur : Nat) := by
  have hsmall : kSmallBuffer = 4000 := rfl
  rw [avail, CInt.narrow_eq (by omega) (by omega), Nat.cast_sub hcur.le]

theorem sizeT_avail : sizeT b.avail = kSmallBuffer - b.cur := by
  have hsmall : kSmallBuffer = 4000 := rfl
  rw [avail_eq hcur, sizeT_eq (Int.natCast_nonneg _) (by omega), Int.toNat_natCast]

theorem append_added {buf : List Byte} {len : Nat} (hlen : len ≤ buf.length) :
    ∃ b', b.append buf len = .ok b' ∧ Added b b' (buf.take len) ((buf.take len).length + 1) := by
  rw [List.length_take_of_le hlen]
  rw [append, sizeT_avail hcur]
  by_cases hroom : len + 1 ≤ kSmallBuffer - b.cur
  · obtain ⟨w, hw, hextends⟩ := memcpy_extends b.data hlen
      (show b.cur + len ≤ kSmallBuffer by omega)
    refine ⟨⟨w, b.cur + len⟩, ?_, ?_⟩
    · rw [if_pos (by omega), hw]
      rfl
    · rw [Memory.Extends, List.length_take_of_le hlen] at hextends
      rw [Added, if_pos hroom, List.length_take_of_le hlen]
      exact ⟨rfl, hextends⟩
  · refine ⟨b, if_neg (by omega), ?_⟩
    rw [Added, if_neg hroom]

theorem append_added_int {buf : List Byte} {len : Int32} (hlen : len.toInt ≤ buf.length) :
    ∃ b', b.append buf (sizeT len.toInt) = .ok b' ∧
      Added b b' (buf.take len.toInt.toNat) ((buf.take len.toInt.toNat).length + 1) := by
  by_cases hneg : len.toInt < 0
  · have hlarge := sizeT_of_neg len.le_toInt hneg
    have hsize := sizeT_avail hcur
    have hsmall : kSmallBuffer = 4000 := rfl
    refine ⟨b, if_neg (by omega), ?_⟩
    rw [Added, Int.toNat_of_nonpos hneg.le]
    split
    · simp
    · rfl
  · have hupper := len.toInt_lt
    rw [sizeT_eq (by omega) (by omega)]
    exact append_added hcur (by omega)

theorem append_added_all (buf : List Byte) :
    ∃ b', b.append buf buf.length = .ok b' ∧ Added b b' buf (buf.length + 1) := by
  have happend := append_added hcur (le_refl buf.length)
  rwa [List.take_length] at happend

theorem number_added {text : List Byte} (hlt : text.length < kMaxNumericSize)
    {write : Except (Stop Fault) (Vector Byte kSmallBuffer × Nat)}
    (hwrite : b.cur + text.length < kSmallBuffer →
      ∃ w, write = .ok (w, text.length) ∧ Memory.Extends b.data w b.cur text) :
    ∃ b', (if b.avail ≥ kMaxNumericSize then
        write >>= fun r => .ok ({ b with data := r.1 }.add r.2) else .ok b) = .ok b' ∧
      Added b b' text kMaxNumericSize := by
  rw [avail_eq hcur]
  by_cases hroom : kMaxNumericSize ≤ kSmallBuffer - b.cur
  · obtain ⟨w, hw, hextends⟩ := hwrite (by omega)
    refine ⟨⟨w, b.cur + text.length⟩, ?_, ?_⟩
    · rw [if_pos (by omega), hw]
      rfl
    · rw [Added, if_pos hroom]
      exact ⟨rfl, hextends⟩
  · refine ⟨b, if_neg (by omega), ?_⟩
    rw [Added, if_neg hroom]

theorem formatInteger_added {v : Int} (hlt : (LogStream.convert v).length < kMaxNumericSize) :
    ∃ b', b.formatInteger v = .ok b' ∧ Added b b' (LogStream.convert v) kMaxNumericSize :=
  number_added hcur hlt fun hfits => written_extends (convert_writes b.data hfits) hcur.le

theorem formatPointer_added (v : UInt64)
    (hlt : (bytes "0x" ++ LogStream.convertHex v).length < kMaxNumericSize) :
    ∃ b', b.formatPointer v = .ok b' ∧
      Added b b' (bytes "0x" ++ LogStream.convertHex v) kMaxNumericSize := by
  have hlength : (bytes "0x" ++ LogStream.convertHex v).length =
      (LogStream.convertHex v).length + 2 := by
    rw [List.length_append, Nat.add_comm]
    rfl
  have hwrite : b.cur + (bytes "0x" ++ LogStream.convertHex v).length < kSmallBuffer → ∃ w,
      (do
        let data ← inBounds (Memory.store b.data b.cur 48)
        let data ← inBounds (Memory.store data (b.cur + 1) 120)
        let (data, len) ← convertHex data (b.cur + 2) v
        .ok (data, len + 2)) = .ok (w, (bytes "0x" ++ LogStream.convertHex v).length) ∧
      Memory.Extends b.data w b.cur (bytes "0x" ++ LogStream.convertHex v) := by
    intro hfits
    have hdigits : b.cur + 2 + (LogStream.convertHex v).length < kSmallBuffer := by omega
    obtain ⟨d, hd, hbegins⟩ := Memory.storeAll_extends b.data [48, 120]
      (show b.cur + 2 ≤ kSmallBuffer by omega)
    obtain ⟨w, hw, hhex⟩ := written_extends (convertHex_writes d hdigits) (by omega)
    refine ⟨w, ?_, hbegins.trans hhex⟩
    rw [Memory.storeAll, Option.bind_eq_bind, Option.bind_eq_some_iff] at hd
    obtain ⟨c, hc, hd⟩ := hd
    rw [Memory.storeAll] at hd
    have hsecond : Memory.store c (b.cur + 1) 120 = some d :=
      (Option.bind_fun_some _).symm.trans hd
    refine bind_eq_ok.mpr ⟨c, inBounds_eq_ok.mpr hc, bind_eq_ok.mpr ⟨d, ?_, ?_⟩⟩
    · exact inBounds_eq_ok.mpr hsecond
    · exact bind_eq_ok.mpr ⟨_, hw, by rw [hlength]⟩
  have hformat := number_added hcur hlt hwrite
  simp only [bind_assoc] at hformat
  exact hformat

theorem formatDouble_added {text : List Byte} (hlt : text.length < kMaxNumericSize) :
    ∃ b', b.formatDouble text = .ok b' ∧ Added b b' text kMaxNumericSize :=
  number_added hcur hlt fun hfits => written_extends (snprintf_writes_all b.data hlt hfits) hcur.le

theorem insert_added (x : Argument) :
    ∃ b', b.insert x = .ok b' ∧ Added b b' x.insertion.text x.insertion.room := by
  cases x with
  | stringPiece ptr length h =>
    exact append_added_int hcur h
  | value x =>
    have hnumber : x.isNumber = true → x.text.length < kMaxNumericSize := Insertion.length_lt
    cases x with
    | short v =>
      have hshort : ∃ b', b.formatInteger v.toInt32.toInt = .ok b' ∧
          Added b b' (LogStream.convert v.toInt) kMaxNumericSize := by
        rw [v.toInt_toInt32]
        exact formatInteger_added hcur (hnumber rfl)
      exact hshort
    | unsignedShort v =>
      have hshort : ∃ b', b.formatInteger v.toUInt32.toNat = .ok b' ∧
          Added b b' (LogStream.convert v.toNat) kMaxNumericSize := by
        rw [v.toNat_toUInt32]
        exact formatInteger_added hcur (hnumber rfl)
      exact hshort
    | int v | unsignedInt v | long v | unsignedLong v | longLong v | unsignedLongLong v =>
      exact formatInteger_added hcur (hnumber rfl)
    | pointer v => exact formatPointer_added hcur v (hnumber rfl)
    | double text h => exact formatDouble_added hcur h
    | bool v => cases v with
      | false => exact append_added_all hcur (bytes "0")
      | true => exact append_added_all hcur (bytes "1")
    | cString str =>
      cases str with
      | none => exact append_added_all hcur (bytes "(null)")
      | some str => exact append_added_all hcur str
    | append data len h => exact append_added_int hcur h
    | char v => exact append_added_all hcur [v]
    | stringPiece v | string v => exact append_added_all hcur v
    | buffer v => exact append_added_all hcur v.data
    | fmt v => exact append_added_all hcur v.buf

end

theorem text_lt_room (x : Insertion) : x.text.length < x.room := by
  rw [Insertion.room]
  split
  next hnumber => exact Insertion.length_lt hnumber
  next => exact Nat.lt_succ_self _

variable {b b' : RawBuffer kSmallBuffer} {x : Argument}

theorem cur_lt_of_added (hcur : b.cur < kSmallBuffer)
    (h : Added b b' x.insertion.text x.insertion.room) : b'.cur < kSmallBuffer := by
  have hlt := text_lt_room x.insertion
  rw [Added] at h
  split at h
  · rw [h.1]
    omega
  · exact h ▸ hcur

theorem insert_cur_lt (hcur : b.cur < kSmallBuffer) (h : b.insert x = .ok b') :
    b'.cur < kSmallBuffer := by
  obtain ⟨c, hc, hadded⟩ := insert_added hcur x
  cases h.symm.trans hc
  exact cur_lt_of_added hcur hadded

theorem length_eq (hcur : b.cur < kSmallBuffer) : b.length = b.cur := by
  have hsmall : kSmallBuffer = 4000 := rfl
  exact CInt.narrow_eq (by omega) (by omega)

theorem content_length (hcur : b.cur < kSmallBuffer) : b.content.length = b.cur := by
  rw [content, List.length_take, Vector.length_toList, Nat.min_eq_left hcur.le]

def Represents (s : LogStream) (b : RawBuffer kSmallBuffer) : Prop :=
  b.cur < kSmallBuffer ∧ b.content = s.buffer.data

theorem insert_represents {s : LogStream} (h : Represents s b) (x : Argument) :
    Related Represents (s.insert x.insertion) (b.insert x) := by
  obtain ⟨hcur, hcontent⟩ := h
  obtain ⟨b', hb', hadded⟩ := insert_added hcur x
  obtain ⟨s', hs', hdata⟩ := s.insert_data x.insertion
  have havail : s.buffer.avail = kSmallBuffer - b.cur := by
    rw [FixedBuffer.avail, ← hcontent, content_length hcur]
  rw [hb', hs']
  refine ⟨cur_lt_of_added hcur hadded, ?_⟩
  rw [hdata, havail, ← hcontent]
  rw [Added] at hadded
  split at hadded
  next hroom => rw [if_pos hroom, hadded.2]
  next hroom => rw [if_neg hroom, hadded]

/-- Whatever is inserted, the memory holds the bytes of the stream. -/
theorem run_represents (xs : List Argument) :
    Related Represents (run (fun s x => s.insert x.insertion) LogStream.empty xs)
      (run insert empty xs) := by
  have hempty : Represents LogStream.empty empty := ⟨by decide, rfl⟩
  exact run_related (fun s b x h _ => insert_represents h x) hempty throughout_true

/-- An insertion writes to the array only, and leaves the bytes that are there. It adds its complete
text or nothing, and the text if there is the space that it needs. -/
def AllOrNothing (b : RawBuffer kSmallBuffer) (x : Argument) : Prop :=
  ∃ b', b.insert x = .ok b' ∧ b'.length ≤ kSmallBuffer - 1 ∧ b'.content.length = b'.length ∧
    (b'.content = b.content ++ x.insertion.text ∨ b'.content = b.content) ∧
    (x.insertion.isNumber = true → kMaxNumericSize ≤ b.avail →
      b'.content = b.content ++ x.insertion.text) ∧
    (x.insertion.isNumber = false → x.insertion.text.length < b.avail →
      b'.content = b.content ++ x.insertion.text)

theorem allOrNothing (hcur : b.cur < kSmallBuffer) (x : Argument) : AllOrNothing b x := by
  obtain ⟨b', hb', hadded⟩ := insert_added hcur x
  have hcur' := cur_lt_of_added hcur hadded
  have hlength := length_eq hcur'
  have hcontent := content_length hcur'
  have havail := avail_eq hcur
  have hroom : x.insertion.room ≤ kSmallBuffer - b.cur →
      b'.content = b.content ++ x.insertion.text := by
    intro hroom
    rw [Added, if_pos hroom] at hadded
    exact hadded.2
  refine ⟨b', hb', by omega, by omega, ?_, fun hnumber hspace => hroom ?_,
    fun hnumber hspace => hroom ?_⟩
  · by_cases h : x.insertion.room ≤ kSmallBuffer - b.cur
    · exact .inl (hroom h)
    · rw [Added, if_neg h] at hadded
      exact .inr (by rw [hadded])
  · rw [Insertion.room, if_pos hnumber]
    omega
  · rw [Insertion.room, if_neg (by simp [hnumber])]
    omega

/-- This holds of every insertion into a stream, whatever has been inserted before. -/
theorem insert_all_or_nothing (xs : List Argument) : Throughout insert AllOrNothing empty xs := by
  apply throughout_of_first
  intro pre x post b _ _ hrun
  have hempty : (empty : RawBuffer kSmallBuffer).cur < kSmallBuffer := by decide
  have hcur : b.cur < kSmallBuffer := by
    refine run_invariant (I := fun b => b.cur < kSmallBuffer) ?_ hempty hrun
    exact fun _ _ _ h hstep => insert_cur_lt h hstep
  exact allOrNothing hcur x

end RawBuffer

end AcMuduo

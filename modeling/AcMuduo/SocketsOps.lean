import Mathlib.Data.List.DropRight
import AcMuduo.InetText

namespace AcMuduo

open Machine LogStream

structure SockAddrIn (n : Nat) where
  port : UInt16
  addr : Vector Byte n

/-- A `sockaddr` is what its family says. The port of any other family is where IPv4 has it. -/
inductive SockAddr where
  | inet (addr : SockAddrIn 4)
  | inet6 (addr : SockAddrIn 16)
  | other (port : UInt16)

namespace Sockets

def inetAddrstrlen : UInt64 := 16
def inet6Addrstrlen : UInt64 := 46

def byteSwap16 (x : UInt16) : UInt16 := .ofNat (x.toNat % 256 * 256 + x.toNat / 256)

def networkToHost16 (net16 : UInt16) : UInt16 := byteSwap16 net16
def hostToNetwork16 (host16 : UInt16) : UInt16 := byteSwap16 host16

section

variable {cap n : Nat} (inet : Inet 4) (inet6 : Inet 16)

def strlen (data : Vector Byte cap) : Except (Stop Fault) Nat :=
  inBounds ((Memory.terminated 0 data).map List.length)

/-- Nothing is written if the text and the zero after it need more space than there is. -/
def inetNtop (ntop : Vector Byte n → List Byte) (src : Vector Byte n) (data : Vector Byte cap)
    (dst : Nat) (size : UInt32) : Except (Stop Fault) (Vector Byte cap) :=
  if (ntop src).length < size.toNat then inBounds (Memory.storeAll data dst (ntop src ++ [0]))
  else .ok data

def toIp (data : Vector Byte cap) (buf : Nat) (size : UInt64) :
    SockAddr → Except (Stop Fault) (Vector Byte cap)
  | .inet addr4 => do
    assert (size > inetAddrstrlen)
    inetNtop inet.ntop addr4.addr data buf size.toUInt32
  | .inet6 addr6 => do
    assert (size > inet6Addrstrlen)
    inetNtop inet6.ntop addr6.addr data buf size.toUInt32
  | .other _ => .ok data

/-- How each branch of `to_ip_port` goes on after the address. -/
def printAtEnd (data : Vector Byte cap) (size : UInt64) (text : List Byte) :
    Except (Stop Fault) (Vector Byte cap) := do
  let length ← strlen data
  assert (size.toNat > length)
  let (data, _) ← RawBuffer.snprintf data length (size.toNat - length) text
  .ok data

def portText (port : UInt16) : List Byte := decimal.written (networkToHost16 port).toNat

def toIpPort (data : Vector Byte cap) (size : UInt64) :
    SockAddr → Except (Stop Fault) (Vector Byte cap)
  | .inet6 addr6 => do
    let data ← inBounds (Memory.store data 0 91)
    let data ← toIp inet inet6 data 1 (size - 1) (.inet6 addr6)
    printAtEnd data size (bytes "]:" ++ portText addr6.port)
  | .inet addr4 => do
    let data ← toIp inet inet6 data 0 size (.inet addr4)
    printAtEnd data size (bytes ":" ++ portText addr4.port)
  | .other port => do
    let data ← toIp inet inet6 data 0 size (.other port)
    printAtEnd data size (bytes ":" ++ portText port)

/-- An address that cannot be read is left as it is. The overloads set the family, too. -/
def setIpPort (pton : List Byte → Option (Vector Byte n)) (ip : List Byte) (port : UInt16)
    (addr : SockAddrIn n) : SockAddrIn n :=
  { port := hostToNetwork16 port, addr := (pton ip).getD addr.addr }

def fromIpPort (ip : List Byte) (port : UInt16) (addr : SockAddrIn 4) : SockAddr :=
  .inet (setIpPort inet.pton ip port addr)

def fromIpPort6 (ip : List Byte) (port : UInt16) (addr : SockAddrIn 16) : SockAddr :=
  .inet6 (setIpPort inet6.pton ip port addr)

end

theorem byteSwap16_toNat (x : UInt16) :
    (byteSwap16 x).toNat = x.toNat % 256 * 256 + x.toNat / 256 := by
  have hlt := x.toNat_lt
  rw [byteSwap16, UInt16.toNat_ofNat', Nat.mod_eq_of_lt (by omega)]

theorem hostToNetwork16_networkToHost16 (port : UInt16) :
    hostToNetwork16 (networkToHost16 port) = port := by
  have hlt := port.toNat_lt
  rw [hostToNetwork16, networkToHost16, ← UInt16.toNat_inj, byteSwap16_toNat, byteSwap16_toNat]
  omega

section

variable {α : Type} [DecidableEq α] {x : α} {pre post : List α}

def splitLast (x : α) (text : List α) : Option (List α × List α) :=
  if x ∈ text then some ((text.rdropWhile (· ≠ x)).dropLast, text.rtakeWhile (· ≠ x)) else none

theorem splitLast_append (h : x ∉ post) : splitLast x (pre ++ x :: post) = some (pre, post) := by
  have hpost : ∀ y ∈ post.reverse, decide (y ≠ x) = true := by
    intro y hy
    rw [decide_eq_true_iff]
    rintro rfl
    exact h (List.mem_reverse.mp hy)
  have hreverse : (pre ++ x :: post).reverse = post.reverse ++ x :: pre.reverse := by simp
  rw [splitLast, if_pos (by simp), List.rdropWhile, List.rtakeWhile, hreverse,
    List.dropWhile_append_of_pos hpost, List.takeWhile_append_of_pos hpost,
    List.dropWhile_cons_of_neg (by simp), List.takeWhile_cons_of_neg (by simp)]
  simp

end

section

variable {cap n : Nat} {data : Vector Byte cap} {size : UInt64}

theorem inetNtop_writes (data : Vector Byte cap) (dst : Nat) {ntop : Vector Byte n → List Byte}
    {src : Vector Byte n} {size : UInt32} (hsize : (ntop src).length < size.toNat)
    (hfits : dst + (ntop src).length < cap) : ∃ w, inetNtop ntop src data dst size = .ok w ∧
      Memory.Writes data w dst (ntop src ++ [0]) := by
  obtain ⟨w, hw, hwrites⟩ := Memory.storeAll_writes data (ntop src ++ [0])
    (show dst + (ntop src ++ [0]).length ≤ cap by rw [List.length_append]; exact hfits)
  exact ⟨w, by rw [inetNtop, if_pos hsize, RawBuffer.inBounds_eq_ok.mpr hw], hwrites⟩

theorem printAtEnd_terminated {data : Vector Byte size.toNat} {pre text : List Byte}
    (hpre : Memory.terminated 0 data = some pre) (htext : 0 ∉ text) :
    ∃ w, printAtEnd data size text = .ok w ∧
      Memory.terminated 0 w = some (pre ++ text.take (size.toNat - pre.length - 1)) := by
  have hlt := Memory.length_lt_of_terminated hpre
  obtain ⟨hzero, post, hlist⟩ := Memory.toList_of_terminated hpre
  have htake : data.toList.take pre.length = pre := by rw [hlist, List.take_left]
  have hlength := List.length_take_le (size.toNat - pre.length - 1) text
  obtain ⟨w, hw, hwrites⟩ := RawBuffer.snprintf_writes data pre.length
    (size.toNat - pre.length) text (by omega)
  have hcut : (0 : Byte) ∉ pre ++ text.take (size.toNat - pre.length - 1) := by
    rw [List.mem_append, not_or]
    exact ⟨hzero, fun hmem => htext (List.mem_of_mem_take hmem)⟩
  have hterminated := hwrites.terminated (by rwa [htake])
  rw [htake] at hterminated
  refine ⟨w, ?_, hterminated⟩
  have hstrlen : strlen data = .ok pre.length := by
    rw [strlen, hpre]
    rfl
  have hassert : assert (size.toNat > pre.length) = .ok () := assert_eq_ok.mpr (by simpa using hlt)
  rw [printAtEnd, hstrlen]
  exact bind_eq_ok.mpr ⟨_, rfl, bind_eq_ok.mpr ⟨(), hassert, bind_eq_ok.mpr ⟨_, hw, rfl⟩⟩⟩

theorem zero_notMem_portText (port : UInt16) : (0 : Byte) ∉ portText port := by
  intro hmem
  obtain ⟨d, hd, hzero⟩ := Glyphs.glyph_of_mem_written (by decide) hmem
  have hdigit : ∀ d < 10, decimal.glyph d ≠ 0 := by decide
  exact hdigit d hd hzero.symm

theorem portText_length_le (port : UInt16) : (portText port).length ≤ 5 :=
  decimal.length_written_le (by decide) (by decide)
    (lt_trans (networkToHost16 port).toNat_lt (by decide))

end

section

variable {inet : Inet 4} {inet6 : Inet 16} {size : UInt64} {data : Vector Byte size.toNat}

def SockAddr.rest : SockAddr → List Byte
  | .inet addr4 => bytes ":" ++ portText addr4.port
  | .inet6 addr6 => bytes "]:" ++ portText addr6.port
  | .other port => bytes ":" ++ portText port

theorem SockAddr.zero_notMem_rest (addr : SockAddr) : (0 : Byte) ∉ rest addr := by
  cases addr <;> exact fun hmem => (List.mem_append.mp hmem).elim (by decide)
    (zero_notMem_portText _)

theorem toIp_inet {cap : Nat} {data : Vector Byte cap} {buf : Nat} {a : SockAddrIn 4}
    (hsize : size > inetAddrstrlen) : toIp inet inet6 data buf size (.inet a) =
      inetNtop inet.ntop a.addr data buf size.toUInt32 := by
  rw [toIp, decide_eq_true hsize, assert_true]
  rfl

theorem toIp_inet6 {cap : Nat} {data : Vector Byte cap} {buf : Nat} {a : SockAddrIn 16}
    (hsize : size > inet6Addrstrlen) : toIp inet inet6 data buf size (.inet6 a) =
      inetNtop inet6.ntop a.addr data buf size.toUInt32 := by
  rw [toIp, decide_eq_true hsize, assert_true]
  rfl

def Prints (inet : Inet 4) (inet6 : Inet 16) (data : Vector Byte size.toNat) (addr : SockAddr)
    (pre : List Byte) : Prop :=
  ∃ w, toIpPort inet inet6 data size addr = .ok w ∧ Memory.terminated 0 w =
    some (pre ++ (SockAddr.rest addr).take (size.toNat - pre.length - 1))

theorem prints_inet {a : SockAddrIn 4} {d : Vector Byte size.toNat} {pre : List Byte}
    (hsize : size > inetAddrstrlen) (hd : inetNtop inet.ntop a.addr data 0 size.toUInt32 = .ok d)
    (hpre : Memory.terminated 0 d = some pre) : Prints inet inet6 data (.inet a) pre := by
  obtain ⟨w, hw, hterminated⟩ := printAtEnd_terminated hpre (SockAddr.zero_notMem_rest (.inet a))
  exact ⟨w, bind_eq_ok.mpr ⟨d, (toIp_inet hsize).trans hd, hw⟩, hterminated⟩

theorem prints_inet6 {a : SockAddrIn 16} {c d : Vector Byte size.toNat} {pre : List Byte}
    (hsize : size - 1 > inet6Addrstrlen) (hc : Memory.store data 0 91 = some c)
    (hd : inetNtop inet6.ntop a.addr c 1 (size - 1).toUInt32 = .ok d)
    (hpre : Memory.terminated 0 d = some pre) : Prints inet inet6 data (.inet6 a) pre := by
  obtain ⟨w, hw, hterminated⟩ := printAtEnd_terminated hpre (SockAddr.zero_notMem_rest (.inet6 a))
  refine ⟨w, bind_eq_ok.mpr ⟨c, RawBuffer.inBounds_eq_ok.mpr hc, ?_⟩, hterminated⟩
  exact bind_eq_ok.mpr ⟨d, (toIp_inet6 hsize).trans hd, hw⟩

theorem prints_inet_text {a : SockAddrIn 4} (h : inet.Lawful 15) (hsize : size > inetAddrstrlen)
    (hfits : (inet.ntop a.addr).length < size.toUInt32.toNat) :
    Prints inet inet6 data (.inet a) (inet.ntop a.addr) := by
  have hlength := h.length_le a.addr
  have hlt : inetAddrstrlen.toNat < size.toNat := hsize
  have hstrlen : inetAddrstrlen.toNat = 16 := rfl
  obtain ⟨w, hw, hwrites⟩ := inetNtop_writes data 0 hfits (by omega)
  have hterminated := hwrites.terminated (by simpa using h.zero_notMem a.addr)
  exact prints_inet hsize hw (by simpa using hterminated)

theorem prints_inet_nothing {a : SockAddrIn 4} (hsize : size > inetAddrstrlen)
    (hfits : ¬(inet.ntop a.addr).length < size.toUInt32.toNat) :
    Prints inet inet6 (.replicate size.toNat 0) (.inet a) [] := by
  have hlt : inetAddrstrlen.toNat < size.toNat := hsize
  obtain ⟨k, hk⟩ := Nat.exists_eq_add_of_lt hlt
  have hlist : (Vector.replicate size.toNat (0 : Byte)).toList =
      [] ++ 0 :: List.replicate (inetAddrstrlen.toNat + k) 0 := by
    rw [Vector.toList_replicate, hk]
    rfl
  exact prints_inet hsize (if_neg hfits) (Memory.terminated_of_toList hlist (by simp))

theorem store_bracket (data : Vector Byte size.toNat) (hsize : size > 0) :
    ∃ c, Memory.store data 0 91 = some c ∧ c.toList = 91 :: data.toList.drop 1 := by
  obtain ⟨c, hc, hlist⟩ := Memory.store_toList (v := data) (i := 0) 91 hsize
  exact ⟨c, hc, hlist⟩

theorem toNat_sub_one (hpos : size > 0) : (size - 1).toNat = size.toNat - 1 :=
  UInt64.toNat_sub_of_le _ _ (UInt64.le_iff_toNat_le.mpr (UInt64.lt_iff_toNat_lt.mp hpos))

theorem prints_inet6_text {a : SockAddrIn 16} (h : inet6.Lawful 39) (hpos : size > 0)
    (hsize : size - 1 > inet6Addrstrlen)
    (hfits : (inet6.ntop a.addr).length < (size - 1).toUInt32.toNat) :
    Prints inet inet6 data (.inet6 a) (bytes "[" ++ inet6.ntop a.addr) := by
  have hlength := h.length_le a.addr
  have hlt : inet6Addrstrlen.toNat < (size - 1).toNat := hsize
  have hstrlen : inet6Addrstrlen.toNat = 46 := rfl
  rw [toNat_sub_one hpos] at hlt
  obtain ⟨c, hc, hlist⟩ := store_bracket data hpos
  have htake : c.toList.take 1 = bytes "[" := by
    rw [hlist]
    rfl
  obtain ⟨w, hw, hwrites⟩ := inetNtop_writes c 1 hfits (by omega)
  have hzero : (0 : Byte) ∉ c.toList.take 1 ++ inet6.ntop a.addr := by
    rw [htake, List.mem_append, not_or]
    exact ⟨by decide, h.zero_notMem a.addr⟩
  have hterminated := hwrites.terminated hzero
  rw [htake] at hterminated
  exact prints_inet6 hsize hc hw hterminated

theorem prints_inet6_nothing {a : SockAddrIn 16} (hpos : size > 0)
    (hsize : size - 1 > inet6Addrstrlen)
    (hfits : ¬(inet6.ntop a.addr).length < (size - 1).toUInt32.toNat) :
    Prints inet inet6 (.replicate size.toNat 0) (.inet6 a) (bytes "[") := by
  have hlt : inet6Addrstrlen.toNat < (size - 1).toNat := hsize
  rw [toNat_sub_one hpos] at hlt
  obtain ⟨k, hk⟩ := Nat.exists_eq_add_of_lt hlt
  have hrest : (List.replicate size.toNat (0 : Byte)).drop 1 =
      0 :: List.replicate (inet6Addrstrlen.toNat + k) 0 := by
    rw [List.drop_replicate, hk]
    rfl
  obtain ⟨c, hc, hlist⟩ := store_bracket (.replicate size.toNat 0) hpos
  rw [Vector.toList_replicate, hrest] at hlist
  have hpre : Memory.terminated 0 c = some (bytes "[") :=
    Memory.terminated_of_toList hlist (by decide)
  exact prints_inet6 hsize hc (if_neg hfits) hpre

end

section

variable (inet : Inet 4) (inet6 : Inet 16)

def IsText : SockAddr → List Byte → Prop
  | .inet a, text => text = inet.ntop a.addr ++ bytes ":" ++ portText a.port
  | .inet6 a, text => text = bytes "[" ++ inet6.ntop a.addr ++ bytes "]:" ++ portText a.port
  | .other _, _ => False

def colon : Byte := 58

/-- The text is divided at its last colon. What is before, without the brackets of IPv6, and the
port are those of the address, whatever has been where they are stored. -/
def ReadsBack : SockAddr → List Byte → Prop
  | .inet a, text => ∃ ip port, splitLast colon text = some (ip, port) ∧
      ∀ b, fromIpPort inet ip (.ofNat (decimal.value port)) b = .inet a
  | .inet6 a, text => ∃ ip port, splitLast colon text = some (bytes "[" ++ ip ++ bytes "]", port) ∧
      ∀ b, fromIpPort6 inet6 ip (.ofNat (decimal.value port)) b = .inet6 a
  | .other _, _ => False

variable {inet inet6} {addr : SockAddr}

theorem setIpPort_eq {n : Nat} {lib : Inet n} {k : Nat} (h : lib.Lawful k) (a b : SockAddrIn n) :
    setIpPort lib.pton (lib.ntop a.addr) (.ofNat (decimal.value (portText a.port))) b = a := by
  rw [setIpPort, h.pton_ntop, portText, Glyphs.value_written (by decide), UInt16.ofNat_toNat,
    hostToNetwork16_networkToHost16]
  rfl

theorem colon_notMem_portText (port : UInt16) : colon ∉ portText port := by
  intro hmem
  obtain ⟨d, hd, hcolon⟩ := Glyphs.glyph_of_mem_written (by decide) hmem
  have hdigit : ∀ d < 10, decimal.glyph d ≠ colon := by decide
  exact hdigit d hd hcolon.symm

theorem readsBack_of_isText (h : inet.Lawful 15) (h6 : inet6.Lawful 39) {text : List Byte}
    (htext : IsText inet inet6 addr text) : ReadsBack inet inet6 addr text := by
  cases addr with
  | inet a =>
    subst htext
    refine ⟨_, _, ?_, fun b => congrArg SockAddr.inet (setIpPort_eq h a b)⟩
    rw [List.append_assoc]
    exact splitLast_append (colon_notMem_portText a.port)
  | inet6 a =>
    subst htext
    refine ⟨_, _, ?_, fun b => congrArg SockAddr.inet6 (setIpPort_eq h6 a b)⟩
    have hcolon : bytes "]:" = bytes "]" ++ [colon] := by decide
    rw [hcolon, ← List.append_assoc, List.append_assoc _ [colon]]
    exact splitLast_append (colon_notMem_portText a.port)
  | other port => exact htext

/-- The sizes that pass the assert of `to_ip`. No length is less than zero, so the assert of
`to_ip_port` is not passed without a buffer. -/
def Admitted (size : UInt64) : SockAddr → Prop
  | .inet _ => size > inetAddrstrlen
  | .inet6 _ => size > 0 ∧ size - 1 > inet6Addrstrlen
  | .other _ => False

variable (inet inet6) in
def Complete (size : UInt64) (addr : SockAddr) : Prop :=
  ∀ data : Vector Byte size.toNat,
    toIpPort inet inet6 data size addr ≠ .error (.fault .assertFailed) →
    ∃ w text, toIpPort inet inet6 data size addr = .ok w ∧ Memory.terminated 0 w = some text ∧
      IsText inet inet6 addr text ∧ ReadsBack inet inet6 addr text

variable (inet inet6) in
/-- The `socklen_t` that `to_ip` passes on is large enough for the address, and the buffer for
what is printed after an IPv4 address as well. -/
def Room (size : UInt64) : SockAddr → Prop
  | .inet a => (inet.ntop a.addr).length < size.toUInt32.toNat ∧
      (inet.ntop a.addr).length + (bytes ":" ++ portText a.port).length < size.toNat
  | .inet6 a => (inet6.ntop a.addr).length < (size - 1).toUInt32.toNat
  | .other _ => False

instance (size : UInt64) : (addr : SockAddr) → Decidable (Admitted size addr)
  | .inet _ => inferInstanceAs (Decidable (size > inetAddrstrlen))
  | .inet6 _ => inferInstanceAs (Decidable (size > 0 ∧ size - 1 > inet6Addrstrlen))
  | .other _ => inferInstanceAs (Decidable False)

instance (size : UInt64) : (addr : SockAddr) → Decidable (Room inet inet6 size addr)
  | .inet a => inferInstanceAs (Decidable ((inet.ntop a.addr).length < size.toUInt32.toNat ∧
      (inet.ntop a.addr).length + (bytes ":" ++ portText a.port).length < size.toNat))
  | .inet6 a => inferInstanceAs (Decidable
      ((inet6.ntop a.addr).length < (size - 1).toUInt32.toNat))
  | .other _ => inferInstanceAs (Decidable False)

theorem prints_complete {size : UInt64} {data : Vector Byte size.toNat} {pre : List Byte}
    (h : inet.Lawful 15) (h6 : inet6.Lawful 39) (hprints : Prints inet inet6 data addr pre)
    (hroom : pre.length + (SockAddr.rest addr).length < size.toNat)
    (htext : IsText inet inet6 addr (pre ++ SockAddr.rest addr)) :
    ∃ w text, toIpPort inet inet6 data size addr = .ok w ∧ Memory.terminated 0 w = some text ∧
      IsText inet inet6 addr text ∧ ReadsBack inet inet6 addr text := by
  obtain ⟨w, hw, hterminated⟩ := hprints
  rw [List.take_of_length_le (by omega)] at hterminated
  exact ⟨w, _, hw, hterminated, htext, readsBack_of_isText h h6 htext⟩

theorem isText_unique {text text' : List Byte} (h : IsText inet inet6 addr text)
    (h' : IsText inet inet6 addr text') : text = text' := by
  cases addr with
  | inet a | inet6 a => exact h.trans h'.symm
  | other port => exact h.elim

theorem Complete.length_eq {size : UInt64} {data : Vector Byte size.toNat} {pre ip : List Byte}
    (h : Complete inet inet6 size addr) (hprints : Prints inet inet6 data addr pre)
    (htext : IsText inet inet6 addr (ip ++ SockAddr.rest addr)) :
    pre.length + min (size.toNat - pre.length - 1) (SockAddr.rest addr).length =
      ip.length + (SockAddr.rest addr).length := by
  obtain ⟨w, hw, hterminated⟩ := hprints
  obtain ⟨w', text, hw', hterminated', htext', -⟩ := h data (by rw [hw]; simp)
  cases hw.symm.trans hw'
  cases hterminated.symm.trans hterminated'
  have hlength := congrArg List.length (isText_unique htext' htext)
  rwa [List.length_append, List.length_append, List.length_take] at hlength

theorem isText_inet (a : SockAddrIn 4) :
    IsText inet inet6 (.inet a) (inet.ntop a.addr ++ SockAddr.rest (.inet a)) :=
  (List.append_assoc _ _ _).symm

theorem isText_inet6 (a : SockAddrIn 16) :
    IsText inet inet6 (.inet6 a) (bytes "[" ++ inet6.ntop a.addr ++ SockAddr.rest (.inet6 a)) :=
  (List.append_assoc _ _ _).symm

theorem complete_inet_iff (h : inet.Lawful 15) (h6 : inet6.Lawful 39) {size : UInt64}
    {a : SockAddrIn 4} (hsize : Admitted size (.inet a)) :
    Complete inet inet6 size (.inet a) ↔ Room inet inet6 size (.inet a) := by
  constructor
  · intro hcomplete
    by_cases hfits : (inet.ntop a.addr).length < size.toUInt32.toNat
    · have hprints : Prints inet inet6 (.replicate _ 0) (.inet a) (inet.ntop a.addr) :=
        prints_inet_text h hsize hfits
      have hlength := hcomplete.length_eq hprints (isText_inet a)
      have hlow : size.toUInt32.toNat ≤ size.toNat := Nat.mod_le _ _
      refine ⟨hfits, ?_⟩
      rw [SockAddr.rest] at hlength
      omega
    · -- the buffer has been left with no address in it
      have hlength := hcomplete.length_eq (prints_inet_nothing hsize hfits) (isText_inet a)
      have hpos := List.length_pos_of_ne_nil (h.nonempty a.addr)
      rw [List.length_nil] at hlength
      omega
  · rintro ⟨hfits, hroom⟩ data -
    exact prints_complete h h6 (prints_inet_text h hsize hfits) hroom (isText_inet a)

theorem complete_inet6_iff (h : inet.Lawful 15) (h6 : inet6.Lawful 39) {size : UInt64}
    {a : SockAddrIn 16} (hsize : Admitted size (.inet6 a)) :
    Complete inet inet6 size (.inet6 a) ↔ Room inet inet6 size (.inet6 a) := by
  obtain ⟨hpos, hsize⟩ := hsize
  constructor
  · intro hcomplete
    by_contra hfits
    have hlength := hcomplete.length_eq (prints_inet6_nothing hpos hsize hfits) (isText_inet6 a)
    have hne := List.length_pos_of_ne_nil (h6.nonempty a.addr)
    rw [List.length_append] at hlength
    omega
  · intro hfits data _
    -- the assert is for the longest address, with the brackets and the port
    have hroom : (bytes "[" ++ inet6.ntop a.addr).length + (SockAddr.rest (.inet6 a)).length <
        size.toNat := by
      have hip := h6.length_le a.addr
      have hport := portText_length_le a.port
      have hlt : inet6Addrstrlen.toNat < (size - 1).toNat := hsize
      have hstrlen : inet6Addrstrlen.toNat = 46 := rfl
      have hopen : (bytes "[").length = 1 := by decide
      have hclose : (bytes "]:").length = 2 := by decide
      rw [toNat_sub_one hpos] at hlt
      rw [SockAddr.rest, List.length_append, List.length_append]
      omega
    exact prints_complete h h6 (prints_inet6_text h6 hpos hsize hfits) hroom (isText_inet6 a)

/-- The asserts leave enough space for every IPv6 address, and not for every IPv4 address. -/
theorem toIpPort_complete_iff (h : inet.Lawful 15) (h6 : inet6.Lawful 39) {size : UInt64}
    (hsize : Admitted size addr) :
    Complete inet inet6 size addr ↔ Room inet inet6 size addr := by
  cases addr with
  | inet a => exact complete_inet_iff h h6 hsize
  | inet6 a => exact complete_inet6_iff h h6 hsize
  | other port => exact hsize.elim

theorem toIpPort_complete_smallest :
    Complete Inet.inet4 Inet.inet6 17 (.inet ⟨networkToHost16 2017, #v[127, 0, 0, 1]⟩) ∧
    Complete Inet.inet4 Inet.inet6 48 (.inet6 ⟨65535, .replicate 16 255⟩) :=
  ⟨(toIpPort_complete_iff Inet.inet4_lawful Inet.inet6_lawful (by decide)).mpr (by decide),
    (toIpPort_complete_iff Inet.inet4_lawful Inet.inet6_lawful (by decide)).mpr (by decide)⟩

def longestInet : SockAddrIn 4 := ⟨65535, .replicate 4 255⟩

/-- This address needs 22 bytes, and 17 pass the asserts. -/
theorem toIpPort_cuts_off_port :
    Inet.inet4.Lawful 15 ∧ Inet.inet6.Lawful 39 ∧ Admitted 17 (.inet longestInet) ∧
    (∃ w, toIpPort Inet.inet4 Inet.inet6 (.replicate (17 : UInt64).toNat 0) 17
        (.inet longestInet) = .ok w ∧ Memory.terminated 0 w = some (bytes "255.255.255.255:")) ∧
    ¬Complete Inet.inet4 Inet.inet6 17 (.inet longestInet) := by
  have hsize : Admitted 17 (.inet longestInet) := by decide
  have hfits : (Inet.inet4.ntop longestInet.addr).length < (17 : UInt64).toUInt32.toNat := by decide
  refine ⟨Inet.inet4_lawful, Inet.inet6_lawful, hsize, ?_, ?_⟩
  · obtain ⟨w, hw, hterminated⟩ := prints_inet_text Inet.inet4_lawful hsize hfits
    refine ⟨w, hw, hterminated.trans (congrArg some ?_)⟩
    decide
  · rw [complete_inet_iff Inet.inet4_lawful Inet.inet6_lawful hsize]
    decide

end

end Sockets

end AcMuduo

import AcMuduo.IntegerText

namespace AcMuduo

/-- `inet_ntop` and `inet_pton` for the addresses of a family: the text that the first one writes,
and the address that the second one reads. -/
structure Inet (n : Nat) where
  ntop : Vector Byte n → List Byte
  pton : List Byte → Option (Vector Byte n)

namespace Inet

variable {n : Nat}

/-- What is documented of both, where the longest text has `k` bytes. -/
structure Lawful (inet : Inet n) (k : Nat) : Prop where
  nonempty : ∀ a, inet.ntop a ≠ []
  length_le : ∀ a, (inet.ntop a).length ≤ k
  zero_notMem : ∀ a, 0 ∉ inet.ntop a
  pton_ntop : ∀ a, inet.pton (inet.ntop a) = some a

/-- An address that is written and read as its bytes. A text that is not written is not read. -/
def ofBytes (write read : List Byte → List Byte) : Inet n where
  ntop a := write a.toList
  pton text :=
    if h : (read text).length = n ∧ write (read text) = text then some ⟨⟨read text⟩, h.1⟩ else none

theorem ofBytes_pton_ntop {write read : List Byte → List Byte}
    (h : ∀ bs, bs.length = n → read (write bs) = bs) (a : Vector Byte n) :
    (ofBytes write read).pton ((ofBytes write read).ntop a) = some a := by
  have hread : read (write a.toList) = a.toList := h _ a.length_toList
  simp only [ofBytes, hread]
  rw [dif_pos ⟨a.length_toList, trivial⟩]
  rfl

theorem ofBytes_lawful {b k m : Nat} (g : Glyphs Byte b) (sep : Byte) (hb : 1 < b) (hk : 0 < k)
    (hzero : sep ≠ 0 ∧ ∀ d < b, g.glyph d ≠ 0) (hsep : ∀ d < b, g.glyph d ≠ sep)
    {numbers : List Byte → List Nat} {bytes : List Nat → List Byte}
    (hnumbers : ∀ bs, bs.length = n → (numbers bs).length = m ∧ (∀ x ∈ numbers bs, x < b ^ k) ∧
      bytes (numbers bs) = bs) (hm : 0 < m) :
    Lawful (ofBytes (n := n) (fun bs => g.joined sep (numbers bs))
      fun text => bytes (g.values sep text)) (m * (k + 1) - 1) := by
  have hne : ∀ bs, bs.length = n → numbers bs ≠ [] := fun bs hbs =>
    List.ne_nil_of_length_pos ((hnumbers bs hbs).1 ▸ hm)
  refine ⟨fun a => ?_, fun a => ?_, fun a hmem => ?_, ofBytes_pton_ntop fun bs hbs => ?_⟩
  · exact Glyphs.joined_ne_nil hb (hne _ a.length_toList)
  · obtain ⟨hlength, hlt, -⟩ := hnumbers _ a.length_toList
    have hjoined : (g.joined sep (numbers a.toList)).length < _ :=
      Glyphs.length_joined_lt hb hk hlt (hne _ a.length_toList)
    rw [hlength] at hjoined
    exact Nat.le_sub_one_of_lt hjoined
  · obtain heq | ⟨d, hd, heq⟩ := Glyphs.mem_joined hb hmem
    · exact hzero.1 heq.symm
    · exact hzero.2 d hd heq.symm
  · rw [Glyphs.values_joined hb hsep (hne bs hbs), (hnumbers bs hbs).2.2]

section

open LogStream

def inetNumbers (bs : List Byte) : List Nat := bs.map UInt8.toNat

def inet4 : Inet 4 :=
  ofBytes (fun bs => decimal.joined 46 (inetNumbers bs))
    fun text => (decimal.values 46 text).map UInt8.ofNat

theorem inet4_lawful : inet4.Lawful 15 := by
  refine ofBytes_lawful (k := 3) (m := 4) decimal 46 (by decide) (by decide) (by decide) (by decide)
    (fun bs hbs => ?_) (by decide)
  refine ⟨by rwa [inetNumbers, List.length_map], fun x hx => ?_, ?_⟩
  · obtain ⟨c, -, rfl⟩ := List.mem_map.mp hx
    exact lt_trans c.toNat_lt (by decide)
  · rw [inetNumbers, List.map_map]
    exact (List.map_congr_left fun c _ => UInt8.ofNat_toNat).trans (List.map_id _)

def lowerHex : Glyphs Byte 16 where
  glyph d := .ofNat (if d < 10 then 48 + d else 87 + d)
  digit c := if c.toNat < 58 then c.toNat - 48 else c.toNat - 87
  digit_glyph := by decide

def inetGroups : List Byte → List Nat
  | high :: low :: bs => (high.toNat * 256 + low.toNat) :: inetGroups bs
  | _ => []

def groupBytes (x : Nat) : List Byte := [.ofNat (x / 256), .ofNat (x % 256)]

theorem inetGroups_eq {m : Nat} {bs : List Byte} (h : bs.length = 2 * m) :
    (inetGroups bs).length = m ∧ (∀ x ∈ inetGroups bs, x < 16 ^ 4) ∧
      (inetGroups bs).flatMap groupBytes = bs := by
  induction m generalizing bs with
  | zero =>
    cases List.length_eq_zero_iff.mp h
    exact ⟨rfl, by simp [inetGroups], rfl⟩
  | succ m ih =>
    obtain ⟨high, low, bs, rfl⟩ : ∃ high low bs', bs = high :: low :: bs' := by
      match bs, h with
      | high :: low :: bs, _ => exact ⟨high, low, bs, rfl⟩
    obtain ⟨hlength, hlt, hbytes⟩ := ih (Nat.add_right_cancel (m := 2) h)
    have hhigh := high.toNat_lt
    have hlow := low.toNat_lt
    refine ⟨by rw [inetGroups, List.length_cons, hlength], fun x hx => ?_, ?_⟩
    · obtain rfl | hx := List.mem_cons.mp hx
      · omega
      · exact hlt x hx
    · have hgroup : groupBytes (high.toNat * 256 + low.toNat) = [high, low] := by
        have hdiv : (high.toNat * 256 + low.toNat) / 256 = high.toNat := by omega
        have hmod : (high.toNat * 256 + low.toNat) % 256 = low.toNat := by omega
        rw [groupBytes, hdiv, hmod, UInt8.ofNat_toNat, UInt8.ofNat_toNat]
      rw [inetGroups, List.flatMap_cons, hgroup, hbytes]
      rfl

/-- Two bytes of an IPv6 address at a time are in hexadecimal. This is the text if no two of these
groups after each other are zero. -/
def inet6 : Inet 16 :=
  ofBytes (fun bs => lowerHex.joined 58 (inetGroups bs))
    fun text => (lowerHex.values 58 text).flatMap groupBytes

theorem inet6_lawful : inet6.Lawful 39 :=
  ofBytes_lawful (k := 4) (m := 8) lowerHex 58 (by decide) (by decide) (by decide) (by decide)
    (fun _ hbs => inetGroups_eq hbs) (by decide)

end

end Inet

end AcMuduo

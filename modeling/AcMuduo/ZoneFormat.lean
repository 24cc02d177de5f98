import AcMuduo.ZoneFile

namespace AcMuduo.TimeZone

open StateError

variable {s t : Reading} {bs : List UInt8} {n stack : Nat}

/-- The bytes are read, and the data stay as they are. -/
def Takes (bs : List UInt8) (s t : Reading) : Prop := s.rest = bs ++ t.rest ∧ t.data = s.data

namespace File

def encodeInt32 (x : Int32) : List UInt8 := BigEndian.bytes 4 x.toUInt32.toNat

@[simp] theorem length_encodeInt32 (x : Int32) : (encodeInt32 x).length = 4 :=
  BigEndian.length_bytes 4 _

theorem be32toh_encodeInt32 (x : Int32) : (be32toh (encodeInt32 x)).toInt32 = x := by
  have hlt : x.toUInt32.toNat < 256 ^ 4 := x.toUInt32.toNat_lt
  rw [be32toh, encodeInt32, BigEndian.value_bytes hlt, UInt32.ofNat_toNat, Int32.toInt32_toUInt32]

theorem encodeInt32_be32toh (h : bs.length = 4) : encodeInt32 (be32toh bs).toInt32 = bs := by
  have hlt := BigEndian.value_lt bs
  have hbytes := BigEndian.bytes_value bs
  rw [h] at hlt hbytes
  have hvalue : (be32toh bs).toNat = BigEndian.value bs := Nat.mod_eq_of_lt hlt
  rw [encodeInt32, UInt32.toUInt32_toInt32, hvalue, hbytes]

theorem fread_eq_ok {l : List UInt8} (hl : l.length = n) :
    fread n s = .ok l t ↔ Takes l s t := by
  obtain ⟨rest, data⟩ := s
  obtain ⟨rest', data'⟩ := t
  simp only [fread, Takes, EStateM.Result.ok.injEq, Reading.mk.injEq]
  constructor
  · rintro ⟨rfl, rfl, rfl⟩
    exact ⟨(List.take_append_drop n rest).symm, rfl⟩
  · rintro ⟨rfl, rfl⟩
    simp [← hl]

theorem readBytes_eq_ok {count : Int32} {l : List UInt8} :
    readBytes stack count s = .ok l t ↔
      l.length = count.toInt ∧ l.length ≤ stack ∧ Takes l s t := by
  simp only [readBytes, bind_eq_ok, check_eq_ok, pure_eq_ok, decide_eq_true_eq]
  constructor
  · rintro ⟨_, _, ⟨hpos, rfl⟩, _, _, ⟨hroom, rfl⟩, buf, u, hbuf, _, _, ⟨hlen, rfl⟩, rfl, rfl⟩
    exact ⟨hlen, by omega, (fread_eq_ok (by omega)).mp hbuf⟩
  · rintro ⟨hlen, hroom, htakes⟩
    exact ⟨(), s, ⟨by omega, rfl⟩, (), s, ⟨by omega, rfl⟩, l, t,
      (fread_eq_ok (by omega)).mpr htakes, (), t, ⟨hlen, rfl⟩, rfl, rfl⟩

theorem readBytes_overflow {count : Int32} (h : stack < count.toInt) :
    readBytes stack count s = .error (.fault .stackOverflow) s := by
  have hpos : check (ε := Exit) (decide (0 ≤ count.toInt)) (.fault .outOfBounds) s = .ok () s :=
    check_eq_ok.mpr ⟨decide_eq_true (by omega), rfl⟩
  rw [readBytes, bind_of_ok hpos]
  refine bind_of_error ?_
  rw [decide_eq_false (by omega)]
  rfl

theorem readInt32_eq_ok {x : Int32} : readInt32 s = .ok x t ↔ Takes (encodeInt32 x) s t := by
  simp only [readInt32, bind_eq_ok, check_eq_ok, pure_eq_ok, decide_eq_true_eq]
  constructor
  · rintro ⟨l, u, hl, _, _, ⟨hlen, rfl⟩, rfl, rfl⟩
    rw [encodeInt32_be32toh hlen]
    exact (fread_eq_ok hlen).mp hl
  · intro h
    exact ⟨_, t, (fread_eq_ok (by simp)).mpr h, (), t, ⟨by simp, rfl⟩, be32toh_encodeInt32 x, rfl⟩

theorem readUInt8_eq_ok {x : UInt8} : readUInt8 s = .ok x t ↔ Takes [x] s t := by
  simp only [readUInt8, bind_eq_ok]
  constructor
  · rintro ⟨l, u, hl, hx⟩
    split at hx
    · obtain ⟨rfl, rfl⟩ := pure_eq_ok.mp hx
      exact (fread_eq_ok rfl).mp hl
    · cases hx
  · intro h
    exact ⟨[x], t, (fread_eq_ok rfl).mpr h, rfl⟩

end File

open File

theorem takes_nil : Takes [] s t ↔ s = t := by
  obtain ⟨rest, data⟩ := s
  obtain ⟨rest', data'⟩ := t
  simp [Takes, eq_comm]

theorem takes_append {u : Reading} {cs : List UInt8} :
    Takes (bs ++ cs) s u ↔ ∃ t, Takes bs s t ∧ Takes cs t u := by
  constructor
  · rintro ⟨hrest, hdata⟩
    exact ⟨⟨cs ++ u.rest, s.data⟩, ⟨by simpa using hrest, rfl⟩, rfl, hdata⟩
  · rintro ⟨t, ⟨hrest, hdata⟩, hrest', hdata'⟩
    exact ⟨by simp [hrest, hrest'], hdata'.trans hdata⟩

theorem steps_takes {α : Type} {encode : α → List UInt8} {l : List α} :
    Steps (fun a => Takes (encode a)) l s t ↔ Takes (l.flatMap encode) s t := by
  induction l generalizing s with
  | nil => exact takes_nil.symm
  | cons a l ih => simp only [Steps, ih, List.flatMap_cons, takes_append]

theorem index_eq_ok {α : Type} {l : List α} {i : Nat} {a : α} :
    index l i s = .ok a t ↔ l[i]? = some a ∧ s = t := by
  cases h : l[i]? with
  | none =>
    simp only [index, h]
    exact iff_of_false (fun h => nomatch h) fun h => nomatch h.1
  | some b =>
    simp only [index, h]
    rw [pure_eq_ok, Option.some.injEq]

structure TypeRecord where
  gmtoff : Int32
  isdst : UInt8
  abbrind : UInt8

namespace TypeRecord

def encode (r : TypeRecord) : List UInt8 := encodeInt32 r.gmtoff ++ [r.isdst, r.abbrind]

def localtime (r : TypeRecord) : Localtime := ⟨r.gmtoff.toInt, r.isdst ≠ 0, r.abbrind.toNat⟩

end TypeRecord

theorem readLocaltime_eq_ok {v : Unit} : readLocaltime s = .ok v t ↔
    ∃ r : TypeRecord, Takes r.encode (s.addLocaltimes [r.localtime]) t := by
  simp only [readLocaltime, bind_eq_ok, readInt32_eq_ok, readUInt8_eq_ok]
  constructor
  · rintro ⟨gmtoff, t₁, ⟨h₁, hd₁⟩, isdst, t₂, ⟨h₂, hd₂⟩, abbrind, t₃, ⟨h₃, hd₃⟩, hok⟩
    cases hok
    refine ⟨⟨gmtoff, isdst, abbrind⟩, ?_, ?_⟩
    · simp [Reading.addLocaltimes, TypeRecord.encode, h₁, h₂, h₃]
    · simp [Reading.addLocaltimes, TypeRecord.localtime, hd₁, hd₂, hd₃]
  · rintro ⟨⟨gmtoff, isdst, abbrind⟩, hrest, hdata⟩
    obtain ⟨rest, data⟩ := t
    cases hdata
    refine ⟨gmtoff, ⟨isdst :: abbrind :: rest, s.data⟩, ⟨?_, rfl⟩, isdst,
      ⟨abbrind :: rest, s.data⟩, ⟨rfl, rfl⟩, abbrind, ⟨rest, s.data⟩, ⟨rfl, rfl⟩, rfl⟩
    simpa [Reading.addLocaltimes, TypeRecord.encode] using hrest

theorem readLocaltimes_eq_ok {l : List Unit} : repeatM n readLocaltime s = .ok l t ↔
    l.length = n ∧ ∃ rs : List TypeRecord, rs.length = n ∧
      Takes (rs.flatMap TypeRecord.encode)
        (s.addLocaltimes (rs.map TypeRecord.localtime)) t := by
  rw [repeatM_eq_ok fun v s t => readLocaltime_eq_ok]
  refine and_congr_right ?_
  rintro rfl
  induction l generalizing s with
  | nil => simp [Steps, takes_nil, Reading.addLocaltimes]
  | cons v l ih =>
    simp only [Steps, ih]
    constructor
    · rintro ⟨u, ⟨r, hrest, hdata⟩, rs, hlen, hrest', hdata'⟩
      refine ⟨r :: rs, by simp [hlen], ?_, ?_⟩
      · simp only [Reading.addLocaltimes_rest] at hrest hrest' ⊢
        simp [hrest, hrest']
      · simpa [Reading.addLocaltimes, hdata] using hdata'
    · rintro ⟨rs, hlen, hrest, hdata⟩
      cases rs with
      | nil => cases hlen
      | cons r rs =>
        exact ⟨⟨rs.flatMap TypeRecord.encode ++ t.rest, (s.addLocaltimes [r.localtime]).data⟩,
          ⟨r, by simpa using hrest, rfl⟩, rs, Nat.succ.inj hlen, rfl,
          by simpa [Reading.addLocaltimes] using hdata⟩

def joined (localtimes : List Localtime) (p : Int32 × UInt8) : Transition :=
  ⟨p.1.toInt, p.1.toInt + (localtimes[p.2.toNat]?).elim 0 Localtime.gmtOffset, p.2.toNat⟩

theorem pushTransition_eq_ok {trans : List Int32} {localtimes : List UInt8} {i : Nat} {v : Unit}
    {p : Int32 × UInt8} (htime : trans[i]? = some p.1) (hlocal : localtimes[i]? = some p.2) :
    pushTransition trans localtimes i s = .ok v t ↔ p.2.toNat < s.data.localtimes.length ∧
      s.addTransitions [joined s.data.localtimes p] = t := by
  simp only [pushTransition, bind_eq_ok, index_eq_ok, htime, hlocal, Option.some.injEq]
  constructor
  · rintro ⟨_, _, ⟨rfl, rfl⟩, _, _, ⟨rfl, rfl⟩, _, _, hget, l, _, ⟨hl, rfl⟩, hok⟩
    cases hget
    cases hok
    exact ⟨(List.getElem?_eq_some_iff.mp hl).1, by simp [joined, hl]⟩
  · rintro ⟨hlt, rfl⟩
    have hl := List.getElem?_eq_getElem hlt
    refine ⟨_, s, ⟨rfl, rfl⟩, _, s, ⟨rfl, rfl⟩, s, s, rfl, _, s, ⟨hl, rfl⟩, ?_⟩
    simp [joined, hl]
    rfl

theorem pushTransitions_eq_ok {pairs : List (Int32 × UInt8)} {v : Unit} (hn : n ≤ pairs.length) :
    forM (List.range n) (pushTransition (pairs.map Prod.fst) (pairs.map Prod.snd)) s = .ok v t ↔
      (∀ p ∈ pairs.take n, p.2.toNat < s.data.localtimes.length) ∧
      s.addTransitions ((pairs.take n).map (joined s.data.localtimes)) = t := by
  induction n generalizing t with
  | zero => simp [pure_eq_ok, Reading.addTransitions]
  | succ n ih =>
    have hp := List.getElem?_eq_getElem (Nat.lt_of_succ_le hn)
    have hlast : ∀ u, pushTransition (pairs.map Prod.fst) (pairs.map Prod.snd) n u = .ok v t ↔
        pairs[n].2.toNat < u.data.localtimes.length ∧
          u.addTransitions [joined u.data.localtimes pairs[n]] = t := by
      intro u
      exact pushTransition_eq_ok (by simp [hp]) (by simp [hp])
    have htake : pairs.take (n + 1) = pairs.take n ++ [pairs[n]] := by simp
    rw [List.range_succ, List.forM_append, htake]
    simp only [bind_eq_ok, ih (Nat.le_of_succ_le hn), List.forM_cons, List.forM_nil, pure_eq_ok]
    rw [List.forall_mem_append, List.forall_mem_singleton, List.map_append]
    constructor
    · rintro ⟨_, _, ⟨hpre, rfl⟩, _, _, hpush, -, rfl⟩
      obtain ⟨hlt, rfl⟩ := (hlast _).mp hpush
      exact ⟨⟨hpre, hlt⟩, by simp⟩
    · rintro ⟨⟨hpre, hlt⟩, rfl⟩
      exact ⟨(), _, ⟨hpre, rfl⟩, (), _, (hlast _).mpr ⟨hlt, by simp⟩, trivial, rfl⟩

def encodeHeader (version : UInt8) (reserved : List UInt8) (c : Counts) : List UInt8 :=
  magic ++ ([version] ++ (reserved ++ (encodeInt32 c.isgmtcnt ++ (encodeInt32 c.isstdcnt ++
    (encodeInt32 c.leapcnt ++ (encodeInt32 c.timecnt ++ (encodeInt32 c.typecnt ++
      encodeInt32 c.charcnt)))))))

theorem readHeader_eq_ok {c : Counts} : readHeader stack s = .ok c t ↔ 15 ≤ stack ∧
    ∃ version reserved, reserved.length = 15 ∧ Takes (encodeHeader version reserved c) s t := by
  simp only [readHeader, bind_eq_ok, check_eq_ok, pure_eq_ok, readBytes_eq_ok, readInt32_eq_ok,
    decide_eq_true_eq, encodeHeader, takes_append]
  constructor
  · rintro ⟨head, t₁, ⟨-, -, h₁⟩, _, _, ⟨rfl, rfl⟩, version, t₂, ⟨hversion, -, h₂⟩, reserved, t₃,
      ⟨hreserved, hroom, h₃⟩, isgmtcnt, t₄, h₄, isstdcnt, t₅, h₅, leapcnt, t₆, h₆, timecnt, t₇, h₇,
      typecnt, t₈, h₈, charcnt, t₉, h₉, rfl, rfl⟩
    obtain ⟨v, rfl⟩ := List.length_eq_one_iff.mp (Int.ofNat.inj hversion)
    have hlength : reserved.length = 15 := Int.ofNat.inj hreserved
    exact ⟨hlength ▸ hroom, v, reserved, hlength, t₁, h₁, t₂, h₂, t₃, h₃, t₄, h₄, t₅, h₅, t₆, h₆,
      t₇, h₇, t₈, h₈, h₉⟩
  · rintro ⟨hroom, v, reserved, hreserved, t₁, h₁, t₂, h₂, t₃, h₃, t₄, h₄, t₅, h₅, t₆, h₆, t₇, h₇,
      t₈, h₈, h₉⟩
    have hmagic : magic.length ≤ stack := (by decide : 4 ≤ 15).trans hroom
    have hversion : [v].length ≤ stack := (by decide : 1 ≤ 15).trans hroom
    exact ⟨magic, t₁, ⟨rfl, hmagic, h₁⟩, (), t₁, ⟨rfl, rfl⟩, [v], t₂, ⟨rfl, hversion, h₂⟩,
      reserved, t₃, ⟨congrArg Int.ofNat hreserved, hreserved ▸ hroom, h₃⟩, _, t₄, h₄, _, t₅, h₅, _,
      t₆, h₆, _, t₇, h₇, _, t₈, h₈, _, t, h₉, rfl, rfl⟩

theorem readHeader_overflow {c : Counts} {version : UInt8} {reserved : List UInt8}
    (hstack : stack < 15) (h : Takes (encodeHeader version reserved c) s t) :
    ∃ u, readHeader stack s = .error (.fault .stackOverflow) u := by
  simp only [encodeHeader, takes_append] at h
  obtain ⟨t₁, h₁, t₂, h₂, -⟩ := h
  by_cases hmagic : stack < 4
  · exact ⟨s, bind_of_error (readBytes_overflow (Int.ofNat_lt.mpr hmagic))⟩
  · have hhead : readBytes stack 4 s = .ok magic t₁ :=
      readBytes_eq_ok.mpr ⟨rfl, not_lt.mp hmagic, h₁⟩
    have hcheck : check (ε := Exit) (decide (magic = magic)) (.logicError "bad head") t₁ =
        .ok () t₁ := check_eq_ok.mpr ⟨rfl, rfl⟩
    have hversion : readBytes stack 1 t₁ = .ok [version] t₂ :=
      readBytes_eq_ok.mpr ⟨rfl, by simp; omega, h₂⟩
    refine ⟨t₂, ?_⟩
    rw [readHeader, bind_of_ok hhead, bind_of_ok hcheck, bind_of_ok hversion]
    exact bind_of_error (readBytes_overflow (Int.ofNat_lt.mpr hstack))

end AcMuduo.TimeZone

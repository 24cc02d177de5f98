import AcMuduo.ZoneFormat

namespace AcMuduo.TimeZone

open File StateError

variable {s t : Reading} {stack : Nat}

theorem readInt32s_eq_ok {n : Nat} {l : List Int32} : repeatM n readInt32 s = .ok l t ↔
    l.length = n ∧ Takes (l.flatMap encodeInt32) s t :=
  (repeatM_eq_ok fun _ _ _ => readInt32_eq_ok).trans (and_congr_right fun _ => steps_takes)

theorem readUInt8s_eq_ok {n : Nat} {l : List UInt8} : repeatM n readUInt8 s = .ok l t ↔
    l.length = n ∧ Takes l s t := by
  have hsteps : Steps (fun x => Takes [x]) l s t ↔ Takes (l.flatMap fun x => [x]) s t :=
    steps_takes
  rw [List.flatMap_singleton'] at hsteps
  exact (repeatM_eq_ok fun _ _ _ => readUInt8_eq_ok).trans (and_congr_right fun _ => hsteps)

def encodeTables (transitions : List (Int32 × UInt8)) (types : List TypeRecord)
    (abbreviation : List UInt8) : List UInt8 :=
  (transitions.map Prod.fst).flatMap encodeInt32 ++ (transitions.map Prod.snd ++
    (types.flatMap TypeRecord.encode ++ abbreviation))

def tablesData (transitions : List (Int32 × UInt8)) (types : List TypeRecord)
    (abbreviation : List UInt8) : Data where
  transitions := transitions.map (joined (types.map TypeRecord.localtime))
  localtimes := types.map TypeRecord.localtime
  abbreviation := abbreviation

/-- What is in the bytes that are read without an exception. -/
structure Tables (c : Counts) (transitions : List (Int32 × UInt8)) (types : List TypeRecord)
    (abbreviation : List UInt8) : Prop where
  timecnt : transitions.length = c.timecnt.toInt
  typecnt : types.length = rounds c.typecnt
  charcnt : abbreviation.length = c.charcnt.toInt
  index : ∀ p ∈ transitions, p.2.toNat < types.length

theorem readZone_of_tables {version : UInt8} {reserved : List UInt8} {c : Counts}
    {transitions : List (Int32 × UInt8)} {types : List TypeRecord} {abbreviation : List UInt8}
    (hroom : 15 ≤ stack) (hreserved : reserved.length = 15)
    (h : Tables c transitions types abbreviation) (after : List UInt8) :
    readZone stack ⟨encodeHeader version reserved c ++
        (encodeTables transitions types abbreviation ++ after), .empty⟩ =
      (readBytes stack c.charcnt >>= fun abbreviation => modify (·.setAbbreviation abbreviation))
        ⟨abbreviation ++ after, tablesData transitions types []⟩ := by
  have htimecnt := h.timecnt
  have hrounds : rounds c.timecnt = transitions.length := by
    rw [rounds, ← htimecnt, Int.toNat_natCast]
  have hheader : readHeader stack ⟨encodeHeader version reserved c ++
      (encodeTables transitions types abbreviation ++ after), .empty⟩ =
      .ok c ⟨encodeTables transitions types abbreviation ++ after, .empty⟩ :=
    readHeader_eq_ok.mpr ⟨hroom, version, reserved, hreserved, rfl, rfl⟩
  have hreserve : reserve c.timecnt ⟨encodeTables transitions types abbreviation ++ after, .empty⟩ =
      .ok () ⟨encodeTables transitions types abbreviation ++ after, .empty⟩ :=
    check_eq_ok.mpr ⟨decide_eq_true (by omega), rfl⟩
  have htimes : repeatM (rounds c.timecnt) readInt32
      ⟨encodeTables transitions types abbreviation ++ after, .empty⟩ =
      .ok (transitions.map Prod.fst) ⟨transitions.map Prod.snd ++
        (types.flatMap TypeRecord.encode ++ abbreviation) ++ after, .empty⟩ :=
    readInt32s_eq_ok.mpr ⟨by simp [hrounds], by simp [encodeTables], rfl⟩
  have hindices : repeatM (rounds c.timecnt) readUInt8 ⟨transitions.map Prod.snd ++
        (types.flatMap TypeRecord.encode ++ abbreviation) ++ after, .empty⟩ =
      .ok (transitions.map Prod.snd)
        ⟨types.flatMap TypeRecord.encode ++ abbreviation ++ after, .empty⟩ :=
    readUInt8s_eq_ok.mpr ⟨by simp [hrounds], by simp, rfl⟩
  have htypes : repeatM (rounds c.typecnt) readLocaltime
      ⟨types.flatMap TypeRecord.encode ++ abbreviation ++ after, .empty⟩ =
      .ok (types.map fun _ => ())
        ⟨abbreviation ++ after, ⟨[], types.map TypeRecord.localtime, []⟩⟩ :=
    readLocaltimes_eq_ok.mpr ⟨by simp [h.typecnt], types, h.typecnt, by simp, rfl⟩
  have hpush : forM (List.range (rounds c.timecnt))
      (pushTransition (transitions.map Prod.fst) (transitions.map Prod.snd))
      ⟨abbreviation ++ after, ⟨[], types.map TypeRecord.localtime, []⟩⟩ =
      .ok () ⟨abbreviation ++ after, tablesData transitions types []⟩ := by
    refine (pushTransitions_eq_ok hrounds.le).mpr ⟨fun p hp => ?_, ?_⟩
    · simpa using h.index p (List.mem_of_mem_take hp)
    · simp [Reading.addTransitions, hrounds, tablesData]
  rw [readZone, bind_of_ok hheader, bind_of_ok hreserve, bind_of_ok htimes, bind_of_ok hindices,
    bind_of_ok htypes, bind_of_ok hpush]

theorem tables_of_readZone {rest : List UInt8} {v : Unit}
    (h : readZone stack ⟨rest, .empty⟩ = .ok v t) : 15 ≤ stack ∧
    ∃ version reserved c transitions types abbreviation, reserved.length = 15 ∧
      abbreviation.length ≤ stack ∧ Tables c transitions types abbreviation ∧
      rest = encodeHeader version reserved c ++
        (encodeTables transitions types abbreviation ++ t.rest) ∧
      t.data = tablesData transitions types abbreviation := by
  simp only [readZone, bind_eq_ok] at h
  obtain ⟨c, s₁, hheader, _, _, hreserve, times, s₂, htimes, indices, s₃, hindices, _, s₄, htypes,
    _, s₅, hpush, abbreviation, s₆, habbreviation, hok⟩ := h
  obtain ⟨hroom, version, reserved, hreserved, hrest₁, hdata₁⟩ := readHeader_eq_ok.mp hheader
  obtain ⟨hcount, rfl⟩ := check_eq_ok.mp hreserve
  obtain ⟨hlength, hrest₂, hdata₂⟩ := readInt32s_eq_ok.mp htimes
  obtain ⟨hlength', hrest₃, hdata₃⟩ := readUInt8s_eq_ok.mp hindices
  obtain ⟨-, types, htypecnt, hrest₄, hdata₄⟩ := readLocaltimes_eq_ok.mp htypes
  obtain ⟨hcharcnt, hfits, hrest₆, hdata₆⟩ := readBytes_eq_ok.mp habbreviation
  cases hok
  -- The reader keeps the times and the indices in two lists.
  obtain ⟨transitions, rfl, rfl⟩ :
      ∃ l : List (Int32 × UInt8), l.map Prod.fst = times ∧ l.map Prod.snd = indices :=
    ⟨times.zip indices, List.map_fst_zip (by omega), List.map_snd_zip (by omega)⟩
  rw [List.length_map] at hlength
  obtain ⟨hindex, rfl⟩ := (pushTransitions_eq_ok hlength.ge).mp hpush
  have hlocaltimes : s₄.data = ⟨[], types.map TypeRecord.localtime, []⟩ := by
    simp [hdata₄, Reading.addLocaltimes, hdata₃, hdata₂, hdata₁, Data.empty]
  rw [List.take_of_length_le hlength.le, hlocaltimes] at hindex
  refine ⟨hroom, version, reserved, c, transitions, types, abbreviation, hreserved, hfits,
    ⟨?_, htypecnt, hcharcnt, by simpa using hindex⟩, ?_, ?_⟩
  · have hpos : 0 ≤ c.timecnt.toInt := of_decide_eq_true hcount
    rw [hlength, rounds]
    omega
  · simp only [Reading.addLocaltimes_rest, Reading.addTransitions_rest] at hrest₄ hrest₆
    refine hrest₁.trans ?_
    rw [hrest₂, hrest₃, hrest₄, hrest₆]
    simp [encodeTables, Reading.setAbbreviation]
  · simp [Reading.setAbbreviation, hdata₆, Reading.addTransitions, hlocaltimes, tablesData,
      List.take_of_length_le hlength.le]

structure Block where
  version : UInt8
  reserved : List UInt8
  isgmtcnt : Int32
  isstdcnt : Int32
  leapcnt : Int32
  transitions : List (Int32 × UInt8)
  types : List TypeRecord
  abbreviation : List UInt8
  reserved_length : reserved.length = 15
  transitions_length : transitions.length < 2 ^ 31
  types_length : types.length < 2 ^ 31
  abbreviation_length : abbreviation.length < 2 ^ 31
  index : ∀ p ∈ transitions, p.2.toNat < types.length

namespace Block

def counts (b : Block) : Counts where
  isgmtcnt := b.isgmtcnt
  isstdcnt := b.isstdcnt
  leapcnt := b.leapcnt
  timecnt := Int32.ofNat b.transitions.length
  typecnt := Int32.ofNat b.types.length
  charcnt := Int32.ofNat b.abbreviation.length

def encode (b : Block) : List UInt8 :=
  encodeHeader b.version b.reserved b.counts ++
    encodeTables b.transitions b.types b.abbreviation

def data (b : Block) : Data := tablesData b.transitions b.types b.abbreviation

/-- The stack has room for the arrays into which the bytes of the block are read. -/
def fits (b : Block) (stack : Nat) : Prop := 15 ≤ stack ∧ b.abbreviation.length ≤ stack

theorem tables (b : Block) : Tables b.counts b.transitions b.types b.abbreviation where
  timecnt := (Int32.toInt_ofNat_of_lt b.transitions_length).symm
  typecnt := by
    rw [rounds, counts, Int32.toInt_ofNat_of_lt b.types_length, Int.toNat_natCast]
  charcnt := (Int32.toInt_ofNat_of_lt b.abbreviation_length).symm
  index := b.index

end Block

theorem count_eq {count : Int32} {n : Nat} (h : n = count.toInt) :
    count = Int32.ofNat n ∧ n < 2 ^ 31 := by
  have hlt : n < 2 ^ 31 := by
    have := count.toInt_lt
    omega
  exact ⟨Int32.toInt_inj.mp (h.symm.trans (Int32.toInt_ofNat_of_lt hlt).symm), hlt⟩

theorem exists_block {rest : List UInt8} {v : Unit}
    (h : readZone stack ⟨rest, .empty⟩ = .ok v t) (htypes : t.data.localtimes ≠ []) :
    ∃ b : Block, b.fits stack ∧ rest = b.encode ++ t.rest ∧ t.data = b.data := by
  obtain ⟨hroom, version, reserved, c, transitions, types, abbreviation, hreserved, hfits,
    ⟨htime, htype, hchar, hindex⟩, hrest, hdata⟩ := tables_of_readZone h
  have htype : types.length = c.typecnt.toInt := by
    have hpos : 0 < types.length := by
      apply List.length_pos_iff.mpr
      rintro rfl
      exact htypes (by simp [hdata, tablesData])
    rw [rounds] at htype
    omega
  obtain ⟨isgmtcnt, isstdcnt, leapcnt, timecnt, typecnt, charcnt⟩ := c
  obtain ⟨rfl, htransitions⟩ := count_eq htime
  obtain ⟨rfl, htypes⟩ := count_eq htype
  obtain ⟨rfl, habbreviation⟩ := count_eq hchar
  refine ⟨⟨version, reserved, isgmtcnt, isstdcnt, leapcnt, transitions, types, abbreviation,
    hreserved, htransitions, htypes, habbreviation, hindex⟩, ⟨hroom, hfits⟩, ?_, hdata⟩
  rw [hrest, Block.encode, List.append_assoc]
  rfl

namespace Block

variable (b : Block) (after : List UInt8)

theorem readZone_encode (h : b.fits stack) :
    readZone stack ⟨b.encode ++ after, .empty⟩ = .ok () ⟨after, b.data⟩ := by
  have hread : readBytes stack b.counts.charcnt
      ⟨b.abbreviation ++ after, tablesData b.transitions b.types []⟩ =
      .ok b.abbreviation ⟨after, tablesData b.transitions b.types []⟩ :=
    readBytes_eq_ok.mpr ⟨b.tables.charcnt, h.2, rfl, rfl⟩
  rw [encode, List.append_assoc, readZone_of_tables h.1 b.reserved_length b.tables,
    bind_of_ok hread]
  rfl

theorem readZone_overflow (h : ¬ b.fits stack) :
    ∃ u, readZone stack ⟨b.encode ++ after, .empty⟩ = .error (.fault .stackOverflow) u := by
  rw [encode, List.append_assoc]
  by_cases hroom : 15 ≤ stack
  · have hlength : (stack : Int) < b.counts.charcnt.toInt := by
      rw [← b.tables.charcnt]
      exact Int.ofNat_lt.mpr (not_le.mp fun hle => h ⟨hroom, hle⟩)
    rw [readZone_of_tables hroom b.reserved_length b.tables]
    exact ⟨_, bind_of_error (readBytes_overflow hlength)⟩
  · obtain ⟨u, hu⟩ := readHeader_overflow (s := ⟨_, .empty⟩) (t := ⟨_, .empty⟩) (not_le.mp hroom)
      ⟨rfl, rfl⟩
    exact ⟨u, bind_of_error hu⟩

theorem readTimeZoneFile_overflow (h : ¬ b.fits stack) :
    readTimeZoneFile stack (some (b.encode ++ after)) .empty =
      .error (.fault .stackOverflow) := by
  obtain ⟨u, hu⟩ := b.readZone_overflow after h
  simp only [readTimeZoneFile, hu]

end Block

/-- The reader recovers the block from its encoding exactly if the stack has room for it. -/
theorem read_time_zone_file_encode_iff (stack : Nat) (b : Block) (after : List UInt8) :
    readTimeZoneFile stack (some (b.encode ++ after)) .empty = .ok (true, b.data) ↔
      15 ≤ stack ∧ b.abbreviation.length ≤ stack := by
  by_cases h : b.fits stack
  · refine iff_of_true ?_ h
    simp only [readTimeZoneFile, b.readZone_encode after h]
  · refine iff_of_false ?_ h
    rw [b.readTimeZoneFile_overflow after h]
    exact nofun

def longNames : Block where
  version := 0
  reserved := List.replicate 15 0
  isgmtcnt := 0
  isstdcnt := 0
  leapcnt := 0
  transitions := []
  types := [⟨0, 0, 0⟩]
  abbreviation := List.replicate 20000000 65
  reserved_length := List.length_replicate
  transitions_length := by decide
  types_length := by decide
  abbreviation_length := by
    rw [List.length_replicate]
    decide
  index := nofun

theorem read_time_zone_file_longNames :
    ¬ ∀ (b : Block) (after : List UInt8), b.types ≠ [] → b.types.length ≤ 256 →
      b.abbreviation ≠ [] →
      readTimeZoneFile (8 * 1024 * 1024) (some (b.encode ++ after)) .empty =
        .ok (true, b.data) := by
  intro h
  have hlength : longNames.abbreviation.length = 20000000 := List.length_replicate
  have hne : longNames.abbreviation ≠ [] := by
    rw [← List.length_pos_iff, hlength]
    decide
  have hfits : ¬ longNames.fits (8 * 1024 * 1024) := by
    rw [Block.fits, hlength]
    decide
  have hread := h longNames [] (List.cons_ne_nil _ _) (by decide) hne
  rw [longNames.readTimeZoneFile_overflow [] hfits] at hread
  cases hread

end AcMuduo.TimeZone

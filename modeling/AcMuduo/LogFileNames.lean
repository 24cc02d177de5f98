import AcMuduo.FixedWidth
import AcMuduo.LogFileRolls

namespace AcMuduo

open LogStream Calendar TimeZone

theorem decimal_ordered : decimal.Ordered := by
  rw [Glyphs.Ordered]
  decide

theorem padded_eq_fixed (k n : Nat) : padded 48 k (convert n) = decimal.fixed k n := by
  rw [padded, convert_natCast]
  rfl

theorem padded_append_lt {k : Nat} (hk : 0 < k) {x y : Int} (hx : 0 ≤ x ∧ x < (10 ^ k : Nat))
    (hy : 0 ≤ y ∧ y < (10 ^ k : Nat)) {s t : List Byte} (h : x < y ∨ x = y ∧ s < t) :
    padded 48 k (convert x) ++ s < padded 48 k (convert y) ++ t := by
  obtain ⟨hx, hx'⟩ := hx
  obtain ⟨hy, hy'⟩ := hy
  lift x to Nat using hx
  lift y to Nat using hy
  rw [padded_eq_fixed, padded_eq_fixed]
  exact Glyphs.fixed_append_lt decimal_ordered (by decide) hk (by exact_mod_cast hx')
    (by exact_mod_cast hy') (h.imp Nat.cast_lt.mp fun h => ⟨Nat.cast_inj.mp h.1, h.2⟩)

theorem padded_eq_filled (pad : Byte) (k n : Nat) :
    padded pad k (convert n) = decimal.filled pad k n := by
  rw [padded, convert_natCast]
  rfl

theorem spaced_append_lt {k : Nat} (hk : 0 < k) {x y : Int} (hx : 0 ≤ x ∧ x < (10 ^ k : Nat))
    (hy : 0 ≤ y ∧ y < (10 ^ k : Nat)) {s t : List Byte} (h : x < y ∨ x = y ∧ s < t) :
    padded 32 k (convert x) ++ s < padded 32 k (convert y) ++ t := by
  obtain ⟨hx, hx'⟩ := hx
  obtain ⟨hy, hy'⟩ := hy
  lift x to Nat using hx
  lift y to Nat using hy
  have hxk : x < 10 ^ k := by exact_mod_cast hx'
  have hyk : y < 10 ^ k := by exact_mod_cast hy'
  rw [padded_eq_filled, padded_eq_filled]
  obtain hlt | ⟨heq, hlt⟩ := h
  · apply append_lt_append
    · rw [Glyphs.length_filled (by decide) 32 hk hxk, Glyphs.length_filled (by decide) 32 hk hyk]
    · exact Glyphs.filled_lt decimal_ordered (by decide) (by decide) hk hyk (Nat.cast_lt.mp hlt)
  · rw [Nat.cast_inj.mp heq]
    exact List.append_left_lt hlt

def Tm.Before (tm tm' : Tm) : Prop :=
  tm.year < tm'.year ∨ tm.year = tm'.year ∧ (tm.mon < tm'.mon ∨ tm.mon = tm'.mon ∧
    (tm.mday < tm'.mday ∨ tm.mday = tm'.mday ∧ (tm.hour < tm'.hour ∨ tm.hour = tm'.hour ∧
      (tm.min < tm'.min ∨ tm.min = tm'.min ∧ tm.sec < tm'.sec))))

theorem gmtime_before {s t : Int} (h : s < t) : (gmtime s).Before (gmtime t) := by
  by_cases hday : s / 86400 = t / 86400
  · have hrest : s % 86400 < t % 86400 := by omega
    simp only [Tm.Before, gmtime, hday]
    refine .inr ⟨trivial, .inr ⟨trivial, .inr ⟨trivial, ?_⟩⟩⟩
    omega
  · obtain ⟨hs, hs'⟩ := ofJulianDay_spec (s / 86400 + epochDay)
    obtain ⟨ht, ht'⟩ := ofJulianDay_spec (t / 86400 + epochDay)
    have hdate : (date (gmtime s)).Before (date (gmtime t)) := by
      rw [date_gmtime, date_gmtime, ← julianDay_lt_iff hs ht, hs', ht']
      omega
    simp only [Date.Before, date] at hdate
    simp only [Tm.Before]
    omega

namespace LogFile

open Machine

theorem timebuf_lt {tm tm' : Tm} (h : Fits tm) (h' : Fits tm') (hbefore : tm.Before tm')
    (s t : List Byte) : timebuf tm ++ s < timebuf tm' ++ t := by
  simp only [timebuf, List.append_assoc]
  apply List.append_left_lt
  apply padded_append_lt (by decide) h.year h'.year
  obtain hyear | ⟨hyear, hmon | ⟨hmon, hday⟩⟩ := hbefore
  · exact .inl (by omega)
  · refine .inr ⟨by omega, ?_⟩
    exact padded_append_lt (by decide) h.mon h'.mon (.inl (by omega))
  refine .inr ⟨by omega, ?_⟩
  apply padded_append_lt (by decide) h.mon h'.mon
  refine .inr ⟨by omega, ?_⟩
  apply padded_append_lt (by decide) h.mday h'.mday
  obtain hday | ⟨hday, hclock⟩ := hday
  · exact .inl hday
  refine .inr ⟨hday, List.append_left_lt ?_⟩
  apply padded_append_lt (by decide) h.hour h'.hour
  obtain hhour | ⟨hhour, hmin⟩ := hclock
  · exact .inl hhour
  refine .inr ⟨hhour, padded_append_lt (by decide) h.min h'.min ?_⟩
  obtain hmin | ⟨hmin, hsec⟩ := hmin
  · exact .inl hmin
  exact .inr ⟨hmin, padded_append_lt (by decide) h.sec h'.sec (.inl hsec)⟩

/-- The name of a later file is larger, whatever the hosts and the processes are called. -/
theorem getLogFilename_lt {basename : List Byte} {r r' : Reading} (h : r.Valid) (h' : r'.Valid)
    (hnow : r.now < r'.now) : getLogFilename basename r < getLogFilename basename r' := by
  simp only [getLogFilename, List.append_assoc]
  exact List.append_left_lt (timebuf_lt (gmtime_fits h) (gmtime_fits h') (gmtime_before hnow) _ _)

variable {cfg : Config} {s t : State} {r : Reading}

/-- The names of the files are in order, and the last one is that of the last roll. -/
structure Sorted (cfg : Config) (s : State) : Prop where
  named : Named cfg s
  sorted : (opened s).Pairwise (· < ·)

theorem Sorted.roll (h : Sorted cfg s) (hr : r.Valid) (hroll : RollMove cfg s r t) :
    Sorted cfg t := by
  refine ⟨(roll_named h.named hr hroll).1, ?_⟩
  cases hroll with
  | refused => exact h.sorted
  | rolled hnow =>
    rw [opened, List.filterMap_append, List.pairwise_append]
    refine ⟨h.sorted, List.pairwise_singleton _ _, fun name hname name' hname' => ?_⟩
    obtain ⟨r', hr', hle, rfl⟩ := h.named.named name hname
    have heq : name' = getLogFilename cfg.basename r := by simpa [Call.name] using hname'
    rw [heq]
    exact getLogFilename_lt hr' hr (by omega)

theorem Sorted.of_same (h : Sorted cfg s) (hsame : Same s t) : Sorted cfg t := by
  refine ⟨h.named.of_same hsame, ?_⟩
  rw [hsame.1]
  exact h.sorted

theorem Sorted.append (h : Sorted cfg s) (hr : r.Valid) {len : Nat} {now : Int}
    (hmove : AppendMove cfg s len now r t) : Sorted cfg t := by
  cases hmove with
  | @hits written _ hfile hsize hroll => exact (h.of_same (same_write s written len)).roll hr hroll
  | @otherDay written _ hfile hsize hcount hday hroll =>
    have hsame : Same s { write s written len with count := 0 } := same_write s written len
    exact (h.of_same hsame).roll hr hroll
  | @counts written =>
    have hsame : Same s { write s written len with count := s.count + 1 } :=
      same_write s written len
    exact h.of_same hsame
  | @checks written =>
    have hsame : Same s { write s written len with count := 0 } := same_write s written len
    exact h.of_same hsame
  | @flushes written =>
    exact h.of_same ((same_write s written len).trans (same_flush (write s written len) 0 now))

theorem Sorted.of_step (h : Sorted cfg s) {e : Event} (he : e.Valid)
    (ht : step cfg s e = .ok t) : Sorted cfg t := by
  cases e with
  | append len now r => exact h.append he (append_move ht)
  | flush =>
    simp only [step, flush] at ht
    split at ht
    · cases ht
    · cases ht
      exact h.of_same (same_flush s s.count s.lastFlush)
  | rollFile r =>
    cases ht
    exact h.roll he (rollFile_move cfg s r)

/-- Read in the order of their names, the files of a log are in the order in which they were
opened. -/
theorem names_increase {es : List Event} (hr : r.Valid) (hes : ∀ e ∈ es, e.Valid)
    (hs : run (step cfg) (init cfg r) es = .ok s) :
    (opened s).Pairwise (· < ·) := by
  obtain ⟨hnamed, hopened, -⟩ := init_named cfg hr
  have hinit : Sorted cfg (init cfg r) :=
    ⟨hnamed, by rw [hopened]; exact List.pairwise_singleton _ _⟩
  have hstep : ∀ s e t, Sorted cfg s → e.Valid → step cfg s e = .ok t → Sorted cfg t :=
    fun _ _ _ h he ht => h.of_step he ht
  exact (run_invariant_of hstep hinit (throughout_of_forall hes) hs).sorted

theorem names_increase_newYear : ∃ s, run (step app) (init app ⟨1700000000, bytes "host", 42⟩)
    [.append 20 1704067199 ⟨1704067199, bytes "host", 42⟩,
      .append 20 1704067200 ⟨1704067200, bytes "host", 42⟩] = .ok s ∧
    (opened s).length = 3 ∧ (opened s).Pairwise (· < ·) := by
  have hs : run (step app) (init app ⟨1700000000, bytes "host", 42⟩)
    [.append 20 1704067199 ⟨1704067199, bytes "host", 42⟩,
      .append 20 1704067200 ⟨1704067200, bytes "host", 42⟩] = .ok _ := rfl
  refine ⟨_, hs, rfl, names_increase ⟨by decide, by decide⟩ (fun e he => ?_) hs⟩
  simp only [List.mem_cons, List.not_mem_nil, or_false] at he
  rcases he with rfl | rfl <;> exact ⟨by decide, by decide⟩

end LogFile

end AcMuduo

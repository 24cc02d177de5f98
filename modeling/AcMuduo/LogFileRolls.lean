import AcMuduo.IntegerText
import AcMuduo.LogFile
import AcMuduo.LogRecord
import AcMuduo.UtcTime

namespace AcMuduo.LogFile

open Machine LogStream Calendar TimeZone

def digitsValue (text : List Byte) : Nat :=
  Nat.ofDigits 10 (text.reverse.map fun b => b.toNat - 48)

theorem digitsValue_padded (k n : Nat) : digitsValue (padded 48 k (convert n)) = n := by
  have hvalue : ∀ text, digitsValue text = decimal.value text := fun _ => rfl
  rw [hvalue, padded, Glyphs.value_leading_zeros (by decide), convert_natCast,
    Glyphs.value_written (by decide)]

theorem padded_inj {k : Nat} {x y : Int} (hx : 0 ≤ x) (hy : 0 ≤ y)
    (h : padded 48 k (convert x) = padded 48 k (convert y)) : x = y := by
  lift x to Nat using hx
  lift y to Nat using hy
  rw [← digitsValue_padded k x, h, digitsValue_padded]

theorem padded_length {k : Nat} {x : Int} (hk : 0 < k) (hx : 0 ≤ x) (hlt : x < (10 ^ k : Nat)) :
    (padded 48 k (convert x)).length = k := by
  lift x to Nat using hx
  rw [Logger.length_padded, max_eq_left]
  exact convert_natCast_length_le hk (by exact_mod_cast hlt)

structure Fits (tm : Tm) : Prop where
  year : 0 ≤ tm.year + 1900 ∧ tm.year + 1900 < 10000
  mon : 0 ≤ tm.mon + 1 ∧ tm.mon + 1 < 100
  mday : 0 ≤ tm.mday ∧ tm.mday < 100
  hour : 0 ≤ tm.hour ∧ tm.hour < 100
  min : 0 ≤ tm.min ∧ tm.min < 100
  sec : 0 ≤ tm.sec ∧ tm.sec < 100

theorem Fits.timebuf_length {tm : Tm} (h : Fits tm) : (timebuf tm).length = 17 := by
  rw [timebuf]
  simp only [List.length_append]
  rw [padded_length (by decide) h.year.1 h.year.2, padded_length (by decide) h.mon.1 h.mon.2,
    padded_length (by decide) h.mday.1 h.mday.2, padded_length (by decide) h.hour.1 h.hour.2,
    padded_length (by decide) h.min.1 h.min.2, padded_length (by decide) h.sec.1 h.sec.2]
  rfl

theorem field_inj {s t : List Byte} {x y : Int} (hx : 0 ≤ x ∧ x < 100) (hy : 0 ≤ y ∧ y < 100)
    (h : s ++ padded 48 2 (convert x) = t ++ padded 48 2 (convert y)) : s = t ∧ x = y := by
  have hlength : (padded 48 2 (convert x)).length = (padded 48 2 (convert y)).length := by
    rw [padded_length (by decide) hx.1 hx.2, padded_length (by decide) hy.1 hy.2]
  obtain ⟨hs, hfield⟩ := List.append_inj' h hlength
  exact ⟨hs, padded_inj hx.1 hy.1 hfield⟩

theorem Fits.timegm_eq {tm tm' : Tm} (h : Fits tm) (h' : Fits tm')
    (heq : timebuf tm = timebuf tm') : timegm tm = timegm tm' := by
  have hsec := List.append_cancel_right heq
  obtain ⟨hmin, hsec⟩ := field_inj h.sec h'.sec hsec
  obtain ⟨hhour, hmin⟩ := field_inj h.min h'.min hmin
  obtain ⟨hdash, hhour⟩ := field_inj h.hour h'.hour hhour
  obtain ⟨hmon, hmday⟩ := field_inj h.mday h'.mday (List.append_cancel_right hdash)
  obtain ⟨hyear, hmon⟩ := field_inj h.mon h'.mon hmon
  have hyear := padded_inj h.year.1 h'.year.1 (List.append_cancel_left hyear)
  have hmon' : tm.mon = tm'.mon := by omega
  simp only [timegm, hyear, hmon', hmday, hhour, hmin, hsec]

/-- The clock is positive and before the year 10000. -/
def Reading.Valid (r : Reading) : Prop := 0 < r.now ∧ r.now < 253402300800

example : (gmtime 253402300800).year + 1900 = 10000 := by decide

variable {r r' : Reading}

theorem gmtime_fits (h : r.Valid) : Fits (gmtime r.now) := by
  obtain ⟨hpos, hlt⟩ := h
  obtain ⟨hvalid, hday⟩ := ofJulianDay_spec (r.now / 86400 + epochDay)
  rw [← date_gmtime] at hvalid hday
  have hepoch : epochDay = 2440588 := rfl
  have hclock := gmtime_onClock r.now
  simp only [OnClock] at hclock
  have hfirst : ¬ (date (gmtime r.now)).Before ⟨1970, 1, 1⟩ := by
    rw [← julianDay_lt_iff hvalid (by decide), hday,
      show julianDay ⟨1970, 1, 1⟩ = 2440588 by decide]
    omega
  have hlast : (date (gmtime r.now)).Before ⟨10000, 1, 1⟩ := by
    rw [← julianDay_lt_iff hvalid (by decide), hday,
      show julianDay ⟨10000, 1, 1⟩ = 5373485 by decide]
    omega
  have hmonth := hvalid.month_pos
  have hmonth' := hvalid.month_le
  have hday_pos := hvalid.day_pos
  have hday_le := hvalid.day_le.trans (monthLength_le _ _)
  simp only [Date.Before, date] at hfirst hlast hmonth hmonth' hday_pos hday_le
  constructor <;> omega

theorem getLogFilename_inj {basename : List Byte} (h : r.Valid) (h' : r'.Valid)
    (heq : getLogFilename basename r = getLogFilename basename r') : r.now = r'.now := by
  have hfits := gmtime_fits h
  have hfits' := gmtime_fits h'
  simp only [getLogFilename, List.append_assoc, List.append_cancel_left_eq] at heq
  obtain ⟨htime, -⟩ := List.append_inj heq (by rw [hfits.timebuf_length, hfits'.timebuf_length])
  have hsame := hfits.timegm_eq hfits' htime
  have hback : ∀ seconds, timegm (gmtime seconds) = seconds := fun seconds =>
    timegm_gmtime seconds 0 0 [71, 77, 84]
  rwa [hback, hback] at hsame

def Call.name : Call → Option (List Byte)
  | openFile name => some name
  | _ => none

def opened (s : State) : List (List Byte) := s.calls.filterMap Call.name

def Event.Valid : Event → Prop
  | .append _ _ r | .rollFile r => r.Valid
  | .flush => True

def AttemptsRoll (cfg : Config) (s : State) (len : Nat) (now : Int) : Prop :=
  ∃ written, s.file = some written ∧ (cfg.rollSize < written + len ∨
    cfg.checkEveryN ≤ (s.count + 1 : Nat) ∧ period now ≠ s.startOfPeriod)

def Same (s t : State) : Prop :=
  opened t = opened s ∧ t.lastRoll = s.lastRoll ∧ t.startOfPeriod = s.startOfPeriod

def RollsForward (s t : State) : Prop :=
  Same s t ∨ ∃ name, opened t = opened s ++ [name] ∧ s.lastRoll < t.lastRoll

def WithinLimit (cfg : Config) (t : State) : Prop :=
  ∃ written, t.file = some written ∧ written ≤ cfg.rollSize

/-- The names of the files are those of different times up to the last roll. -/
structure Named (cfg : Config) (s : State) : Prop where
  period_eq : s.startOfPeriod = s.lastRoll / kRollPreSeconds * kRollPreSeconds
  nodup : (opened s).Nodup
  named : ∀ name ∈ opened s, ∃ r : Reading, r.Valid ∧ r.now ≤ s.lastRoll ∧
    name = getLogFilename cfg.basename r

variable {cfg : Config} {s t u : State} {len : Nat} {now written : Int}

theorem Same.trans (h : Same s t) (h' : Same t u) : Same s u :=
  ⟨h'.1.trans h.1, h'.2.1.trans h.2.1, h'.2.2.trans h.2.2⟩

theorem Named.of_same (h : Named cfg s) (hsame : Same s t) : Named cfg t := by
  obtain ⟨hopened, hroll, hperiod⟩ := hsame
  constructor
  · rw [hperiod, hroll, h.period_eq]
  · rw [hopened]
    exact h.nodup
  · rw [hopened, hroll]
    exact h.named

theorem RollsForward.of_same (h : RollsForward t u) (hsame : Same s t) : RollsForward s u := by
  cases h with
  | inl h => exact .inl (hsame.trans h)
  | inr h =>
    rw [hsame.1, hsame.2.1] at h
    exact .inr h

theorem same_write (s : State) (written : Int) (len : Nat) : Same s (write s written len) := by
  refine ⟨?_, rfl, rfl⟩
  rw [opened, write_calls, List.filterMap_append]
  exact List.append_nil _

theorem same_flush (s : State) (count : Nat) (lastFlush : Int) : Same s { s with
    count := count, lastFlush := lastFlush, calls := s.calls ++ [.flush] } := by
  refine ⟨?_, rfl, rfl⟩
  rw [opened, List.filterMap_append]
  exact List.append_nil _

theorem roll_named (h : Named cfg s) (hr : r.Valid) (hroll : RollMove cfg s r t) :
    Named cfg t ∧ RollsForward s t := by
  cases hroll with
  | refused hnow => exact ⟨h, .inl ⟨rfl, rfl, rfl⟩⟩
  | rolled hnow =>
    have hopened : ∀ calls : List Call,
        (calls ++ [Call.openFile (getLogFilename cfg.basename r)]).filterMap Call.name =
          calls.filterMap Call.name ++ [getLogFilename cfg.basename r] := fun calls => by
      rw [List.filterMap_append]
      rfl
    refine ⟨⟨period_eq hr.1.le, ?_, ?_⟩, .inr ⟨_, hopened _, hnow⟩⟩
    · rw [opened, hopened, List.nodup_append]
      refine ⟨h.nodup, List.nodup_singleton _, fun name hname name' hname' heq => ?_⟩
      obtain ⟨r', hr', hle, rfl⟩ := h.named name hname
      rw [List.mem_singleton] at hname'
      have hsame := getLogFilename_inj hr' hr (heq.trans hname')
      omega
    · intro name hname
      rw [opened, hopened, List.mem_append, List.mem_singleton] at hname
      cases hname with
      | inl hold =>
        obtain ⟨r', hr', hle, heq⟩ := h.named name hold
        exact ⟨r', hr', hle.trans hnow.le, heq⟩
      | inr hnew => exact ⟨r, hr, le_rfl, hnew⟩

theorem roll_hasFile (h : s.file = some written) (hroll : RollMove cfg s r t) :
    ∃ written, t.file = some written := by
  cases hroll with
  | refused => exact ⟨written, h⟩
  | rolled => exact ⟨0, rfl⟩

theorem append_named (h : Named cfg s) (hr : r.Valid) (hmove : AppendMove cfg s len now r t) :
    Named cfg t ∧ RollsForward s t ∧ ∃ written, t.file = some written := by
  cases hmove with
  | @hits written _ hfile hsize hroll =>
    have hsame := same_write s written len
    obtain ⟨hnamed, hforward⟩ := roll_named (h.of_same hsame) hr hroll
    exact ⟨hnamed, hforward.of_same hsame, roll_hasFile rfl hroll⟩
  | @otherDay written _ hfile hsize hcount hday hroll =>
    have hsame : Same s { write s written len with count := 0 } := same_write s written len
    obtain ⟨hnamed, hforward⟩ := roll_named (h.of_same hsame) hr hroll
    exact ⟨hnamed, hforward.of_same hsame, roll_hasFile rfl hroll⟩
  | @counts written =>
    have hsame : Same s { write s written len with count := s.count + 1 } :=
      same_write s written len
    exact ⟨h.of_same hsame, .inl hsame, _, rfl⟩
  | @checks written =>
    have hsame : Same s { write s written len with count := 0 } := same_write s written len
    exact ⟨h.of_same hsame, .inl hsame, _, rfl⟩
  | @flushes written =>
    have hsame := (same_write s written len).trans (same_flush (write s written len) 0 now)
    exact ⟨h.of_same hsame, .inl hsame, _, rfl⟩

theorem append_within (hsize : 0 ≤ cfg.rollSize) (hmove : AppendMove cfg s len now r t)
    (hlater : AttemptsRoll cfg s len now → s.lastRoll < r.now) : WithinLimit cfg t := by
  cases hmove with
  | hits hfile hlarge hroll =>
    have hnow := hlater ⟨_, hfile, .inl hlarge⟩
    cases hroll with
    | refused hle => exact absurd hnow (not_lt.mpr hle)
    | rolled => exact ⟨0, rfl, hsize⟩
  | otherDay hfile hle hcount hday hroll =>
    cases hroll with
    | refused => exact ⟨_, rfl, hle⟩
    | rolled => exact ⟨0, rfl, hsize⟩
  | counts hfile hle | checks hfile hle | flushes hfile hle => exact ⟨_, rfl, hle⟩

theorem init_named (cfg : Config) (hr : r.Valid) : Named cfg (init cfg r) ∧
    opened (init cfg r) = [getLogFilename cfg.basename r] ∧ (init cfg r).file = some 0 := by
  have hempty : Named cfg ⟨0, none, 0, 0, 0, []⟩ :=
    ⟨rfl, List.nodup_nil, fun name hname => absurd hname (List.not_mem_nil)⟩
  have hinit : init cfg r = _ := congrArg Prod.fst (if_pos hr.1)
  refine ⟨(roll_named hempty hr (rollFile_move cfg _ r)).1, ?_, ?_⟩
  · rw [hinit]
    rfl
  · rw [hinit]

theorem step_named {e : Event} (h : Named cfg s) (hfile : s.file = some written) (he : e.Valid) :
    ∃ t, step cfg s e = .ok t ∧ Named cfg t ∧ RollsForward s t ∧
      ∃ written, t.file = some written := by
  cases e with
  | append len now r =>
    obtain ⟨t, ht, hmove⟩ := append_total cfg hfile len now r
    exact ⟨t, ht, append_named h he hmove⟩
  | flush =>
    have hsame := same_flush s s.count s.lastFlush
    exact ⟨_, by rw [step, flush, hfile], h.of_same hsame, .inl hsame, written, hfile⟩
  | rollFile r =>
    have hroll := rollFile_move cfg s r
    obtain ⟨hnamed, hforward⟩ := roll_named h he hroll
    exact ⟨_, rfl, hnamed, hforward, roll_hasFile hfile hroll⟩

/-- After a step the names of the files are different, the period is that of the last roll, a roll
is later than the one before, and the limit is kept by an append whose roll is not refused. -/
def RollsWell (cfg : Config) (s : State) (e : Event) : Prop :=
  ∃ t, step cfg s e = .ok t ∧ (opened t).Nodup ∧ RollsForward s t ∧
    t.startOfPeriod = t.lastRoll / kRollPreSeconds * kRollPreSeconds ∧
    ∀ len now r, e = .append len now r →
      (AttemptsRoll cfg s len now → s.lastRoll < r.now) → WithinLimit cfg t

theorem never_reopens {es : List Event} (hsize : 0 ≤ cfg.rollSize) (hr : r.Valid)
    (hes : ∀ e ∈ es, e.Valid) :
    (opened (init cfg r) = [getLogFilename cfg.basename r] ∧ (init cfg r).startOfPeriod =
      (init cfg r).lastRoll / kRollPreSeconds * kRollPreSeconds) ∧
    Throughout (step cfg) (RollsWell cfg) (init cfg r) es := by
  obtain ⟨hnamed, hopened, hfile⟩ := init_named cfg hr
  refine ⟨⟨hopened, hnamed.period_eq⟩, throughout_of_first fun pre e post t hsplit _ hrun => ?_⟩
  have hpre : ∀ e ∈ pre, e.Valid := fun e he => hes e (by simp [hsplit, he])
  have hstep : ∀ (s : State) e t, (Named cfg s ∧ ∃ written, s.file = some written) → e.Valid →
      step cfg s e = .ok t → Named cfg t ∧ ∃ written, t.file = some written := by
    rintro s e t ⟨hnamed, written, hfile⟩ he ht
    obtain ⟨u, hu, hnamed', -, hfile'⟩ := step_named hnamed hfile he
    cases ht.symm.trans hu
    exact ⟨hnamed', hfile'⟩
  obtain ⟨hnamed, written, hfile⟩ := run_invariant_of hstep ⟨hnamed, 0, hfile⟩
    (throughout_of_forall hpre) hrun
  obtain ⟨u, hu, hnamed', hforward, -⟩ := step_named hnamed hfile (hes e (by simp [hsplit]))
  refine ⟨u, hu, hnamed'.nodup, hforward, hnamed'.period_eq, ?_⟩
  rintro len now r rfl hlater
  exact append_within hsize (append_move hu) hlater

def app : Config := ⟨bytes "app", 10, 3, 2⟩

def sameSecond : List Event :=
  [.append 20 1700000001 ⟨1700000001, bytes "host", 42⟩,
    .append 20 1700000001 ⟨1700000001, bytes "host", 42⟩,
    .append 20 1699999999 ⟨1699999999, bytes "host", 42⟩]

theorem never_reopens_sameSecond :
    (opened (init app ⟨1700000000, bytes "host", 42⟩) =
        [getLogFilename (bytes "app") ⟨1700000000, bytes "host", 42⟩] ∧
      (init app ⟨1700000000, bytes "host", 42⟩).startOfPeriod =
        (init app ⟨1700000000, bytes "host", 42⟩).lastRoll / kRollPreSeconds * kRollPreSeconds) ∧
    Throughout (step app) (RollsWell app) (init app ⟨1700000000, bytes "host", 42⟩) sameSecond :=
  never_reopens (by decide) ⟨by decide, by decide⟩ fun e he => by
    simp only [sameSecond, List.mem_cons, List.not_mem_nil, or_false] at he
    rcases he with rfl | rfl | rfl <;> exact ⟨by decide, by decide⟩

end AcMuduo.LogFile

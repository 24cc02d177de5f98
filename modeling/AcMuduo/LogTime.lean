import AcMuduo.LogRecord
import AcMuduo.TimeZone

namespace AcMuduo.LogTime

open Machine LogStream

def kMicroSecondsPerSecond : Nat := 1000000

/-- The zone of the log, where `none` is the invalid one, and what the thread keeps of the second
that it has formatted last. -/
structure State where
  zone : Option TimeZone.Data
  lastSecond : Nat
  time : List Byte

def State.initial : State := ⟨none, 0, []⟩

def timeText (tm : Tm) : List Byte :=
  padded 32 4 (convert (tm.year + 1900)) ++ padded 48 2 (convert (tm.mon + 1)) ++
    padded 48 2 (convert tm.mday) ++ bytes " " ++ padded 48 2 (convert tm.hour) ++ bytes ":" ++
    padded 48 2 (convert tm.min) ++ bytes ":" ++ padded 48 2 (convert tm.sec)

def breakDown (zone : Option TimeZone.Data) (seconds : Nat) : Except (Stop Fault) Tm :=
  match zone with
  | some data => TimeZone.toLocalTime data seconds
  | none => .ok (gmtime seconds)

/-- A second is formatted afresh. It fails from the year 10000 on. -/
def formatSecond (zone : Option TimeZone.Data) (seconds : Nat) :
    Except (Stop Fault) (List Byte) := do
  let tmTime ← breakDown zone seconds
  assert ((timeText tmTime).length = 17)
  .ok (timeText tmTime)

/-- The text of a second that is not the last one is put in the place of the one that is kept. -/
def refresh (s : State) (seconds : Nat) : Except (Stop Fault) State :=
  if seconds ≠ s.lastSecond then do
    let time ← formatSecond s.zone seconds
    .ok { s with lastSecond := seconds, time := time }
  else .ok s

section

variable (tid : Int32) (strerror : Int32 → List Byte)

def circumstances (s : State) (microseconds : Nat) : Except (Stop Fault) Circumstances :=
  if h : s.time.length = 17 then
    .ok ⟨s.time, h, microseconds % kMicroSecondsPerSecond, Nat.mod_lt _ (by decide),
      s.zone.isSome, tid, strerror⟩
  else .error (.fault .assertFailed)

/-- The times of messages are positive. -/
def formatTime (s : State) (microSecondsSinceEpoch : Nat) (stream : LogStream) :
    Except (Stop Fault) (State × LogStream) := do
  let s ← refresh s (microSecondsSinceEpoch / kMicroSecondsPerSecond)
  let c ← circumstances tid strerror s microSecondsSinceEpoch
  let stream ← Logger.formatTime c stream
  .ok (s, stream)

inductive Event where
  | setTimeZone (tz : Option TimeZone.Data)
  | record (microSecondsSinceEpoch : Nat)

def step (s : State) : Event → Except (Stop Fault) State
  | .setTimeZone tz => .ok { s with zone := tz }
  | .record micros => (formatTime tid strerror s micros LogStream.empty).map Prod.fst

def recordText (s : State) (micros : Nat) : Except (Stop Fault) (List Byte) :=
  (formatTime tid strerror s micros LogStream.empty).map fun r => r.2.buffer.data.take 17

/-- A record shows its second in the zone in force. -/
def Right (s : State) : Event → Prop
  | .setTimeZone _ => True
  | .record micros =>
    recordText tid strerror s micros = formatSecond s.zone (micros / kMicroSecondsPerSecond)

end

/-- A second is shown as in the record before, if that was made in the same second. Before the
first record it is as if the second 0 could not be shown. -/
def Agrees (zone : Option TimeZone.Data) (seconds : Nat) : Option (Nat × List Byte) → Prop
  | none => seconds = 0 → formatSecond zone seconds = .error (.fault .assertFailed)
  | some (second, text) => seconds = second → formatSecond zone seconds = .ok text

/-- No zone is set between two records of one second that shows that second differently, as far as
the records can be formatted. -/
def ZonesAgree (zone : Option TimeZone.Data) (last : Option (Nat × List Byte)) :
    List Event → Prop
  | [] => True
  | .setTimeZone tz :: es => ZonesAgree tz last es
  | .record micros :: es =>
    Agrees zone (micros / kMicroSecondsPerSecond) last ∧
      ∀ text, formatSecond zone (micros / kMicroSecondsPerSecond) = .ok text →
        ZonesAgree zone (some (micros / kMicroSecondsPerSecond, text)) es

def Keeps (s : State) : Option (Nat × List Byte) → Prop
  | none => s.lastSecond = 0 ∧ s.time = []
  | some (second, text) => s.lastSecond = second ∧ s.time = text ∧ text.length = 17

theorem insertT_data {s : LogStream} {str : List Byte} {len : Nat} (hlen : str.length = len)
    (hsmall : len < 2 ^ 31) (hroom : len < s.buffer.avail) :
    ∃ t, Logger.insertT str len s = .ok t ∧ t.buffer.data = s.buffer.data ++ str := by
  have hint : (Int32.ofNat len).toInt = len := Int32.toInt_ofNat_of_lt hsmall
  have hle : (Int32.ofNat len).toInt ≤ str.length := by omega
  have happend := s.append_eq hle
  rw [hint, Int.toNat_natCast, ← hlen, List.take_length] at happend
  refine ⟨_, bind_eq_ok.mpr ⟨(), assert_eq_ok.mpr (decide_eq_true hlen), rfl⟩, ?_⟩
  rw [← hlen, happend]
  exact FixedBuffer.append_data (hlen ▸ hroom)

theorem logger_formatTime (c : Circumstances) :
    ∃ t, Logger.formatTime c LogStream.empty = .ok t ∧ t.buffer.data.take 17 = c.time := by
  have hus := Logger.length_us c
  obtain ⟨s, hs, hdata⟩ := insertT_data (s := LogStream.empty) c.time_length (by decide) (by decide)
  have hroom : 9 < s.buffer.avail := by
    rw [FixedBuffer.avail, hdata, List.length_append, c.time_length]
    decide
  have htake : ∀ text, (s.buffer.data ++ text).take 17 = c.time := by
    intro text
    rw [hdata]
    exact List.take_left' c.time_length
  cases hzone : c.zoneValid with
  | true =>
    rw [hzone, if_pos rfl] at hus
    obtain ⟨t, ht, htext⟩ := insertT_data hus (by decide) ((by decide : 8 < 9).trans hroom)
    refine ⟨t, ?_, by rw [htext, htake]⟩
    rw [Logger.formatTime, if_pos hzone]
    exact bind_eq_ok.mpr ⟨(), assert_eq_ok.mpr (decide_eq_true hus),
      bind_eq_ok.mpr ⟨s, hs, ht⟩⟩
  | false =>
    rw [hzone, if_neg Bool.false_ne_true] at hus
    obtain ⟨t, ht, htext⟩ := insertT_data hus (by decide) hroom
    refine ⟨t, ?_, by rw [htext, htake]⟩
    rw [Logger.formatTime, if_neg (by simp [hzone])]
    exact bind_eq_ok.mpr ⟨(), assert_eq_ok.mpr (decide_eq_true hus),
      bind_eq_ok.mpr ⟨s, hs, ht⟩⟩

theorem formatSecond_length {zone : Option TimeZone.Data} {seconds : Nat} {text : List Byte}
    (h : formatSecond zone seconds = .ok text) : text.length = 17 := by
  obtain ⟨tm, -, h⟩ := bind_eq_ok.mp h
  obtain ⟨_, hlength, h⟩ := bind_eq_ok.mp h
  cases h
  exact of_decide_eq_true (assert_eq_ok.mp hlength)

variable {tid : Int32} {strerror : Int32 → List Byte} {s t : State} {micros : Nat}
  {last : Option (Nat × List Byte)}

theorem formatTime_map {α : Type} {f : State × LogStream → α} {g : State → α}
    (h : ∀ t stream, stream.buffer.data.take 17 = t.time → f (t, stream) = g t) :
    (formatTime tid strerror s micros LogStream.empty).map f =
      refresh s (micros / kMicroSecondsPerSecond) >>= fun t =>
        if t.time.length = 17 then .ok (g t) else .error (.fault .assertFailed) := by
  rw [formatTime, map_bind]
  congr 1
  funext t
  by_cases hlength : t.time.length = 17
  · obtain ⟨stream, hstream, htext⟩ := logger_formatTime ⟨t.time, hlength,
      micros % kMicroSecondsPerSecond, Nat.mod_lt _ (by decide), t.zone.isSome, tid, strerror⟩
    rw [circumstances, dif_pos hlength, if_pos hlength, ← h t stream htext, map_bind]
    exact bind_eq_ok.mpr ⟨_, rfl, by rw [map_bind, hstream]; rfl⟩
  · rw [circumstances, dif_neg hlength, if_neg hlength]
    rfl

theorem step_record_ok : step tid strerror s (.record micros) = .ok t ↔
    refresh s (micros / kMicroSecondsPerSecond) = .ok t ∧ t.time.length = 17 := by
  rw [step, formatTime_map (g := fun t => t) (fun t stream _ => rfl), bind_eq_ok]
  constructor
  · rintro ⟨u, hu, h⟩
    split at h
    · cases h
      exact ⟨hu, ‹_›⟩
    · cases h
  · rintro ⟨ht, hlength⟩
    exact ⟨t, ht, if_pos hlength⟩

theorem recordText_of_ne (h : micros / kMicroSecondsPerSecond ≠ s.lastSecond) :
    recordText tid strerror s micros = formatSecond s.zone (micros / kMicroSecondsPerSecond) := by
  rw [recordText, formatTime_map (g := State.time) (fun t stream htext => htext), refresh,
    if_pos h]
  cases htext : formatSecond s.zone (micros / kMicroSecondsPerSecond) with
  | error d => rfl
  | ok text => exact if_pos (formatSecond_length htext)

theorem recordText_of_eq (h : micros / kMicroSecondsPerSecond = s.lastSecond) :
    recordText tid strerror s micros =
      if s.time.length = 17 then .ok s.time else .error (.fault .assertFailed) := by
  rw [recordText, formatTime_map (g := State.time) (fun t stream htext => htext), refresh,
    if_neg (not_not.mpr h)]
  rfl

theorem right_record_iff (hkeeps : Keeps s last) : Right tid strerror s (.record micros) ↔
    Agrees s.zone (micros / kMicroSecondsPerSecond) last := by
  have hagrees : Agrees s.zone (micros / kMicroSecondsPerSecond) last ↔
      (micros / kMicroSecondsPerSecond = s.lastSecond →
        formatSecond s.zone (micros / kMicroSecondsPerSecond) =
          if s.time.length = 17 then .ok s.time else .error (.fault .assertFailed)) := by
    cases last with
    | none => rw [Agrees, hkeeps.1, hkeeps.2, if_neg (by decide)]
    | some last =>
      obtain ⟨hsecond, htime, hlength⟩ := hkeeps
      rw [Agrees, hsecond, htime, if_pos hlength]
  rw [hagrees, Right]
  by_cases h : micros / kMicroSecondsPerSecond = s.lastSecond
  · rw [recordText_of_eq h, forall_prop_of_true h, eq_comm]
  · rw [recordText_of_ne h, forall_prop_of_false h]
    exact iff_of_true rfl trivial

theorem State.eq_iff : s = t ↔ s.zone = t.zone ∧ s.lastSecond = t.lastSecond ∧ s.time = t.time := by
  cases s
  cases t
  simp only [State.mk.injEq]

theorem keeps_record (hright : Right tid strerror s (.record micros)) :
    step tid strerror s (.record micros) = .ok t ↔
      s.zone = t.zone ∧ micros / kMicroSecondsPerSecond = t.lastSecond ∧
        formatSecond s.zone (micros / kMicroSecondsPerSecond) = .ok t.time := by
  rw [step_record_ok, refresh]
  by_cases hsecond : micros / kMicroSecondsPerSecond = s.lastSecond
  · rw [Right, recordText_of_eq hsecond] at hright
    rw [if_neg (not_not.mpr hsecond), ← hright, hsecond, Except.ok.injEq, State.eq_iff]
    constructor
    · rintro ⟨⟨hzone, hlast, htime⟩, hlength⟩
      exact ⟨hzone, hlast, by rw [htime, if_pos hlength]⟩
    · rintro ⟨hzone, hlast, htime⟩
      split at htime
      next hlength =>
        have heq := Except.ok.inj htime
        exact ⟨⟨hzone, hlast, heq⟩, heq ▸ hlength⟩
      next => cases htime
  · rw [if_pos hsecond, bind_eq_ok]
    constructor
    · rintro ⟨⟨text, htext, h⟩, -⟩
      cases h
      exact ⟨rfl, rfl, htext⟩
    · rintro ⟨hzone, hlast, htext⟩
      have hnew : { s with lastSecond := micros / kMicroSecondsPerSecond, time := t.time } = t :=
        State.eq_iff.mpr ⟨hzone, hlast, rfl⟩
      exact ⟨⟨t.time, htext, congrArg Except.ok hnew⟩, formatSecond_length htext⟩

theorem throughout_right_iff {es : List Event} (hkeeps : Keeps s last) :
    Throughout (step tid strerror) (Right tid strerror) s es ↔ ZonesAgree s.zone last es := by
  induction es generalizing s last with
  | nil => exact Iff.rfl
  | cons e es ih =>
    cases e with
    | setTimeZone tz =>
      have hnext : Throughout (step tid strerror) (Right tid strerror) { s with zone := tz } es ↔
          ZonesAgree tz last es := ih (by cases last <;> exact hkeeps)
      simp only [Throughout, Right, step, ZonesAgree, true_and, Except.ok.injEq, forall_eq', hnext]
    | record micros =>
      rw [Throughout, ZonesAgree, ← right_record_iff hkeeps]
      refine and_congr_right fun hright => ⟨fun h text htext => ?_, fun h t ht => ?_⟩
      · have hstep := (keeps_record hright
          (t := ⟨s.zone, micros / kMicroSecondsPerSecond, text⟩)).mpr ⟨rfl, rfl, htext⟩
        have hkeeps : Keeps ⟨s.zone, micros / kMicroSecondsPerSecond, text⟩
            (some (micros / kMicroSecondsPerSecond, text)) :=
          ⟨rfl, rfl, formatSecond_length htext⟩
        exact (ih hkeeps).mp (h _ hstep)
      · obtain ⟨hzone, hsecond, htext⟩ := (keeps_record hright).mp ht
        have hkeeps : Keeps t (some (micros / kMicroSecondsPerSecond, t.time)) :=
          ⟨hsecond.symm, rfl, formatSecond_length htext⟩
        rw [ih hkeeps, ← hzone]
        exact h t.time htext

/-- The text that is kept never changes a record exactly if no zone set between two records of a
second shows that second differently, and the first record is not in the second 0. -/
theorem cached_time_right_iff (tid : Int32) (strerror : Int32 → List Byte) (es : List Event) :
    Throughout (step tid strerror) (Right tid strerror) State.initial es ↔
      ZonesAgree none none es :=
  have hkeeps : Keeps State.initial none := ⟨rfl, rfl⟩
  throughout_right_iff hkeeps

theorem zonesAgree_records {zone : Option TimeZone.Data} {micros : List Nat}
    (hmicros : ∀ x ∈ micros, kMicroSecondsPerSecond ≤ x)
    (hlast : ∀ p, last = some p → formatSecond zone p.1 = .ok p.2) :
    ZonesAgree zone last (micros.map .record) := by
  induction micros generalizing last with
  | nil => trivial
  | cons x micros ih =>
    rw [List.forall_mem_cons] at hmicros
    refine ⟨?_, fun text htext => ih hmicros.2 fun p hp => Option.some.inj hp ▸ htext⟩
    cases last with
    | none =>
      intro hzero
      have hpos := Nat.div_pos hmicros.1 (by decide)
      omega
    | some p =>
      intro hsecond
      rw [hsecond]
      exact hlast p rfl

/-- As long as the zone is set before the first record, the records are right. -/
theorem cached_time_right (zone : Option TimeZone.Data) {micros : List Nat}
    (hmicros : ∀ x ∈ micros, kMicroSecondsPerSecond ≤ x) :
    Throughout (step tid strerror) (Right tid strerror) State.initial
      (.setTimeZone zone :: micros.map .record) := by
  have hkeeps : Keeps State.initial none := ⟨rfl, rfl⟩
  rw [throughout_right_iff hkeeps]
  exact zonesAgree_records hmicros (by simp)

def cet : TimeZone.Data := .fixed 3600 [67, 69, 84, 0]

/-- The zone is set between two records of one second, or the first record is made in the
second 0. -/
theorem cached_time_wrong :
    ¬ Throughout (step 7 fun _ => []) (Right 7 fun _ => []) State.initial
      [.record 1193531400000005, .setTimeZone (some cet), .record 1193531400000006] ∧
    ¬ Throughout (step 7 fun _ => []) (Right 7 fun _ => []) State.initial [.record 5] := by
  constructor
  · intro h
    have hstep : step 7 (fun _ => []) State.initial (.record 1193531400000005) =
        .ok ⟨none, 1193531400, bytes "20071028 00:30:00"⟩ :=
      step_record_ok.mpr ⟨rfl, by decide⟩
    have hright := ((h.2 _ hstep).2 _ rfl).1
    have hwrong : recordText 7 (fun _ => []) ⟨some cet, 1193531400, bytes "20071028 00:30:00"⟩
        1193531400000006 ≠ formatSecond (some cet) 1193531400 := by decide
    exact hwrong hright
  · intro h
    have hwrong : recordText 7 (fun _ => []) State.initial 5 ≠ formatSecond none 0 := by decide
    exact hwrong h.1

end AcMuduo.LogTime

import AcMuduo.Logging

namespace AcMuduo.Logger

open Machine LogStream

variable {c : Circumstances} {s : LogStream}

/-- On a stream without a newline it succeeds and leaves one without a newline. -/
def OneLine (m : LogStream → Except (Stop Fault) LogStream) : Prop :=
  ∀ s, newline ∉ s.buffer.data → ∃ t, m s = .ok t ∧ newline ∉ t.buffer.data

theorem OneLine.bind {m k : LogStream → Except (Stop Fault) LogStream} (hm : OneLine m)
    (hk : OneLine k) : OneLine fun s => m s >>= k := by
  intro s hs
  obtain ⟨t, ht, hline⟩ := hm s hs
  obtain ⟨u, hu, hline⟩ := hk t hline
  exact ⟨u, bind_eq_ok.mpr ⟨t, ht, hu⟩, hline⟩

theorem insert_line (hs : newline ∉ s.buffer.data) {x : Insertion} (hx : newline ∉ x.text) :
    ∃ t, s.insert x = .ok t ∧ newline ∉ t.buffer.data ∧ t.buffer.length =
      if s.buffer.length + x.room ≤ kSmallBuffer then s.buffer.length + x.text.length
      else s.buffer.length := by
  obtain ⟨t, ht, hdata⟩ := s.insert_data x
  have hroom : x.room ≤ s.buffer.avail ↔ s.buffer.length + x.room ≤ kSmallBuffer :=
    (Nat.le_sub_iff_add_le' s.buffer.length_le)
  simp only [hroom] at hdata
  refine ⟨t, ht, ?_⟩
  rw [FixedBuffer.length, hdata]
  split
  next => exact ⟨List.mem_append.not.mpr (not_or.mpr ⟨hs, hx⟩), List.length_append⟩
  next => exact ⟨hs, rfl⟩

theorem oneLine_insert {x : Insertion} (hx : newline ∉ x.text) : OneLine (·.insert x) := by
  intro s hs
  obtain ⟨t, ht, hline, -⟩ := insert_line hs hx
  exact ⟨t, ht, hline⟩

theorem oneLine_run {xs : List Insertion} (hxs : ∀ x ∈ xs, newline ∉ x.text) :
    OneLine fun s => run insert s xs := by
  induction xs with
  | nil => exact fun s hs => ⟨s, rfl, hs⟩
  | cons x xs ih =>
    obtain ⟨hx, hxs⟩ := List.forall_mem_cons.mp hxs
    exact (oneLine_insert hx).bind (ih hxs)

theorem OneLine.guarded {m : LogStream → Except (Stop Fault) LogStream} {b : Bool} (hb : b = true)
    (hm : OneLine m) : OneLine fun s => assert b >>= fun _ => m s := by
  rw [hb]
  exact hm

theorem oneLine_insertT {str : List Byte} {len : Nat} (hstr : newline ∉ str)
    (hlen : str.length = len) (hsmall : len < 2 ^ 31) : OneLine (insertT str len) := by
  have hint : (Int32.ofNat len).toInt = len := Int32.toInt_ofNat_of_lt hsmall
  have hle : (Int32.ofNat len).toInt ≤ str.length := by omega
  have htext : (Insertion.append str (Int32.ofNat len) hle).text = str := by
    rw [Insertion.text, hint, Int.toNat_natCast, ← hlen, List.take_length]
  have hinsert := oneLine_insert (htext.symm ▸ hstr)
  exact hinsert.guarded (decide_eq_true hlen)

theorem newline_notMem_padded {pad : Byte} (width : Nat) {text : List Byte}
    (hpad : newline ≠ pad) (htext : newline ∉ text) : newline ∉ padded pad width text := by
  rw [padded, List.mem_append, not_or]
  exact ⟨fun h => hpad (List.eq_of_mem_replicate h), htext⟩

theorem length_padded (pad : Byte) (width : Nat) (text : List Byte) :
    (padded pad width text).length = max width text.length := by
  rw [padded, List.length_append, List.length_replicate]
  omega

theorem newline_notMem_us (c : Circumstances) : newline ∉ us c := by
  have hdigits : newline ∉ padded 48 6 (convert c.microseconds) :=
    newline_notMem_padded 6 (by decide) (newline_notMem_convert c.microseconds)
  have hend : newline ∉ bytes (if c.zoneValid then " " else "Z ") := by
    cases c.zoneValid <;> decide
  simp only [us, List.mem_append, not_or]
  exact ⟨⟨by decide, hdigits⟩, hend⟩

theorem length_us (c : Circumstances) : (us c).length = if c.zoneValid then 8 else 9 := by
  have hdigits : (convert c.microseconds).length ≤ 6 :=
    convert_natCast_length_le (by decide) c.microseconds_lt
  have hpadded := length_padded 48 6 (convert c.microseconds)
  rw [us, List.length_append, List.length_append, hpadded, max_eq_left hdigits]
  cases c.zoneValid <;> rfl

theorem oneLine_formatTime (htime : newline ∉ c.time) : OneLine (formatTime c) := by
  have heq : formatTime c = fun s => insertT c.time 17 s >>= insertT (us c) (us c).length := by
    funext s
    rw [formatTime, length_us]
    cases c.zoneValid <;> rfl
  have hsmall : (us c).length < 2 ^ 31 := by
    rw [length_us]
    split <;> decide
  rw [heq]
  exact (oneLine_insertT htime c.time_length (by decide)).bind
    (oneLine_insertT (newline_notMem_us c) rfl hsmall)

theorem oneLine_tidString (c : Circumstances) :
    OneLine (insertT (tidString c) (tidString c).length) := by
  have hdigits : newline ∉ padded 32 5 (convert c.tid.toInt) :=
    newline_notMem_padded 5 (by decide) (newline_notMem_convert c.tid.toInt)
  have hline : newline ∉ tidString c := by
    rw [tidString, List.mem_append, not_or]
    exact ⟨hdigits, by decide⟩
  have hlower := c.tid.le_toInt
  have hupper := c.tid.toInt_lt
  have hconvert : (convert c.tid.toInt).length ≤ 20 := convert_length_le (by omega) (by omega)
  have hlength : (tidString c).length = max 5 (convert c.tid.toInt).length + 1 := by
    rw [tidString, List.length_append, length_padded]
    rfl
  exact oneLine_insertT hline rfl (by omega)

theorem oneLine_levelName (level : LogLevel) : OneLine (insertT level.name 6) := by
  cases level <;> exact oneLine_insertT (by decide) rfl (by decide)

theorem impl_ok (htime : newline ∉ c.time) (hstrerror : ∀ e, newline ∉ c.strerror e)
    (level : LogLevel) (oldErrno : Int32) (file : SourceFile) (line : Int32) :
    ∃ s, impl c level oldErrno file line = .ok ⟨s, level, line, file⟩ ∧
      newline ∉ s.buffer.data := by
  have herror : OneLine fun s => run insert s (if oldErrno ≠ 0 then
      [.cString (some (c.strerror oldErrno)), .cString (some (bytes " (error=")), .int oldErrno,
        .cString (some (bytes ") "))]
      else []) := by
    apply oneLine_run
    split
    next =>
      simp only [List.forall_mem_cons, Insertion.text, Option.getD_some]
      refine ⟨hstrerror oldErrno, by decide, newline_notMem_convert _, by decide, by simp⟩
    next => simp
  have hall := (oneLine_formatTime htime).bind ((oneLine_tidString c).bind
    ((oneLine_levelName level).bind herror))
  obtain ⟨s, hs, hline⟩ := hall LogStream.empty (by simp [LogStream.empty])
  obtain ⟨s₁, htime, hs⟩ := bind_eq_ok.mp hs
  obtain ⟨s₂, htid, hs⟩ := bind_eq_ok.mp hs
  obtain ⟨s₃, hlevel, hs⟩ := bind_eq_ok.mp hs
  refine ⟨s, bind_eq_ok.mpr ⟨s₁, htime, bind_eq_ok.mpr ⟨s₂, htid, ?_⟩⟩, hline⟩
  exact bind_eq_ok.mpr ⟨s₃, hlevel, bind_eq_ok.mpr ⟨s, hs, rfl⟩⟩

def Constructor.texts : Constructor → List Insertion
  | .func _ name => [.cString name]
  | _ => []

theorem construct_ok (htime : newline ∉ c.time) (hstrerror : ∀ e, newline ∉ c.strerror e)
    (file : SourceFile) (line : Int32) {k : Constructor}
    (hk : ∀ x ∈ k.texts, newline ∉ x.text) :
    ∃ l, construct c file line k = .ok l ∧ l.baseName = file ∧ newline ∉ l.stream.buffer.data := by
  cases k with
  | info =>
    obtain ⟨s, hs, hline⟩ := impl_ok htime hstrerror .info 0 file line
    exact ⟨_, hs, rfl, hline⟩
  | level level =>
    obtain ⟨s, hs, hline⟩ := impl_ok htime hstrerror level 0 file line
    exact ⟨_, hs, rfl, hline⟩
  | func level func =>
    obtain ⟨s, hs, hline⟩ := impl_ok htime hstrerror level 0 file line
    have hfunc : OneLine fun s => run insert s [.cString func, .cString (some (bytes " "))] := by
      apply oneLine_run
      rw [List.forall_mem_cons, List.forall_mem_singleton]
      exact ⟨hk _ (.head _), by decide⟩
    obtain ⟨t, ht, hline⟩ := hfunc s hline
    exact ⟨_, bind_eq_ok.mpr ⟨_, hs, bind_eq_ok.mpr ⟨t, ht, rfl⟩⟩, rfl, hline⟩
  | sys toAbort errno =>
    obtain ⟨s, hs, hline⟩ := impl_ok htime hstrerror (if toAbort then .fatal else .error) errno
      file line
    exact ⟨_, hs, rfl, hline⟩

theorem insertAll_ok {l : Logger} (hl : newline ∉ l.stream.buffer.data) {xs : List Insertion}
    (hxs : ∀ x ∈ xs, newline ∉ x.text) :
    ∃ t, l.insertAll xs = .ok { l with stream := t } ∧ newline ∉ t.buffer.data := by
  obtain ⟨t, ht, hline⟩ := oneLine_run hxs l.stream hl
  exact ⟨t, bind_eq_ok.mpr ⟨t, ht, rfl⟩, hline⟩

/-- The condition for the last byte of the record to have space, on the bytes that are in the stream
before `~logger` and on the length of the file name. -/
def TrailerFits (n size : Nat) : Prop :=
  let n := if n + 3 < kSmallBuffer then n + 3 else n
  n + 2 < kSmallBuffer ∧ n + size + 1 ≠ kSmallBuffer ∧ n + size + 2 ≠ kSmallBuffer

instance (n size : Nat) : Decidable (TrailerFits n size) :=
  inferInstanceAs (Decidable (_ ∧ _))

theorem trailerFits_iff {n₀ n₁ n₂ n₃ n₄ size digits : Nat} (hdigits : digits ≤ 20)
    (h₁ : n₁ = if n₀ + (3 + 1) ≤ kSmallBuffer then n₀ + 3 else n₀)
    (h₂ : n₂ = if n₁ + (size + 1) ≤ kSmallBuffer then n₁ + size else n₁)
    (h₃ : n₃ = if n₂ + (1 + 1) ≤ kSmallBuffer then n₂ + 1 else n₂)
    (h₄ : n₄ = if n₃ + kMaxNumericSize ≤ kSmallBuffer then n₃ + digits else n₃) :
    n₄ + (1 + 1) ≤ kSmallBuffer ↔ TrailerFits n₀ size := by
  simp only [kSmallBuffer, kMaxNumericSize] at *
  have hn₁ : (if n₀ + 3 < 4000 then n₀ + 3 else n₀) = n₁ := h₁.symm
  rw [TrailerFits, kSmallBuffer, hn₁]
  clear h₁ hn₁
  grind

theorem trailer_ok (hs : newline ∉ s.buffer.data) {file : SourceFile} (hfile : newline ∉ file.data)
    (line : Int32) : ∃ t, run insert s [.cString (some (bytes " - ")), file.insertion,
        .cString (some (bytes ":")), .int line] = .ok t ∧ newline ∉ t.buffer.data ∧
      (t.buffer.length + 2 ≤ kSmallBuffer ↔ TrailerFits s.buffer.length file.data.length) := by
  have hlower := line.le_toInt
  have hupper := line.toInt_lt
  have hdigits : (convert line.toInt).length ≤ 20 := convert_length_le (by omega) (by omega)
  obtain ⟨s₁, hdash, hs₁, h₁⟩ := insert_line hs (x := .cString (some (bytes " - "))) (by decide)
  obtain ⟨s₂, hname, hs₂, h₂⟩ := insert_line hs₁ (x := file.insertion) (by simpa using hfile)
  obtain ⟨s₃, hcolon, hs₃, h₃⟩ := insert_line hs₂ (x := .cString (some (bytes ":"))) (by decide)
  obtain ⟨s₄, hline, hs₄, h₄⟩ := insert_line hs₃ (x := .int line) (newline_notMem_convert _)
  have hrun := run_cons_ok.mpr ⟨s₁, hdash, run_cons_ok.mpr ⟨s₂, hname, run_cons_ok.mpr ⟨s₃, hcolon,
    (run_singleton.trans hline)⟩⟩⟩
  refine ⟨s₄, hrun, hs₄, trailerFits_iff hdigits h₁ ?_ h₃ h₄⟩
  rw [← file.text_insertion]
  exact h₂

theorem destroy_ok {l : Logger} (hl : newline ∉ l.stream.buffer.data)
    (hfile : newline ∉ l.baseName.data) :
    ∃ msg, l.destroy = .ok msg ∧ newline ∉ msg.dropLast ∧
      (msg.getLast? = some newline ↔
        TrailerFits l.stream.buffer.length l.baseName.data.length) := by
  obtain ⟨s, hs, hline, hfits⟩ := trailer_ok hl hfile l.line
  obtain ⟨t, ht, hdata⟩ := s.insert_data (.char newline)
  have hrun := run_append_ok.mpr ⟨s, hs, run_singleton.trans ht⟩
  have hfinish : l.finish = .ok { l with stream := t } := bind_eq_ok.mpr ⟨t, hrun, rfl⟩
  refine ⟨t.buffer.data, bind_eq_ok.mpr ⟨_, hfinish, rfl⟩, ?_⟩
  have hroom : (Insertion.char newline).room ≤ s.buffer.avail ↔
      TrailerFits l.stream.buffer.length l.baseName.data.length := by
    rw [← hfits]
    exact Nat.le_sub_iff_add_le' s.buffer.length_le
  rw [hdata, ← hroom]
  split
  next hroom => simpa [hroom, Insertion.text] using hline
  next hroom =>
    refine ⟨fun hmem => hline (List.mem_of_mem_dropLast hmem), ?_⟩
    simp only [hroom, iff_false]
    exact fun hlast => hline (List.mem_of_getLast? hlast)

/-- A record of texts without newlines is one line, which is terminated if the trailer fits. -/
theorem record_terminated {file : SourceFile} {line : Int32} {k : Constructor}
    {xs : List Insertion} (htime : newline ∉ c.time) (hstrerror : ∀ e, newline ∉ c.strerror e)
    (hfile : newline ∉ file.data) (hk : ∀ x ∈ k.texts, newline ∉ x.text)
    (hxs : ∀ x ∈ xs, newline ∉ x.text) :
    ∃ l msg, filled c file line k xs = .ok l ∧ l.destroy = .ok msg ∧ newline ∉ msg.dropLast ∧
      (msg.getLast? = some newline ↔ TrailerFits l.stream.buffer.length file.data.length) := by
  obtain ⟨l, hl, rfl, hline⟩ := construct_ok htime hstrerror file line hk
  obtain ⟨t, ht, hline⟩ := insertAll_ok hline hxs
  obtain ⟨msg, hmsg, hend⟩ := destroy_ok (l := { l with stream := t }) hline hfile
  exact ⟨_, msg, bind_eq_ok.mpr ⟨l, hl, ht⟩, hmsg, hend⟩

def noon : Circumstances where
  time := bytes "20220607 12:00:00"
  time_length := by decide
  microseconds := 250
  microseconds_lt := by decide
  zoneValid := false
  tid := 4711
  strerror _ := bytes "Success"

theorem newline_notMem_strerror (e : Int32) : newline ∉ noon.strerror e := by
  have hsuccess : newline ∉ bytes "Success" := by decide
  exact hsuccess

def mainCpp : SourceFile := ⟨bytes "main.cpp", 8, by decide⟩

theorem record_terminated_noon : ∃ l msg,
    filled noon mainCpp 42 (.level .warn) [.string (bytes "n = "), .int (-7)] = .ok l ∧
      l.destroy = .ok msg ∧ newline ∉ msg.dropLast ∧
      (msg.getLast? = some newline ↔ TrailerFits l.stream.buffer.length 8) :=
  record_terminated (by decide) newline_notMem_strerror (by decide) (by decide) (by decide)

theorem record_unterminated : ∃ l msg,
    filled noon mainCpp 42 .info [.string (List.replicate 3961 120)] = .ok l ∧
      l.destroy = .ok msg ∧ msg.getLast? ≠ some newline := by
  have hxs : newline ∉ (Insertion.string (List.replicate 3961 120)).text := by
    exact fun hmem => absurd (List.eq_of_mem_replicate hmem) (by decide)
  obtain ⟨l, hl, hname, hline⟩ := construct_ok (c := noon) (k := .info) (by decide)
    newline_notMem_strerror mainCpp 42 (by decide)
  have hlength : l.stream.buffer.length = 38 := by
    have hheader : (construct noon mainCpp 42 .info).map (fun l => l.stream.buffer.length) =
        .ok 38 := by decide
    rw [hl] at hheader
    exact Except.ok.inj hheader
  obtain ⟨t, ht, hline, hfull⟩ := insert_line hline hxs
  obtain ⟨msg, hmsg, -, hend⟩ := destroy_ok (l := { l with stream := t }) hline
    (hname ▸ by decide)
  have hlogger : filled noon mainCpp 42 .info [.string (List.replicate 3961 120)] =
      .ok { l with stream := t } :=
    bind_eq_ok.mpr ⟨l, hl, bind_eq_ok.mpr ⟨t, run_singleton.trans ht, rfl⟩⟩
  refine ⟨_, msg, hlogger, hmsg, fun hlast => ?_⟩
  have hfits := hend.mp hlast
  simp only [Insertion.room, Insertion.text, Insertion.isNumber, List.length_replicate] at hfull
  rw [hfull, hlength, hname] at hfits
  exact absurd hfits (by decide)

end AcMuduo.Logger

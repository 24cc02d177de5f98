import AcMuduo.LogFile

namespace AcMuduo.LogFile

open Machine

def Event.readings : Event → List Int
  | .append _ now r => [now, r.now]
  | .flush => []
  | .rollFile r => [r.now]

structure Clocked (cfg : Config) (readings : List Int) (s : State) : Prop where
  count_lt : (s.count : Int) < cfg.checkEveryN
  roll_nonneg : 0 ≤ s.lastRoll
  roll_le_flush : s.lastRoll ≤ s.lastFlush
  period_eq : s.startOfPeriod = period s.lastRoll
  read : ∀ written, s.file = some written → 0 < s.lastRoll ∧ s.lastRoll ∈ readings

variable {cfg : Config} {s t : State} {len : Nat} {now written : Int} {r : Reading}
  {readings more : List Int}

theorem Clocked.of_le (h : Clocked cfg readings s) (hmore : ∀ x ∈ readings, x ∈ more) :
    Clocked cfg more s :=
  { h with read := fun written hfile => (h.read written hfile).imp_right (hmore _) }

theorem roll_clocked (h : Clocked cfg readings s) (hroll : RollMove cfg s r t) :
    Clocked cfg (readings ++ [r.now]) t := by
  cases hroll with
  | refused => exact h.of_le fun x hx => List.mem_append_left _ hx
  | rolled hnow =>
    have hpos := h.roll_nonneg.trans_lt hnow
    exact ⟨h.count_lt, hpos.le, le_rfl, rfl, fun _ _ => ⟨hpos, by simp⟩⟩

theorem Clocked.write (h : Clocked cfg readings s) (hfile : s.file = some written) (len : Nat)
    {count : Nat} (hcount : (count : Int) < cfg.checkEveryN) :
    Clocked cfg readings { write s written len with count := count } :=
  ⟨hcount, h.roll_nonneg, h.roll_le_flush, h.period_eq, fun _ _ => h.read written hfile⟩

theorem append_clocked (hn : 1 ≤ cfg.checkEveryN) (hflush : 0 ≤ cfg.flushInterval)
    (h : Clocked cfg readings s) (hmove : AppendMove cfg s len now r t) :
    Clocked cfg (readings ++ [now, r.now]) t := by
  have hzero : ((0 : Nat) : Int) < cfg.checkEveryN := by omega
  have hmore : ∀ x ∈ readings, x ∈ readings ++ [now, r.now] := fun x hx =>
    List.mem_append_left _ hx
  have hmore' : ∀ x ∈ readings ++ [r.now], x ∈ readings ++ [now, r.now] := by
    intro x hx
    rw [List.mem_append, List.mem_singleton] at hx
    exact hx.elim (hmore x) fun heq => by simp [heq]
  cases hmove with
  | hits hfile _ hroll => exact (roll_clocked (h.write hfile len h.count_lt) hroll).of_le hmore'
  | otherDay hfile _ _ _ hroll => exact (roll_clocked (h.write hfile len hzero) hroll).of_le hmore'
  | counts hfile _ hcount => exact (h.write hfile len hcount).of_le hmore
  | checks hfile => exact (h.write hfile len hzero).of_le hmore
  | @flushes written hfile _ _ _ hlate =>
    have hwrite := (h.write hfile len hzero).of_le hmore
    have hle := h.roll_le_flush
    exact { hwrite with roll_le_flush := show s.lastRoll ≤ now by omega }

theorem step_clocked (hn : 1 ≤ cfg.checkEveryN) (hflush : 0 ≤ cfg.flushInterval) {e : Event}
    (h : Clocked cfg readings s) (hstep : step cfg s e = .ok t) :
    Clocked cfg (readings ++ e.readings) t := by
  cases e with
  | append len now r => exact append_clocked hn hflush h (append_move hstep)
  | rollFile r =>
    cases hstep
    exact roll_clocked h (rollFile_move cfg s r)
  | flush =>
    rw [step, flush] at hstep
    split at hstep
    next => cases hstep
    next =>
      cases hstep
      rw [Event.readings, List.append_nil]
      exact { h with }

theorem init_clocked (hn : 1 ≤ cfg.checkEveryN) (r : Reading) :
    Clocked cfg [r.now] (init cfg r) := by
  have hzero : Clocked cfg [] ⟨0, none, 0, 0, 0, []⟩ :=
    ⟨hn, le_rfl, le_rfl, rfl, fun _ hfile => by cases hfile⟩
  exact roll_clocked hzero (rollFile_move cfg _ r)

theorem run_clocked (hn : 1 ≤ cfg.checkEveryN) (hflush : 0 ≤ cfg.flushInterval) {es : List Event}
    (hrun : run (step cfg) (init cfg r) es = .ok s) :
    Clocked cfg (r.now :: es.flatMap Event.readings) s := by
  refine run_induction (I := fun es s => Clocked cfg (r.now :: es.flatMap Event.readings) s)
    (fun pre s e t h hstep => ?_) (init_clocked hn r) hrun
  rw [List.flatMap_append, List.flatMap_singleton, ← List.cons_append]
  exact step_clocked hn hflush h hstep

structure Record where
  len : Nat
  now : Int
  r : Reading

def Record.event (x : Record) : Event := .append x.len x.now x.r

theorem append_calls (hmove : AppendMove cfg s len now r t) :
    (∃ calls, t.calls = s.calls ++ calls) ∧ ∃ written, t.file = some written := by
  cases hmove with
  | hits hfile _ hroll | otherDay hfile _ _ _ hroll =>
    cases hroll with
    | refused => exact ⟨⟨[.append len], rfl⟩, _, rfl⟩
    | rolled => exact ⟨⟨_, List.append_assoc _ _ _⟩, _, rfl⟩
  | counts | checks => exact ⟨⟨[.append len], rfl⟩, _, rfl⟩
  | flushes => exact ⟨⟨_, List.append_assoc _ _ _⟩, _, rfl⟩

theorem appends_total (cfg : Config) (hfile : s.file = some written) (xs : List Record) :
    ∃ t calls, run (step cfg) s (xs.map Record.event) = .ok t ∧ t.calls = s.calls ++ calls := by
  induction xs generalizing s written with
  | nil => exact ⟨s, [], rfl, (List.append_nil _).symm⟩
  | cons x xs ih =>
    obtain ⟨t, ht, hmove⟩ := append_total cfg hfile x.len x.now x.r
    obtain ⟨⟨calls, hcalls⟩, written', hfile'⟩ := append_calls hmove
    obtain ⟨u, calls', hu, hcalls'⟩ := ih hfile'
    refine ⟨u, calls ++ calls', run_cons_ok.mpr ⟨t, ht, hu⟩, ?_⟩
    rw [hcalls', hcalls, List.append_assoc]

theorem append_wanted {wanted : Call → Prop} (hopen : ∀ name, wanted (.openFile name))
    (hroll : s.lastRoll < r.now)
    (hcheck : period now = s.startOfPeriod →
      cfg.flushInterval < now - s.lastFlush ∧ wanted .flush)
    (hmove : AppendMove cfg s len now r t) :
    (((s.count + 1 : Nat) : Int) < cfg.checkEveryN ∧
      ∃ written, t = { write s written len with count := s.count + 1 }) ∨
    ∃ call, t.calls = s.calls ++ [.append len, call] ∧ wanted call := by
  cases hmove with
  | counts _ _ hcount => exact .inl ⟨hcount, _, rfl⟩
  | hits _ _ hmove | otherDay _ _ _ _ hmove =>
    cases hmove with
    | refused hnow => exact absurd hroll (not_lt.mpr hnow)
    | rolled => exact .inr ⟨_, List.append_assoc _ _ _, hopen _⟩
  | flushes _ _ _ hday => exact .inr ⟨_, List.append_assoc _ _ _, (hcheck hday).2⟩
  | checks _ _ _ hday hearly => exact absurd (hcheck hday).1 (not_lt.mpr hearly)

/-- Among as many records as are between two checks, one makes a call that is wanted, if no roll is
refused and every check of the times leads to such a call. -/
theorem window (wanted : Call → Prop) (hopen : ∀ name, wanted (.openFile name)) {xs : List Record}
    (hfile : s.file = some written) (hcount : (s.count : Int) < cfg.checkEveryN)
    (hlength : cfg.checkEveryN ≤ s.count + xs.length)
    (hroll : ∀ x ∈ xs, s.lastRoll < x.r.now)
    (hcheck : ∀ x ∈ xs, period x.now = s.startOfPeriod →
      cfg.flushInterval < x.now - s.lastFlush ∧ wanted .flush) :
    ∃ t calls, run (step cfg) s (xs.map Record.event) = .ok t ∧ t.calls = s.calls ++ calls ∧
      ∃ call ∈ calls, wanted call := by
  induction xs generalizing s written with
  | nil =>
    rw [List.length_nil] at hlength
    omega
  | cons x xs ih =>
    rw [List.forall_mem_cons] at hroll hcheck
    rw [List.length_cons] at hlength
    obtain ⟨t, ht, hmove⟩ := append_total cfg hfile x.len x.now x.r
    have hstep : step cfg s x.event = .ok t := ht
    cases append_wanted hopen hroll.1 hcheck.1 hmove with
    | inl hcounts =>
      obtain ⟨hbelow, written', rfl⟩ := hcounts
      obtain ⟨u, calls, hu, hcalls, call, hmem, hwanted⟩ :=
        ih (s := { write s written' x.len with count := s.count + 1 }) rfl hbelow
          (by simp only; omega) hroll.2 hcheck.2
      refine ⟨u, .append x.len :: calls, run_cons_ok.mpr ⟨_, hstep, hu⟩, ?_, call, .tail _ hmem,
        hwanted⟩
      rw [hcalls, write_calls, List.append_assoc, List.singleton_append]
    | inr hwanted =>
      obtain ⟨call, hcalls, hwanted⟩ := hwanted
      obtain ⟨-, written', hfile'⟩ := append_calls hmove
      obtain ⟨u, calls, hu, hcalls'⟩ := appends_total cfg hfile' xs
      refine ⟨u, [.append x.len, call] ++ calls, run_cons_ok.mpr ⟨t, hstep, hu⟩, ?_, call, by simp,
        hwanted⟩
      rw [hcalls', hcalls, List.append_assoc]

theorem readings_le {first : Int} {pre : List Event} {xs : List Record}
    (h : (first :: (pre ++ xs.map Record.event).flatMap Event.readings).Pairwise (· ≤ ·)) :
    ∀ x ∈ xs, x.now ≤ x.r.now ∧
      ∀ past ∈ first :: pre.flatMap Event.readings, past ≤ x.now := by
  intro x hx
  rw [List.flatMap_append, ← List.cons_append, List.pairwise_append] at h
  obtain ⟨-, hxs, hpast⟩ := h
  have hmem : x.event ∈ xs.map Record.event := List.mem_map_of_mem hx
  have hown := (List.pairwise_flatMap.mp hxs).1 x.event hmem
  refine ⟨List.rel_of_pairwise_cons hown (by simp), fun past hpre => hpast past hpre x.now ?_⟩
  exact List.mem_flatMap.mpr ⟨x.event, hmem, List.mem_cons_self⟩

/-- As many records as are between two checks, all of a later day than the file or all too late for
the last flush, roll the file, or flush it. -/
def CheckedInTime (cfg : Config) (s : State) (xs : List Record) : Prop :=
  ∀ written, s.file = some written →
    ∃ t calls, run (step cfg) s (xs.map Record.event) = .ok t ∧ t.calls = s.calls ++ calls ∧
      (cfg.checkEveryN ≤ xs.length →
        (∀ x ∈ xs, s.startOfPeriod < x.now / kRollPreSeconds * kRollPreSeconds) →
        ∃ name, .openFile name ∈ calls) ∧
      (cfg.checkEveryN ≤ xs.length → (∀ x ∈ xs, s.lastFlush + cfg.flushInterval < x.now) →
        .flush ∈ calls ∨ ∃ name, .openFile name ∈ calls)

/-- This holds after every run in which the clock does not go back, and the count stays below the
bound. -/
theorem checked_in_time {pre : List Event} {xs : List Record} (hn : 1 ≤ cfg.checkEveryN)
    (hflush : 0 ≤ cfg.flushInterval)
    (hclock : (r.now :: (pre ++ xs.map Record.event).flatMap Event.readings).Pairwise (· ≤ ·))
    (hrun : run (step cfg) (init cfg r) pre = .ok s) :
    (s.count : Int) < cfg.checkEveryN ∧ CheckedInTime cfg s xs := by
  have hclocked := run_clocked hn hflush hrun
  have hle := readings_le hclock
  have hcount := hclocked.count_lt
  refine ⟨hcount, fun written hfile => ?_⟩
  obtain ⟨hpos, hread⟩ := hclocked.read written hfile
  have hafter : ∀ x ∈ xs, x.now ≤ x.r.now ∧ s.lastRoll ≤ x.now := fun x hx =>
    ⟨(hle x hx).1, (hle x hx).2 _ hread⟩
  have hstart := hclocked.period_eq
  rw [period_eq hpos.le] at hstart
  obtain ⟨t, calls, ht, hcalls⟩ := appends_total cfg hfile xs
  refine ⟨t, calls, ht, hcalls, fun hlength hday => ?_, fun hlength hlate => ?_⟩
  · have hroll : ∀ x ∈ xs, s.lastRoll < x.r.now := by
      intro x hx
      have hx' := hafter x hx
      have hday' := hday x hx
      simp only [kRollPreSeconds] at hstart hday'
      omega
    have hother : ∀ x ∈ xs, period x.now ≠ s.startOfPeriod := by
      intro x hx
      have hx' := hafter x hx
      have hday' := hday x hx
      rw [period_eq (by omega)]
      omega
    obtain ⟨u, calls', hu, hcalls', call, hmem, name, rfl⟩ :=
      window (fun call => ∃ name, call = .openFile name) (fun name => ⟨name, rfl⟩) hfile
        hcount (by omega) hroll fun x hx hperiod => absurd hperiod (hother x hx)
    cases ht.symm.trans hu
    exact ⟨name, List.append_cancel_left (hcalls.symm.trans hcalls') ▸ hmem⟩
  · have hroll : ∀ x ∈ xs, s.lastRoll < x.r.now := by
      intro x hx
      have hx' := hafter x hx
      have hlate' := hlate x hx
      have hbefore := hclocked.roll_le_flush
      omega
    have hflushes : ∀ x ∈ xs, cfg.flushInterval < x.now - s.lastFlush := by
      intro x hx
      have hlate' := hlate x hx
      omega
    obtain ⟨u, calls', hu, hcalls', call, hmem, hwanted⟩ :=
      window (fun call => call = .flush ∨ ∃ name, call = .openFile name)
        (fun name => .inr ⟨name, rfl⟩) hfile hcount (by omega) hroll
        fun x hx _ => ⟨hflushes x hx, .inl rfl⟩
    cases ht.symm.trans hu
    rw [List.append_cancel_left (hcalls.symm.trans hcalls')]
    obtain rfl | ⟨name, rfl⟩ := hwanted
    · exact .inl hmem
    · exact .inr ⟨name, hmem⟩

def everySecond : Config := ⟨[97, 112, 112], 1000, 3, 2⟩

def opening : Reading := ⟨1700000000, [104], 42⟩

def sameDay : List Event := [.append 5 1700000001 ⟨1700000001, [104], 42⟩]

def nextDay : List Record :=
  [⟨5, 1700100000, ⟨1700100000, [104], 42⟩⟩, ⟨5, 1700100000, ⟨1700100001, [104], 42⟩⟩]

theorem checked_in_time_nextDay : ∃ s,
    run (step everySecond) (init everySecond opening) sameDay = .ok s ∧
      (s.count : Int) < 2 ∧ CheckedInTime everySecond s nextDay :=
  have hn : 1 ≤ everySecond.checkEveryN := by decide
  have hflush : 0 ≤ everySecond.flushInterval := by decide
  have hclock : (opening.now :: (sameDay ++ nextDay.map Record.event).flatMap
    Event.readings).Pairwise (· ≤ ·) := by decide
  ⟨_, rfl, checked_in_time hn hflush hclock rfl⟩

end AcMuduo.LogFile

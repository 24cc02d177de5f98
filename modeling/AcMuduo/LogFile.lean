import AcMuduo.AppendFile
import AcMuduo.GmTime
import AcMuduo.Logging

namespace AcMuduo.LogFile

open Machine LogStream

structure Config where
  basename : List Byte
  rollSize : Int
  flushInterval : Int
  checkEveryN : Int

/-- What `get_log_filename` reads: the clock, and the names of the host and of the process. -/
structure Reading where
  now : Int
  hostName : List Byte
  pid : Int32

inductive Call where
  | openFile (name : List Byte)
  | append (len : Nat)
  | flush

/-- A `log_file` with the `written_bytes()` of `file_`, and the calls that it has made so far. -/
structure State where
  count : Nat
  file : Option Int
  startOfPeriod : Int
  lastRoll : Int
  lastFlush : Int
  calls : List Call

def kRollPreSeconds : Int := 60 * 60 * 24

/-- A time rounded to the day by a division that truncates. -/
def period (now : Int) : Int := now.tdiv kRollPreSeconds * kRollPreSeconds

/-- The text of a time in the format `.%Y%m%d-%H%M%S.` -/
def timebuf (tm : Tm) : List Byte :=
  bytes "." ++ padded 48 4 (convert (tm.year + 1900)) ++ padded 48 2 (convert (tm.mon + 1)) ++
    padded 48 2 (convert tm.mday) ++ bytes "-" ++ padded 48 2 (convert tm.hour) ++
    padded 48 2 (convert tm.min) ++ padded 48 2 (convert tm.sec) ++ bytes "."

def getLogFilename (basename : List Byte) (r : Reading) : List Byte :=
  basename ++ timebuf (gmtime r.now) ++ r.hostName ++ bytes "." ++ convert r.pid.toInt ++
    bytes ".log"

variable (cfg : Config)

def rollFile (s : State) (r : Reading) : State × Bool :=
  let filename := getLogFilename cfg.basename r
  let start := period r.now
  if r.now > s.lastRoll then
    ({ s with
      lastRoll := r.now
      lastFlush := r.now
      startOfPeriod := start
      file := some 0
      calls := s.calls ++ [.openFile filename] }, true)
  else (s, false)

def write (s : State) (written : Int) (len : Nat) : State :=
  { s with file := some (written + len), calls := s.calls ++ [.append len] }

/-- The clock shows `now` when the record is appended, and `r` is read by a `roll_file`. -/
def appendUnlocked (s : State) (len : Nat) (now : Int) (r : Reading) :
    Except (Stop Fault) State :=
  match s.file with
  | none => .error (.fault .nullDereference)
  | some written =>
    let s := write s written len
    if written + len > cfg.rollSize then .ok (rollFile cfg s r).1
    else
      let s := { s with count := s.count + 1 }
      if s.count ≥ cfg.checkEveryN then
        let s := { s with count := 0 }
        let thisPeriod := period now
        if thisPeriod ≠ s.startOfPeriod then .ok (rollFile cfg s r).1
        else if now - s.lastFlush > cfg.flushInterval then
          .ok { s with lastFlush := now, calls := s.calls ++ [.flush] }
        else .ok s
      else .ok s

def flush (s : State) : Except (Stop Fault) State :=
  match s.file with
  | none => .error (.fault .nullDereference)
  | some _ => .ok { s with calls := s.calls ++ [.flush] }

inductive Event where
  | append (len : Nat) (now : Int) (r : Reading)
  | flush
  | rollFile (r : Reading)

def step (s : State) : Event → Except (Stop Fault) State
  | .append len now r => appendUnlocked cfg s len now r
  | .flush => flush s
  | .rollFile r => .ok (rollFile cfg s r).1

def init (r : Reading) : State := (rollFile cfg ⟨0, none, 0, 0, 0, []⟩ r).1

inductive RollMove (s : State) (r : Reading) : State → Prop where
  | refused (hnow : r.now ≤ s.lastRoll) : RollMove s r s
  | rolled (hnow : s.lastRoll < r.now) : RollMove s r { s with
      lastRoll := r.now
      lastFlush := r.now
      startOfPeriod := period r.now
      file := some 0
      calls := s.calls ++ [.openFile (getLogFilename cfg.basename r)] }

inductive AppendMove (s : State) (len : Nat) (now : Int) (r : Reading) : State → Prop where
  | hits {written t} (hfile : s.file = some written) (hsize : cfg.rollSize < written + len)
    (hroll : RollMove cfg (write s written len) r t) : AppendMove s len now r t
  | counts {written} (hfile : s.file = some written) (hsize : written + len ≤ cfg.rollSize)
    (hcount : (s.count + 1 : Nat) < cfg.checkEveryN) :
    AppendMove s len now r { write s written len with count := s.count + 1 }
  | otherDay {written t} (hfile : s.file = some written) (hsize : written + len ≤ cfg.rollSize)
    (hcount : cfg.checkEveryN ≤ (s.count + 1 : Nat)) (hday : period now ≠ s.startOfPeriod)
    (hroll : RollMove cfg { write s written len with count := 0 } r t) : AppendMove s len now r t
  | flushes {written} (hfile : s.file = some written) (hsize : written + len ≤ cfg.rollSize)
    (hcount : cfg.checkEveryN ≤ (s.count + 1 : Nat)) (hday : period now = s.startOfPeriod)
    (hlate : cfg.flushInterval < now - s.lastFlush) :
    AppendMove s len now r { write s written len with
      count := 0, lastFlush := now, calls := (write s written len).calls ++ [.flush] }
  | checks {written} (hfile : s.file = some written) (hsize : written + len ≤ cfg.rollSize)
    (hcount : cfg.checkEveryN ≤ (s.count + 1 : Nat)) (hday : period now = s.startOfPeriod)
    (hearly : now - s.lastFlush ≤ cfg.flushInterval) :
    AppendMove s len now r { write s written len with count := 0 }

variable {cfg} {s t : State} {len : Nat} {now : Int} {r : Reading}

theorem period_eq (h : 0 ≤ now) : period now = now / kRollPreSeconds * kRollPreSeconds := by
  rw [period, Int.tdiv_eq_ediv_of_nonneg h]

@[simp] theorem write_count (s : State) (written : Int) (len : Nat) :
    (write s written len).count = s.count := rfl

@[simp] theorem write_startOfPeriod (s : State) (written : Int) (len : Nat) :
    (write s written len).startOfPeriod = s.startOfPeriod := rfl

@[simp] theorem write_lastRoll (s : State) (written : Int) (len : Nat) :
    (write s written len).lastRoll = s.lastRoll := rfl

@[simp] theorem write_lastFlush (s : State) (written : Int) (len : Nat) :
    (write s written len).lastFlush = s.lastFlush := rfl

@[simp] theorem write_calls (s : State) (written : Int) (len : Nat) :
    (write s written len).calls = s.calls ++ [.append len] := rfl

theorem write_file {results : Nat → FileUtils.Result} {logline : List Byte} {written : Int}
    (hpossible : FileUtils.AppendFile.Possible results logline.length)
    (herror : ∀ k, (results k).error = false) (s : State) (f : FileUtils.AppendFile)
    (hwritten : f.writtenBytes = written) : ∃ f', f.append results logline = some f' ∧
      (write s written logline.length).file = some f'.writtenBytes := by
  refine ⟨_, FileUtils.AppendFile.append_of_no_error f hpossible herror, ?_⟩
  rw [hwritten]
  rfl

theorem rollFile_move (cfg : Config) (s : State) (r : Reading) :
    RollMove cfg s r (rollFile cfg s r).1 := by
  rw [rollFile]
  by_cases hnow : s.lastRoll < r.now
  · rw [if_pos hnow]
    exact .rolled hnow
  · rw [if_neg hnow]
    exact .refused (not_lt.mp hnow)

theorem append_total (cfg : Config) {written : Int} (hfile : s.file = some written) (len : Nat)
    (now : Int) (r : Reading) :
    ∃ t, appendUnlocked cfg s len now r = .ok t ∧ AppendMove cfg s len now r t := by
  rw [appendUnlocked, hfile]
  by_cases hsize : written + len > cfg.rollSize
  · exact ⟨_, if_pos hsize, .hits hfile hsize (rollFile_move cfg _ r)⟩
  have hle := not_lt.mp hsize
  by_cases hcount : ((s.count + 1 : Nat) : Int) ≥ cfg.checkEveryN
  · by_cases hday : period now = s.startOfPeriod
    · by_cases hlate : now - s.lastFlush > cfg.flushInterval
      · exact ⟨_, (if_neg hsize).trans ((if_pos hcount).trans
          ((if_neg (not_not.mpr hday)).trans (if_pos hlate))), .flushes hfile hle hcount hday hlate⟩
      · exact ⟨_, (if_neg hsize).trans ((if_pos hcount).trans
          ((if_neg (not_not.mpr hday)).trans (if_neg hlate))),
          .checks hfile hle hcount hday (not_lt.mp hlate)⟩
    · exact ⟨_, (if_neg hsize).trans ((if_pos hcount).trans (if_pos hday)),
        .otherDay hfile hle hcount hday (rollFile_move cfg _ r)⟩
  · exact ⟨_, (if_neg hsize).trans (if_neg hcount), .counts hfile hle (not_le.mp hcount)⟩

theorem append_move (h : appendUnlocked cfg s len now r = .ok t) :
    AppendMove cfg s len now r t := by
  cases hfile : s.file with
  | none =>
    rw [appendUnlocked, hfile] at h
    cases h
  | some written =>
    obtain ⟨u, hu, hmove⟩ := append_total cfg hfile len now r
    cases h.symm.trans hu
    exact hmove

end AcMuduo.LogFile

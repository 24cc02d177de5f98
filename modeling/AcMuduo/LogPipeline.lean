import AcMuduo.AsyncHistory
import AcMuduo.LogFileRolls

namespace AcMuduo.LogPipeline

open Machine AsyncLogging

def Chunk.bytes : Chunk → List Byte
  | .notice bytes | .buffer bytes => bytes

/-- A `log_file`, and the names and contents of the files that it has opened, in that order. -/
structure Files where
  file : LogFile.State
  disk : List (List Byte × List Byte)

def writeLast (disk : List (List Byte × List Byte)) (bytes : List Byte) :
    List (List Byte × List Byte) :=
  match disk.getLast? with
  | none => []
  | some (name, contents) => disk.dropLast ++ [(name, contents ++ bytes)]

def newFiles (before after : LogFile.State) : List (List Byte × List Byte) :=
  ((LogFile.opened after).drop (LogFile.opened before).length).map fun name => (name, [])

variable (cfg : LogFile.Config)

def Files.init (r : LogFile.Reading) : Files :=
  ⟨LogFile.init cfg r, (LogFile.opened (LogFile.init cfg r)).map fun name => (name, [])⟩

def Files.append (f : Files) (bytes : List Byte) (now : Int) (r : LogFile.Reading) :
    Except (Stop Fault) Files := do
  let file ← LogFile.appendUnlocked cfg f.file bytes.length now r
  .ok ⟨file, writeLast f.disk bytes ++ newFiles f.file file⟩

def Files.flush (f : Files) : Except (Stop Fault) Files := do
  let file ← LogFile.flush f.file
  .ok { f with file := file }

structure Event where
  event : AsyncLogging.Event
  now : Int
  reading : LogFile.Reading

structure State where
  log : AsyncLogging.State
  files : Option Files

def State.init : State := ⟨.init, none⟩

def given (s t : AsyncLogging.State) : List Chunk :=
  t.output.written.drop s.output.written.length

def State.theFiles (s : State) : Except (Stop Fault) Files :=
  match s.files with
  | some f => .ok f
  | none => .error (.fault .nullDereference)

def output (s : State) (t : AsyncLogging.State) (e : Event) : Except (Stop Fault) (Option Files) :=
  match e.event with
  | .enter => .ok (some (Files.init cfg e.reading))
  | .overload _ | .write => do
    let f ← s.theFiles
    let f ← (given s.log t).foldlM
      (fun (f : Files) chunk => f.append cfg (Chunk.bytes chunk) e.now e.reading) f
    .ok (some f)
  | .flush => do
    let f ← s.theFiles
    let f ← f.flush
    .ok (some f)
  | _ => .ok s.files

def step (s : State) (e : Event) : Except (Stop Fault) State := do
  let log ← AsyncLogging.step s.log e.event
  let files ← output cfg s log e
  .ok ⟨log, files⟩

def State.disk (s : State) : List (List Byte × List Byte) := s.files.elim [] Files.disk

variable {cfg} {s t : State} {f g : Files} {written : List Chunk} {r : LogFile.Reading} {now : Int}

/-- The files hold the chunks, each of them whole in one file. -/
structure Holds (cfg : LogFile.Config) (f : Files) (written : List Chunk) : Prop where
  named : LogFile.Named cfg f.file
  isOpen : ∃ n, f.file.file = some n
  names : f.disk.map Prod.fst = LogFile.opened f.file
  contents : ∃ groups : List (List Chunk), groups ≠ [] ∧ groups.flatten = written ∧
    f.disk.map Prod.snd = groups.map fun group => group.flatMap Chunk.bytes

theorem map_fst_pair (names : List (List Byte)) :
    (names.map fun name => (name, ([] : List Byte))).map Prod.fst = names := by
  simp [Function.comp_def]

theorem holds_init (hr : r.Valid) : Holds cfg (Files.init cfg r) [] := by
  obtain ⟨hnamed, hopened, hfile⟩ := LogFile.init_named cfg hr
  refine ⟨hnamed, ⟨0, hfile⟩, map_fst_pair _, [[]], by simp, rfl, ?_⟩
  simp [Files.init, hopened]

theorem writeLast_append (disk : List (List Byte × List Byte)) (name contents bytes : List Byte) :
    writeLast (disk ++ [(name, contents)]) bytes = disk ++ [(name, contents ++ bytes)] := by
  simp [writeLast]

theorem Holds.write (h : Holds cfg f written) (chunk : Chunk) :
    (writeLast f.disk (Chunk.bytes chunk)).map Prod.fst = f.disk.map Prod.fst ∧
    ∃ groups : List (List Chunk), groups ≠ [] ∧ groups.flatten = written ++ [chunk] ∧
      (writeLast f.disk (Chunk.bytes chunk)).map Prod.snd =
        groups.map fun group => group.flatMap Chunk.bytes := by
  obtain ⟨groups, hne, hflatten, hdisk⟩ := h.contents
  obtain ⟨init, last, rfl⟩ := (List.eq_nil_or_concat groups).resolve_left hne
  rw [List.concat_eq_append] at hflatten hdisk
  rw [List.map_append, List.map_cons, List.map_nil] at hdisk
  obtain ⟨before, final, heq, hbefore, hfinal⟩ := List.map_eq_append_iff.mp hdisk
  obtain ⟨⟨name, contents⟩, rfl, hcontents⟩ := List.map_eq_singleton_iff.mp hfinal
  rw [heq, writeLast_append]
  refine ⟨by simp, init ++ [last ++ [chunk]], by simp, by simp [← hflatten], ?_⟩
  dsimp only at hcontents
  simp [hbefore, hcontents]

theorem newFiles_of_forward {a b : LogFile.State} (h : LogFile.RollsForward a b) :
    LogFile.opened b = LogFile.opened a ++ (newFiles a b).map Prod.fst ∧
    ∃ groups : List (List Chunk), groups.flatten = [] ∧
      (newFiles a b).map Prod.snd = groups.map fun group => group.flatMap Chunk.bytes := by
  cases h with
  | inl hsame =>
    obtain ⟨hopened, -⟩ := hsame
    refine ⟨?_, [], rfl, ?_⟩ <;> simp [newFiles, hopened]
  | inr hroll =>
    obtain ⟨name, hopened, -⟩ := hroll
    refine ⟨?_, [[]], rfl, ?_⟩ <;> simp [newFiles, hopened]

theorem Holds.append (h : Holds cfg f written) (hr : r.Valid) {chunk : Chunk}
    (hg : f.append cfg (Chunk.bytes chunk) now r = .ok g) : Holds cfg g (written ++ [chunk]) := by
  obtain ⟨file, hfile, hg⟩ := bind_eq_ok.mp hg
  cases hg
  obtain ⟨hnamed, hforward, hopen⟩ := LogFile.append_named h.named hr (LogFile.append_move hfile)
  obtain ⟨hnames, groups, hne, hflatten, hdisk⟩ := h.write chunk
  obtain ⟨hopened, more, hmore, hnew⟩ := newFiles_of_forward hforward
  refine ⟨hnamed, hopen, ?_, groups ++ more, by simp [hne], ?_, ?_⟩
  · rw [List.map_append, hnames, h.names, hopened]
  · rw [List.flatten_append, hflatten, hmore, List.append_nil]
  · rw [List.map_append, hdisk, hnew, List.map_append]

theorem Holds.flush (h : Holds cfg f written) (hg : f.flush = .ok g) : Holds cfg g written := by
  obtain ⟨file, hfile, hg⟩ := bind_eq_ok.mp hg
  cases hg
  obtain ⟨n, hn⟩ := h.isOpen
  rw [LogFile.flush, hn] at hfile
  cases hfile
  have hsame := LogFile.same_flush f.file f.file.count f.file.lastFlush
  exact ⟨h.named.of_same hsame, ⟨n, rfl⟩, h.names.trans hsame.1.symm, h.contents⟩

def Entered : Pc → Prop
  | .notStarted | .launched => False
  | _ => True

structure Piped (cfg : LogFile.Config) (s : State) : Prop where
  rotation : Rotation s.log
  files : ∀ f, s.files = some f → Entered s.log.pc ∧ Holds cfg f s.log.output.written
  closed : s.files = none → ¬ Entered s.log.pc ∧ s.log.output.written = []

theorem Piped.theFiles (h : Piped cfg s) (hpc : Entered s.log.pc) :
    ∃ f, s.files = some f ∧ s.theFiles = .ok f ∧ Holds cfg f s.log.output.written := by
  cases hf : s.files with
  | none => exact absurd hpc (h.closed hf).1
  | some f => exact ⟨f, rfl, by rw [State.theFiles, hf], (h.files f hf).2⟩

theorem Piped.keep (h : Piped cfg s) {log : AsyncLogging.State} (hrot : Rotation log)
    (hpc : Entered log.pc ↔ Entered s.log.pc)
    (hwritten : log.output.written = s.log.output.written) : Piped cfg ⟨log, s.files⟩ := by
  refine ⟨hrot, fun f hf => ?_, fun hf => ?_⟩
  · simp only [hpc, hwritten]
    exact h.files f hf
  · simp only [hpc, hwritten]
    exact h.closed hf

theorem Piped.write (h : Piped cfg s) {log : AsyncLogging.State} {chunk : Chunk}
    (hrot : Rotation log) (hpc : Entered s.log.pc) (hpc' : Entered log.pc) (hr : r.Valid)
    (hwritten : log.output.written = s.log.output.written ++ [chunk]) {files : Option Files}
    (hout : (do
      let f ← s.theFiles
      let f ← (given s.log log).foldlM
        (fun (f : Files) chunk => f.append cfg (Chunk.bytes chunk) now r) f
      .ok (some f)) = .ok files) : Piped cfg ⟨log, files⟩ := by
  obtain ⟨f, -, htheFiles, hholds⟩ := h.theFiles hpc
  have hgiven : given s.log log = [chunk] := by simp [given, hwritten]
  rw [htheFiles, hgiven] at hout
  obtain ⟨f', hf', hout⟩ := bind_eq_ok.mp hout
  cases hf'
  obtain ⟨g, hg, hout⟩ := bind_eq_ok.mp hout
  cases hout
  rw [List.foldlM_cons] at hg
  obtain ⟨g', hg', hg⟩ := bind_eq_ok.mp hg
  cases hg
  refine ⟨hrot, fun f' heq => ?_, nofun⟩
  cases heq
  rw [hwritten]
  exact ⟨hpc', hholds.append hr hg'⟩

theorem Piped.flush (h : Piped cfg s) {log : AsyncLogging.State} (hrot : Rotation log)
    (hpc : Entered s.log.pc) (hpc' : Entered log.pc)
    (hwritten : log.output.written = s.log.output.written) {files : Option Files}
    (hout : (do
      let f ← s.theFiles
      let f ← f.flush
      .ok (some f)) = .ok files) : Piped cfg ⟨log, files⟩ := by
  obtain ⟨f, -, htheFiles, hholds⟩ := h.theFiles hpc
  rw [htheFiles] at hout
  obtain ⟨f', hf', hout⟩ := bind_eq_ok.mp hout
  cases hf'
  obtain ⟨g, hg, hout⟩ := bind_eq_ok.mp hout
  cases hout
  refine ⟨hrot, fun f' heq => ?_, nofun⟩
  cases heq
  rw [hwritten]
  exact ⟨hpc', hholds.flush hg⟩

theorem Piped.of_step (h : Piped cfg s) {e : Event} (hr : e.reading.Valid)
    (ht : step cfg s e = .ok t) : Piped cfg t := by
  obtain ⟨event, now, r⟩ := e
  obtain ⟨log, hlog, ht⟩ := bind_eq_ok.mp ht
  obtain ⟨files, hout, ht⟩ := bind_eq_ok.mp ht
  cases ht
  have hmove := move_of_step h.rotation hlog
  have hrot := hmove.rotation h.rotation
  cases hmove with
  | appendFits _ _ | appendFull _ _ | started _ _ | stop _ | join _ _ =>
    cases hout
    exact h.keep hrot Iff.rfl rfl
  | start howner =>
    have hpc := h.rotation.started
    rw [howner] at hpc
    cases hout
    exact h.keep hrot (by simp [hpc.pc_of_idle.1, Entered]) rfl
  | enter hpc =>
    cases hout
    have hnone : s.files = none := by
      cases hf : s.files with
      | none => rfl
      | some f =>
        have hentered := (h.files f hf).1
        rw [hpc] at hentered
        exact hentered.elim
    refine ⟨hrot, fun f hf => ?_, nofun⟩
    cases hf
    exact ⟨trivial, (h.closed hnone).2 ▸ holds_init hr⟩
  | iterate hpc _ | leave hpc _ | wait hpc _ | refill hpc =>
    cases hout
    exact h.keep hrot (by simp [hpc, Entered]) rfl
  | swap hpc _ | wake hpc =>
    cases hout
    exact h.keep hrot (by simp [hpc, Entered]) (by rw [swap_output])
  | drop hpc _ =>
    exact h.write hrot (by simp [hpc, Entered]) trivial hr rfl hout
  | keep hpc _ =>
    obtain ⟨f, hf, htheFiles, -⟩ := h.theFiles (by simp [hpc, Entered])
    have hsame : files = s.files := by
      simp only [output, htheFiles, given, List.drop_length, List.foldlM_nil] at hout
      rw [hf]
      exact (Except.ok.inj hout).symm
    rw [hsame]
    exact h.keep hrot (by simp [hpc, Entered]) rfl
  | write hpc => exact h.write hrot (by simp [hpc, Entered]) trivial hr rfl hout
  | flush hpc | finalFlush hpc =>
    exact h.flush hrot (by simp [hpc, Entered]) trivial rfl hout

end AcMuduo.LogPipeline

import AcMuduo.AsyncHistory

namespace AcMuduo.AsyncLogging

open Machine

variable {s t : State} {e : Event} {lines : List (List Byte)} {batches : List (List (List Byte))}

def Awaits (s : State) : Prop := s.pc = .locking ∨ s.pc = .waiting

structure Stopping (s : State) : Prop where
  running : s.running = false
  owner : s.owner = .stopping ∨ s.owner = .stopped ∧ s.pc = .done

theorem Move.stopping (h : Move s e t) (hs : Stopping s) : Stopping t := by
  obtain ⟨hr, ho⟩ := hs
  cases h with
  | start howner | started howner _ | stop howner =>
    simp [howner] at ho
  | iterate hpc hrunning => simp [hr] at hrunning
  | join howner hpc => exact ⟨hr, .inr ⟨rfl, hpc⟩⟩
  | appendFits _ _ | appendFull _ _ => exact ⟨hr, ho⟩
  | swap hpc _ | wake hpc =>
    have ho' : s.owner = .stopping := by simpa [hpc] using ho
    exact ⟨by simpa using hr, .inl (by simpa using ho')⟩
  | enter hpc | leave hpc _ | wait hpc _ | drop hpc _ | keep hpc _ | write hpc | refill hpc
  | flush hpc | finalFlush hpc => exact ⟨hr, .inl (by simpa [hpc] using ho)⟩

theorem Move.awaits (h : Move s e t) (hs : Stopping s) (ht : Awaits t) : Awaits s := by
  cases h with
  | iterate hpc hrunning => simp [hs.running] at hrunning
  | wait hpc _ | swap hpc _ => exact .inl hpc
  | wake hpc => exact .inr hpc
  | appendFits _ _ | appendFull _ _ | started _ _ | stop _ | join _ _ => exact ht
  | _ => simp [Awaits] at ht

theorem Move.taken_eq_nil (h : Move s e t) (hs : ¬ Awaits s) : taken s e t = [] := by
  cases h with
  | wait hpc _ | swap hpc _ => exact absurd (.inl hpc) hs
  | wake hpc => exact absurd (.inr hpc) hs
  | _ => rfl

theorem Move.held_eq_nil (h : Move s e t) (hr : Rotation s) (hs : Awaits s) (ht : ¬ Awaits t) :
    (held t).flatten = [] := by
  obtain ⟨hnew, _, hbatch⟩ := hr.spared hs
  have hswap : (held (AsyncLogging.swap s)).flatten = [] := by simp [held, hnew, hbatch]
  cases h with
  | swap _ _ | wake _ => exact hswap
  | wait _ _ => exact absurd (.inr rfl) ht
  | appendFits _ _ | appendFull _ _ | started _ _ | stop _ | join _ _ => exact absurd hs ht
  | start howner =>
    have hstarted := hr.started
    rw [howner] at hstarted
    rcases hs with hpc | hpc <;> simp [hstarted.pc_of_idle.1] at hpc
  | enter hpc | iterate hpc _ | leave hpc _ | drop hpc _ | keep hpc _ | write hpc | refill hpc
  | flush hpc | finalFlush hpc => rcases hs with h | h <;> simp [h] at hpc

def LogFile.flushedData (f : LogFile) : List Byte :=
  (f.written.take f.flushed).flatMap Chunk.data

def Flushed (s : State) : Prop := s.pc = .done → s.output.flushed = s.output.written.length

theorem Move.flushed (h : Move s e t) (hs : Flushed s) : Flushed t := by
  cases h with
  | finalFlush hpc => exact fun _ => rfl
  | swap hpc _ | wake hpc => simp [Flushed]
  | appendFits _ _ | appendFull _ _ | started _ _ | stop _ | join _ _ => exact hs
  | _ => exact fun h => nomatch h

theorem run_flushed {es : List Event} (hrun : run step .init es = .ok s) : Flushed s :=
  run_keeps (fun _ _ _ _ hs hm => hm.flushed hs) rotation_init (fun h => nomatch h) hrun

/-- The log file keeps what was logged before `stop`. The back end has taken all of it, and the
file has what the overload rule leaves of the batches. -/
def StopKeeps (pre post : List Event) (s : State) : Prop :=
  (observe step appended .init pre).flatten <+:
    (observe step taken .init (pre ++ .stop :: post)).flatten.flatten ∧
  s.output.flushedData =
    ((observe step taken .init (pre ++ .stop :: post)).map kept).flatten.flatten

section Stop

variable {pre post : List Event} {a b : State}

theorem taken_after_stop (hrot : Rotation b) (hstop : Stopping b) (hb : ¬ Awaits b) :
    observe step taken b post = [] := by
  refine observe_eq_nil (I := fun s => Rotation s ∧ Stopping s ∧ ¬ Awaits s)
    (fun s e t hs he => ?_) ⟨hrot, hstop, hb⟩
  have hm := move_of_step hs.1 he
  exact ⟨⟨hm.rotation hs.1, hm.stopping hs.2.1, fun ht => hs.2.2 (hm.awaits hs.2.1 ht)⟩,
    hm.taken_eq_nil hs.2.2⟩

theorem run_stopping (hrot : Rotation b) (hstop : Stopping b) (hrun : run step b post = .ok s) :
    Stopping s :=
  run_keeps (fun _ _ _ _ hs hm => hm.stopping hs) hrot hstop hrun

theorem Logged.flatten_eq (h : Logged lines batches s) :
    lines.flatten = batches.flatten.flatten ++ (held s).flatten := by
  obtain ⟨batchParts, heldParts, hg⟩ := h.grouped
  exact hg.flatten_eq

theorem Logged.flushedData_eq (h : Logged lines batches s) (hdone : s.pc = .done)
    (hflushed : s.output.flushed = s.output.written.length) :
    s.output.flushedData = (batches.map kept).flatten.flatten := by
  have hw := h.written
  simp only [stillToWrite, hdone, List.flatMap_nil, List.append_nil] at hw
  rw [← hw, LogFile.flushedData, hflushed, List.take_length, LogFile.data]

def Covered (bytes : List Byte) (lines : List (List Byte)) (batches : List (List (List Byte)))
    (s : State) : Prop :=
  Logged lines batches s ∧ bytes <+: lines.flatten ∧
    (Awaits s ∨ bytes <+: batches.flatten.flatten)

theorem Covered.step {bytes : List Byte} (h : Covered bytes lines batches s)
    (he : ∀ logline, e = .append logline → logline.length < kLargeBuffer)
    (ht : step s e = .ok t) :
    Covered bytes (lines ++ appended s e t) (batches ++ taken s e t) t := by
  obtain ⟨hlog, hlines, hcov⟩ := h
  have hm := move_of_step hlog.rotation ht
  have hlog' := hm.logged hlog he
  have hlines' : bytes <+: (lines ++ appended s e t).flatten := by
    rw [List.flatten_append]
    exact hlines.trans (List.prefix_append _ _)
  refine ⟨hlog', hlines', ?_⟩
  cases hcov with
  | inl hs =>
    by_cases haw : Awaits t
    · exact .inl haw
    · rw [hlog'.flatten_eq, hm.held_eq_nil hlog.rotation hs haw, List.append_nil] at hlines'
      exact .inr hlines'
  | inr hbytes =>
    refine .inr (hbytes.trans ?_)
    rw [List.flatten_append, List.flatten_append]
    exact List.prefix_append _ _

theorem Logged.covered (h : Logged lines batches s)
    (hcond : Awaits s ∨ (held s).flatten = []) : Covered lines.flatten lines batches s := by
  refine ⟨h, List.prefix_refl _, hcond.imp id fun hnil => ?_⟩
  have htook := h.flatten_eq
  rw [hnil, List.append_nil] at htook
  exact ⟨[], by rw [htook, List.append_nil]⟩

/-- `stop` keeps what was logged before it exactly when the back end is between its loop test and
its swap at the store to `running_`, or `buffers_` and `current_buffer_` hold no byte then. -/
theorem stop_keeps_iff
    (hlines : ∀ logline, Event.append logline ∈ pre ++ .stop :: post →
      logline.length < kLargeBuffer)
    (hpre : run step .init pre = .ok a) (hrun : run step .init (pre ++ .stop :: post) = .ok s)
    (hreturned : s.owner = .stopped) :
    StopKeeps pre post s ↔ Awaits a ∨ (held a).flatten = [] := by
  obtain ⟨a', ha', hrest⟩ := run_append_ok.mp hrun
  rw [hpre, Except.ok.injEq] at ha'
  subst ha'
  obtain ⟨b, hb, hpost⟩ := run_cons_ok.mp hrest
  have hlogged := run_logged (fun l hl => hlines l (List.mem_append_left _ hl)) hpre
  have hmove := move_of_step hlogged.rotation hb
  obtain ⟨hstop, hpc⟩ : Stopping b ∧ b.pc = a.pc := by
    cases hmove with
    | stop howner => exact ⟨⟨rfl, .inl rfl⟩, rfl⟩
  have hdone : s.pc = .done := by
    have hs := (run_stopping (hmove.rotation hlogged.rotation) hstop hpost).owner
    simpa [hreturned] using hs
  have htaken : observe step taken .init (pre ++ .stop :: post) =
      observe step taken .init pre ++ observe step taken b post := by
    rw [observe_append hpre, observe_cons hb]
    rfl
  constructor
  · rintro ⟨hkept, _⟩
    by_contra hcond
    rw [not_or] at hcond
    have hnil : observe step taken b post = [] :=
      taken_after_stop (hmove.rotation hlogged.rotation) hstop (by rw [Awaits, hpc]; exact hcond.1)
    rw [htaken, hnil, List.append_nil, hlogged.flatten_eq] at hkept
    have hlen := hkept.length_le
    rw [List.length_append] at hlen
    exact hcond.2 (List.length_eq_zero_iff.mp (by omega))
  · intro hcond
    refine ⟨?_, (run_logged hlines hrun).flushedData_eq hdone (run_flushed hrun hdone)⟩
    have hshort := throughout_short (s := a) fun l hl => hlines l (List.mem_append_right pre hl)
    obtain ⟨_, _, hcov⟩ :=
      run_history (fun _ _ _ _ _ h => h.step) (hlogged.covered hcond) hshort hrest
    rw [observe_append hpre]
    exact hcov.resolve_left (by simp [Awaits, hdone])

end Stop

def stopWhileWaiting : List Event :=
  [.start, .enter, .started, .test, .lock, .append [104, 105, 10]]

def lastIteration : List Event :=
  [.wake, .overload "", .write, .refill, .flush, .test, .flush, .join]

theorem stop_keeps_iff_stopWhileWaiting :
    ∃ s, run step .init (stopWhileWaiting ++ .stop :: lastIteration) = .ok s ∧
      StopKeeps stopWhileWaiting lastIteration s := by
  have hpre : run step .init stopWhileWaiting = .ok _ := rfl
  have hrun : run step .init (stopWhileWaiting ++ .stop :: lastIteration) = .ok _ := rfl
  refine ⟨_, rfl, (stop_keeps_iff ?_ hpre hrun rfl).mpr (.inl (.inr rfl))⟩
  simp [stopWhileWaiting, lastIteration, kLargeBuffer]

/-- A line is logged before the back end enters its first iteration. -/
def stopBeforeIteration : List Event := [.start, .enter, .started, .append [104, 105, 10]]

theorem stop_loses_line :
    ¬ ∀ pre post s, (∀ logline, Event.append logline ∈ pre ++ .stop :: post →
        logline.length < kLargeBuffer) →
      run step .init (pre ++ .stop :: post) = .ok s → s.owner = .stopped →
      StopKeeps pre post s := by
  intro h
  have hkeeps := h stopBeforeIteration [.test, .flush, .join] _
    (by simp [stopBeforeIteration, kLargeBuffer]) rfl rfl
  have hlen := hkeeps.1.length_le
  exact absurd hlen (by decide)

end AcMuduo.AsyncLogging

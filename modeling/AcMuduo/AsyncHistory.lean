import AcMuduo.AsyncRotation
import AcMuduo.Grouping

namespace AcMuduo.AsyncLogging

open Machine

variable {s t : State} {e : Event} {lines : List (List Byte)} {batches : List (List (List Byte))}

def appended (_ : State) (e : Event) (_ : State) : List (List Byte) :=
  match e with
  | .append logline => [logline]
  | _ => []

def taken (s : State) (e : Event) (t : State) : List (List (List Byte)) :=
  match e with
  | .lock => if s.buffers.isEmpty then [] else [t.buffersToWrite.map BufferPtr.data]
  | .wake => [t.buffersToWrite.map BufferPtr.data]
  | _ => []

/-- The overload rule: of more than 25 buffers all but two are dropped. -/
def kept {α : Type} (batch : List α) : List α := if batch.length > 25 then batch.take 2 else batch

def Chunk.data : Chunk → List Byte
  | .notice _ => []
  | .buffer bytes => bytes

/-- The bytes written to the log file, the drop notices taken out. -/
def LogFile.data (f : LogFile) : List Byte := f.written.flatMap Chunk.data

def stillToWrite (s : State) : List BufferPtr :=
  match s.pc with
  | .swapped => kept s.buffersToWrite
  | .writing rest => rest
  | _ => []

def held (s : State) : List (List Byte) :=
  s.buffers.map BufferPtr.data ++ [s.currentBuffer.data]

theorem kept_map {α β : Type} (f : α → β) (l : List α) : kept (l.map f) = (kept l).map f := by
  simp only [kept]
  rw [List.length_map]
  split
  · rw [List.map_take]
  · rfl

@[simp] theorem append_data (f : LogFile) (c : Chunk) : (f.append c).data = f.data ++ c.data := by
  simp [LogFile.data, LogFile.append]

@[simp] theorem flush_data (f : LogFile) : f.flush.data = f.data := rfl

structure Logged (lines : List (List Byte)) (batches : List (List (List Byte))) (s : State) :
    Prop where
  rotation : Rotation s
  grouped : ∃ batchParts heldParts, Grouped lines batches (held s) batchParts heldParts
  written : s.output.data ++ (stillToWrite s).flatMap BufferPtr.data =
    (batches.map kept).flatten.flatten

theorem logged_init : Logged [] [] .init :=
  ⟨rotation_init, ⟨_, _, .nil⟩, rfl⟩

theorem Logged.swap (h : Logged lines batches s) (hpc : s.pc = .locking ∨ s.pc = .waiting) :
    Logged lines (batches ++ [(swap s).buffersToWrite.map BufferPtr.data]) (swap s) := by
  obtain ⟨hnew, _, hbatch⟩ := h.rotation.spared hpc
  refine ⟨h.rotation.swap hpc, ?_, ?_⟩
  · obtain ⟨batchParts, heldParts, hg⟩ := h.grouped
    have hheld : held (AsyncLogging.swap s) = [[]] := by
      simp [held, hnew, hbatch]
    have hbuffers : (AsyncLogging.swap s).buffersToWrite.map BufferPtr.data = held s := by
      simp [held]
    rw [hheld, hbuffers]
    exact ⟨_, _, hg.take⟩
  · have hw := h.written
    have hnil : stillToWrite s = [] := by
      rw [stillToWrite]
      rcases hpc with hpc | hpc <;> rw [hpc]
    rw [hnil, List.flatMap_nil, List.append_nil] at hw
    simp only [stillToWrite, swap_pc, swap_output, hw, List.map_append, List.flatten_append,
      List.map_cons, List.map_nil, kept_map, List.flatMap_def]
    simp

theorem Move.logged (h : Move s e t) (hs : Logged lines batches s)
    (he : ∀ logline, e = .append logline → logline.length < kLargeBuffer) :
    Logged (lines ++ appended s e t) (batches ++ taken s e t) t := by
  have hrot := h.rotation hs.rotation
  obtain ⟨batchParts, heldParts, hg⟩ := hs.grouped
  have hw := hs.written
  cases h with
  | @appendFits logline b hcur hfit =>
    rw [held, hcur] at hg
    obtain ⟨heldParts', hg'⟩ := hg.extend logline
    simp only [appended, taken, List.append_nil]
    refine ⟨hrot, ⟨batchParts, heldParts', ?_⟩, hw⟩
    simpa [held, FixedBuffer.append_data hfit] using hg'
  | @appendFull logline b hcur hfit =>
    rw [held, hcur] at hg
    have hfresh : logline.length < (FixedBuffer.empty : Buffer).avail := by
      simpa using he logline rfl
    simp only [appended, taken, List.append_nil]
    refine ⟨hrot, ⟨batchParts, heldParts ++ [[logline]], ?_⟩, hw⟩
    simpa [held, FixedBuffer.append_data hfresh] using hg.push logline
  | swap hpc hbuffers =>
    have hempty : s.buffers.isEmpty = false := List.isEmpty_eq_false_iff.mpr hbuffers
    simp only [appended, taken, hempty, List.append_nil]
    exact hs.swap (.inl hpc)
  | wake hpc =>
    simp only [appended, taken, List.append_nil]
    exact hs.swap (.inr hpc)
  | wait hpc hbuffers =>
    have hempty : s.buffers.isEmpty = true := List.isEmpty_iff.mpr hbuffers
    simp only [appended, taken, hempty, ↓reduceIte, List.append_nil]
    refine ⟨hrot, ⟨_, _, hg⟩, ?_⟩
    simpa [stillToWrite, hpc] using hw
  | start howner =>
    have hstarted := hs.rotation.started
    rw [howner] at hstarted
    simp only [appended, taken, List.append_nil]
    refine ⟨hrot, ⟨_, _, hg⟩, ?_⟩
    simpa [stillToWrite, hstarted.pc_of_idle.1] using hw
  | drop hpc hlen =>
    simp only [appended, taken, List.append_nil]
    refine ⟨hrot, ⟨_, _, hg⟩, ?_⟩
    simpa [stillToWrite, hpc, kept, hlen, Chunk.data] using hw
  | keep hpc hlen =>
    simp only [appended, taken, List.append_nil]
    refine ⟨hrot, ⟨_, _, hg⟩, ?_⟩
    simpa [stillToWrite, hpc, kept, Nat.not_lt.mpr hlen] using hw
  | write hpc | refill hpc | flush hpc | finalFlush hpc | enter hpc | iterate hpc _ | leave hpc _ =>
    simp only [appended, taken, List.append_nil]
    refine ⟨hrot, ⟨_, _, hg⟩, ?_⟩
    simpa [stillToWrite, hpc, Chunk.data] using hw
  | started _ _ | stop _ | join _ _ =>
    simp only [appended, taken, List.append_nil]
    exact ⟨hrot, ⟨_, _, hg⟩, hw⟩

theorem throughout_short {es : List Event} (hlines : ∀ logline, Event.append logline ∈ es →
      logline.length < kLargeBuffer) : Throughout step (fun _ e => ∀ logline,
        e = .append logline → logline.length < kLargeBuffer) s es :=
  throughout_of_forall fun e he logline (heq : e = .append logline) => hlines logline (heq ▸ he)

theorem run_logged {es : List Event} (hlines : ∀ logline, Event.append logline ∈ es →
      logline.length < kLargeBuffer) (hrun : run step .init es = .ok s) :
    Logged (observe step appended .init es) (observe step taken .init es) s := by
  have hstep : ∀ lines batches s e t, Logged lines batches s →
      (∀ logline, e = .append logline → logline.length < kLargeBuffer) → step s e = .ok t →
      Logged (lines ++ appended s e t) (batches ++ taken s e t) t := fun _ _ _ _ _ hs he ht =>
    (move_of_step hs.rotation ht).logged hs he
  simpa using run_history hstep logged_init (throughout_short hlines) hrun

/-- Every line is whole in one buffer. What has been written to the file, what is still to be
written of a batch, and what `buffers_` and `current_buffer_` hold are the lines in the order of
their `append`, less those in the buffers dropped by the overload rule. -/
theorem lines_kept_in_order {es : List Event} (hlines : ∀ logline, Event.append logline ∈ es →
      logline.length < kLargeBuffer) (hrun : run step .init es = .ok s) :
    ∃ (batchParts : List (List (List (List Byte)))) (heldParts : List (List (List Byte))),
      (batchParts.flatten ++ heldParts).flatten = observe step appended .init es ∧
      batchParts.map (List.map List.flatten) = observe step taken .init es ∧
      heldParts.map List.flatten = (s.buffers ++ [s.currentBuffer]).map BufferPtr.data ∧
      s.output.data ++ (stillToWrite s).flatMap BufferPtr.data ++
          s.buffers.flatMap BufferPtr.data ++ s.currentBuffer.data =
        ((batchParts.map kept).flatten ++ heldParts).flatten.flatten := by
  obtain ⟨_, ⟨batchParts, heldParts, hg⟩, hw⟩ := run_logged hlines hrun
  refine ⟨batchParts, heldParts, hg.records, hg.batches, by simpa [held] using hg.held, ?_⟩
  have hkept : (batchParts.map kept).flatten.flatten.flatten =
      ((observe step taken .init es).map kept).flatten.flatten := by
    have hcomm : kept ∘ List.map List.flatten =
        List.map List.flatten ∘ (kept : List (List (List Byte)) → _) :=
      funext fun batch => kept_map List.flatten batch
    rw [← hg.batches, List.map_map, hcomm, ← List.map_map, ← List.map_flatten,
      List.flatten_flatten]
  have hheld : heldParts.flatten.flatten =
      s.buffers.flatMap BufferPtr.data ++ s.currentBuffer.data := by
    rw [List.flatten_flatten, hg.held]
    simp [held, List.flatMap_def]
  rw [List.flatten_append, List.flatten_append, hkept, ← hw, hheld]
  simp

def appendWhileWriting : List Event :=
  [.start, .enter, .started, .append [104, 10], .test, .lock, .wake, .append [105, 10],
    .overload "", .write]

theorem lines_kept_in_order_appendWhileWriting :
    ∃ s, run step .init appendWhileWriting = .ok s ∧
      observe step taken .init appendWhileWriting = [[[104, 10]]] ∧
      ∃ (batchParts : List (List (List (List Byte)))) (heldParts : List (List (List Byte))),
        (batchParts.flatten ++ heldParts).flatten = [[104, 10], [105, 10]] ∧
        s.output.data ++ (stillToWrite s).flatMap BufferPtr.data ++
            s.buffers.flatMap BufferPtr.data ++ s.currentBuffer.data =
          ((batchParts.map kept).flatten ++ heldParts).flatten.flatten := by
  have hrun : run step .init appendWhileWriting = .ok _ := rfl
  obtain ⟨batchParts, heldParts, hlines, _, _, hkept⟩ :=
    lines_kept_in_order (by simp [appendWhileWriting, kLargeBuffer]) hrun
  exact ⟨_, rfl, rfl, batchParts, heldParts, hlines, hkept⟩

end AcMuduo.AsyncLogging

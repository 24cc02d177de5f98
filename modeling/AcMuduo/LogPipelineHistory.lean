import AcMuduo.LogPipeline

namespace AcMuduo

open Machine

theorem zipWith_concat {α β γ : Type} {f : α → β → γ} {l : List α} {l' : List β}
    (h : l.length = l'.length) (b : β) : List.zipWith f l (l' ++ [b]) = List.zipWith f l l' := by
  have happend : List.zipWith f (l ++ []) (l' ++ [b]) =
      List.zipWith f l l' ++ List.zipWith f [] [b] := List.zipWith_append h
  simpa using happend

namespace AsyncLogging

variable {s t : State} {e : Event} {batches : List (List (List Byte))} {times : List String}

def batchNotice (time : String) (size : Nat) : List (List Byte) :=
  if size > 25 then [dropNotice time (size - 2)] else []

def batchChunks (time : String) (batch : List (List Byte)) : List Chunk :=
  (batchNotice time batch.length).map .notice ++ (kept batch).map .buffer

def checked (_ : State) (e : Event) (_ : State) : List String :=
  match e with
  | .overload time => [time]
  | _ => []

def unwritten (s : State) : List BufferPtr :=
  match s.pc with
  | .writing rest => rest
  | _ => []

def unchecked (s : State) : Nat :=
  match s.pc with
  | .swapped => 1
  | _ => 0

/-- The log file has what the batches consist of that the back end has looked at. -/
structure Written (batches : List (List (List Byte))) (times : List String) (s : State) : Prop where
  rotation : Rotation s
  counted : times.length + unchecked s = batches.length
  last : s.pc = .swapped → batches.getLast? = some (s.buffersToWrite.map BufferPtr.data)
  written : s.output.written ++ (unwritten s).map (fun b => .buffer b.data) =
    (List.zipWith batchChunks times batches).flatten

theorem Written.swap (h : Written batches times s) (hpc : s.pc = .locking ∨ s.pc = .waiting) :
    Written (batches ++ [(swap s).buffersToWrite.map BufferPtr.data]) times (swap s) := by
  have hcounted := h.counted
  have hwritten := h.written
  have hunchecked : unchecked s = 0 := by
    rcases hpc with hpc | hpc <;> rw [unchecked, hpc]
  have hunwritten : unwritten s = [] := by
    rcases hpc with hpc | hpc <;> rw [unwritten, hpc]
  rw [hunchecked, Nat.add_zero] at hcounted
  rw [hunwritten] at hwritten
  refine ⟨h.rotation.swap hpc, ?_, fun _ => by simp, ?_⟩
  · rw [unchecked, swap_pc, hcounted]
    simp
  · rw [unwritten, swap_pc, swap_output, zipWith_concat hcounted]
    exact hwritten

theorem Written.check (h : Written batches times s) (hpc : s.pc = .swapped) {time : String}
    (hrot : Rotation t) {chunks : List Chunk} {rest : List BufferPtr} (hpc' : t.pc = .writing rest)
    (hout : t.output.written = s.output.written ++ chunks)
    (hchunks : chunks ++ rest.map (fun b => .buffer b.data) =
      batchChunks time (s.buffersToWrite.map BufferPtr.data)) :
    Written batches (times ++ [time]) t := by
  have hcounted := h.counted
  have hwritten := h.written
  obtain ⟨init, rfl⟩ := List.getLast?_eq_some_iff.mp (h.last hpc)
  rw [unchecked, hpc, List.length_append, List.length_singleton, Nat.add_right_cancel_iff]
    at hcounted
  rw [unwritten, hpc, List.map_nil, List.append_nil] at hwritten
  refine ⟨hrot, ?_, fun hswapped => ?_, ?_⟩
  · rw [unchecked, hpc', List.length_append, List.length_append, hcounted]
    rfl
  · rw [hpc'] at hswapped
    cases hswapped
  · rw [zipWith_concat hcounted] at hwritten
    rw [unwritten, hpc', hout, List.append_assoc, hchunks, hwritten, List.zipWith_append hcounted]
    simp

theorem Written.keep (h : Written batches times s) (hrot : Rotation t)
    (hunchecked : unchecked t = unchecked s)
    (hlast : t.pc = .swapped → s.pc = .swapped ∧ t.buffersToWrite = s.buffersToWrite)
    (hwritten : t.output.written ++ (unwritten t).map (fun b => .buffer b.data) =
      s.output.written ++ (unwritten s).map (fun b => .buffer b.data)) :
    Written batches times t := by
  refine ⟨hrot, hunchecked ▸ h.counted, fun hswapped => ?_, hwritten.trans h.written⟩
  rw [(hlast hswapped).2]
  exact h.last (hlast hswapped).1

theorem Move.written (h : Move s e t) (hs : Written batches times s) :
    Written (batches ++ taken s e t) (times ++ checked s e t) t := by
  have hrot := h.rotation hs.rotation
  cases h with
  | swap hpc hbuffers =>
    have hempty : s.buffers.isEmpty = false := List.isEmpty_eq_false_iff.mpr hbuffers
    simp only [taken, checked, hempty, List.append_nil]
    exact hs.swap (.inl hpc)
  | wake hpc =>
    simp only [taken, checked, List.append_nil]
    exact hs.swap (.inr hpc)
  | @drop time hpc hlen =>
    simp only [taken, checked, List.append_nil]
    refine hs.check hpc hrot rfl rfl ?_
    simp [batchChunks, batchNotice, kept, hlen, Function.comp_def]
  | @keep time hpc hlen =>
    simp only [taken, checked, List.append_nil]
    have hchunks : [] ++ s.buffersToWrite.map (fun b => .buffer b.data) =
        batchChunks time (s.buffersToWrite.map BufferPtr.data) := by
      simp [batchChunks, batchNotice, kept, Nat.not_lt.mpr hlen, Function.comp_def]
    exact hs.check hpc hrot rfl (List.append_nil _).symm hchunks
  | wait hpc hbuffers =>
    have hempty : s.buffers.isEmpty = true := List.isEmpty_iff.mpr hbuffers
    simp only [taken, checked, hempty, ↓reduceIte, List.append_nil]
    exact hs.keep hrot (by simp [unchecked, hpc]) (by simp) (by simp [unwritten, hpc])
  | start howner =>
    have hstarted := hs.rotation.started
    rw [howner] at hstarted
    have hpc := hstarted.pc_of_idle.1
    simp only [taken, checked, List.append_nil]
    exact hs.keep hrot (by simp [unchecked, hpc]) (by simp) (by simp [unwritten, hpc])
  | write hpc =>
    simp only [taken, checked, List.append_nil]
    refine hs.keep hrot (by simp [unchecked, hpc]) (by simp) ?_
    simp [unwritten, hpc, LogFile.append]
  | enter hpc | iterate hpc _ | leave hpc _ | refill hpc | flush hpc | finalFlush hpc =>
    simp only [taken, checked, List.append_nil]
    refine hs.keep hrot (by simp [unchecked, hpc]) (by simp) ?_
    simp [unwritten, hpc, LogFile.flush]
  | appendFits _ _ | appendFull _ _ | started _ _ | stop _ | join _ _ =>
    simp only [taken, checked, List.append_nil]
    exact hs.keep hrot rfl (fun hswapped => ⟨hswapped, rfl⟩) rfl

end AsyncLogging

namespace LogPipeline

open AsyncLogging

/-- What a file consists of: notices, and buffers of lines. -/
inductive Piece where
  | notice (bytes : List Byte)
  | buffer (lines : List (List Byte))

def Piece.chunk : Piece → Chunk
  | .notice bytes => .notice bytes
  | .buffer lines => .buffer lines.flatten

def Piece.bytes (piece : Piece) : List Byte := Chunk.bytes piece.chunk

variable {cfg : LogFile.Config} {s : State}

def lines (es : List Event) : List (List Byte) :=
  observe AsyncLogging.step appended .init (es.map Event.event)

def batches (es : List Event) : List (List (List Byte)) :=
  observe AsyncLogging.step taken .init (es.map Event.event)

def times (es : List Event) : List String :=
  observe AsyncLogging.step checked .init (es.map Event.event)

end LogPipeline

end AcMuduo

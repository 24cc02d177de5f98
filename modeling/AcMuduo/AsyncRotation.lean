import AcMuduo.AsyncLogging

namespace AcMuduo.AsyncLogging

open Machine

variable {s t : State} {e : Event} {batch : List BufferPtr}

structure Spared (newBuffer1 newBuffer2 : BufferPtr) (batch : List BufferPtr) : Prop where
  newBuffer1 : newBuffer1 = some .empty
  newBuffer2 : newBuffer2 = some .empty
  batch : batch = []

/-- The back end has given away one spare buffer or both, and its batch has as many to replace
them. -/
structure InBatch (newBuffer1 newBuffer2 : BufferPtr) (batch : List BufferPtr) : Prop where
  newBuffer1 : newBuffer1 = none
  newBuffer2 : newBuffer2 = some .empty ∧ batch ≠ [] ∨ newBuffer2 = none ∧ 2 ≤ batch.length
  batch : ∀ p ∈ batch, p ≠ none

def BackEnd (pc : Pc) (newBuffer1 newBuffer2 : BufferPtr) (batch : List BufferPtr) : Prop :=
  match pc with
  | .notStarted | .launched => batch = []
  | .swapped => InBatch newBuffer1 newBuffer2 batch
  | .writing rest => InBatch newBuffer1 newBuffer2 batch ∧ ∀ p ∈ rest, p ≠ none
  | _ => Spared newBuffer1 newBuffer2 batch

def Started (pc : Pc) (owner : Owner) (latch : Nat) (running : Bool) : Prop :=
  match pc with
  | .notStarted => owner = .idle ∧ latch = 1
  | .launched => owner = .starting ∧ latch = 1 ∧ running = true
  | _ => owner ≠ .idle

structure Rotation (s : State) : Prop where
  current : ∃ b, s.currentBuffer = some b
  next : s.nextBuffer = some .empty ∨ s.nextBuffer = none ∧ s.buffers ≠ []
  buffers : ∀ p ∈ s.buffers, p ≠ none
  started : Started s.pc s.owner s.latch s.running
  backEnd : BackEnd s.pc s.newBuffer1 s.newBuffer2 s.buffersToWrite

theorem rotation_init : Rotation .init :=
  ⟨⟨.empty, rfl⟩, .inl rfl, fun _ hp => absurd hp List.not_mem_nil, ⟨rfl, rfl⟩, rfl⟩

theorem takeBack_eq (hne : batch ≠ []) (hb : ∀ p ∈ batch, p ≠ none) :
    takeBack batch = .ok (some .empty, batch.dropLast) := by
  obtain ⟨b, hlast⟩ := Option.ne_none_iff_exists'.mp (hb _ (List.getLast_mem hne))
  have hempty : batch.isEmpty = false := List.isEmpty_eq_false_iff.mpr hne
  simp [takeBack, hempty, List.getLast?_eq_some_getLast hne, hlast, deref, FixedBuffer.reset, bind,
    Except.bind]

theorem refill_eq (h : InBatch s.newBuffer1 s.newBuffer2 s.buffersToWrite) : refill s = .ok { s with
    newBuffer1 := some .empty
    newBuffer2 := some .empty
    buffersToWrite := []
    pc := .flushing } := by
  obtain ⟨batch, hbatch⟩ : ∃ batch, batch =
      if s.buffersToWrite.length > 2 then s.buffersToWrite.take 2 else s.buffersToWrite := ⟨_, rfl⟩
  have hsome : ∀ p ∈ batch, p ≠ none := by
    intro p hp
    apply h.batch p
    rw [hbatch] at hp
    split at hp
    · exact List.mem_of_mem_take hp
    · exact hp
  have hlen : batch.length = min 2 s.buffersToWrite.length := by
    rw [hbatch]
    split
    · exact List.length_take
    · omega
  simp only [refill, h.newBuffer1, ← hbatch]
  cases h.newBuffer2 with
  | inl hspare =>
    obtain ⟨hnew, hne⟩ := hspare
    have hpos := List.length_pos_iff.mpr hne
    have hbne : batch ≠ [] := List.length_pos_iff.mp (by omega)
    simp [hnew, takeBack_eq hbne hsome, bind, Except.bind]
  | inr hused =>
    obtain ⟨hnew, htwo⟩ := hused
    have hbne : batch ≠ [] := List.length_pos_iff.mp (by omega)
    have hbne' : batch.dropLast ≠ [] := List.length_pos_iff.mp (by simp; omega)
    have hsome' : ∀ p ∈ batch.dropLast, p ≠ none := fun p hp =>
      hsome p ((List.dropLast_sublist batch).subset hp)
    simp [hnew, takeBack_eq hbne hsome, takeBack_eq hbne' hsome', bind, Except.bind]

theorem swap_eq (s : State) : swap s = { s with
    currentBuffer := s.newBuffer1
    nextBuffer := (swap s).nextBuffer
    buffers := s.buffersToWrite
    newBuffer1 := none
    newBuffer2 := (swap s).newBuffer2
    buffersToWrite := s.buffers ++ [s.currentBuffer]
    pc := .swapped } := by
  rw [swap]
  cases s.nextBuffer with
  | none => rfl
  | some b => rfl

@[simp] theorem swap_buffersToWrite (s : State) :
    (swap s).buffersToWrite = s.buffers ++ [s.currentBuffer] := by
  rw [swap_eq]

@[simp] theorem swap_buffers (s : State) : (swap s).buffers = s.buffersToWrite := by
  rw [swap_eq]

@[simp] theorem swap_currentBuffer (s : State) : (swap s).currentBuffer = s.newBuffer1 := by
  rw [swap_eq]

@[simp] theorem swap_newBuffer1 (s : State) : (swap s).newBuffer1 = none := by
  rw [swap_eq]

@[simp] theorem swap_pc (s : State) : (swap s).pc = .swapped := by
  rw [swap_eq]

@[simp] theorem swap_owner (s : State) : (swap s).owner = s.owner := by
  rw [swap_eq]

@[simp] theorem swap_latch (s : State) : (swap s).latch = s.latch := by
  rw [swap_eq]

@[simp] theorem swap_running (s : State) : (swap s).running = s.running := by
  rw [swap_eq]

@[simp] theorem swap_output (s : State) : (swap s).output = s.output := by
  rw [swap_eq]

inductive Move (s : State) : Event → State → Prop where
  | appendFits {logline b} (hcurrent : s.currentBuffer = some b) (h : logline.length < b.avail) :
    Move s (.append logline) { s with currentBuffer := some (b.append logline) }
  | appendFull {logline b} (hcurrent : s.currentBuffer = some b) (h : b.avail ≤ logline.length) :
    Move s (.append logline) { s with
      buffers := s.buffers ++ [some b]
      currentBuffer := some (FixedBuffer.empty.append logline)
      nextBuffer := none }
  | start (howner : s.owner = .idle) :
    Move s .start { s with running := true, pc := .launched, owner := .starting }
  | started (howner : s.owner = .starting) (hlatch : s.latch = 0) :
    Move s .started { s with owner := .started }
  | stop (howner : s.owner = .started) :
    Move s .stop { s with running := false, owner := .stopping }
  | join (howner : s.owner = .stopping) (hpc : s.pc = .done) :
    Move s .join { s with owner := .stopped }
  | enter (hpc : s.pc = .launched) : Move s .enter { s with
      latch := s.latch - 1
      newBuffer1 := some .empty
      newBuffer2 := some .empty
      pc := .test }
  | iterate (hpc : s.pc = .test) (hrunning : s.running = true) :
    Move s .test { s with pc := .locking }
  | leave (hpc : s.pc = .test) (hrunning : s.running = false) :
    Move s .test { s with pc := .finalFlush }
  | wait (hpc : s.pc = .locking) (hbuffers : s.buffers = []) :
    Move s .lock { s with pc := .waiting }
  | swap (hpc : s.pc = .locking) (hbuffers : s.buffers ≠ []) :
    Move s .lock (swap s)
  | wake (hpc : s.pc = .waiting) : Move s .wake (AsyncLogging.swap s)
  | drop {time} (hpc : s.pc = .swapped) (h : s.buffersToWrite.length > 25) :
    Move s (.overload time) { s with
      output := s.output.append (.notice (dropNotice time (s.buffersToWrite.length - 2)))
      buffersToWrite := s.buffersToWrite.take 2
      pc := .writing (s.buffersToWrite.take 2) }
  | keep {time} (hpc : s.pc = .swapped) (h : s.buffersToWrite.length ≤ 25) :
    Move s (.overload time) { s with pc := .writing s.buffersToWrite }
  | write {b rest} (hpc : s.pc = .writing (some b :: rest)) : Move s .write { s with
      output := s.output.append (.buffer b.data)
      pc := .writing rest }
  | refill (hpc : s.pc = .writing []) : Move s .refill { s with
      newBuffer1 := some .empty
      newBuffer2 := some .empty
      buffersToWrite := []
      pc := .flushing }
  | flush (hpc : s.pc = .flushing) :
    Move s .flush { s with output := s.output.flush, pc := .test }
  | finalFlush (hpc : s.pc = .finalFlush) :
    Move s .flush { s with output := s.output.flush, pc := .done }

theorem InBatch.ne_nil {p q : BufferPtr} (h : InBatch p q batch) : batch ≠ [] := by
  cases h.newBuffer2 with
  | inl h => exact h.2
  | inr h => exact List.length_pos_iff.mp (by omega)

theorem isEmptyBuffer_empty : isEmptyBuffer (some .empty) = true := rfl

theorem step_move (hs : Rotation s) (e : Event) :
    step s e = .error .disabled ∨ ∃ t, step s e = .ok t ∧ Move s e t := by
  cases e with
  | append logline =>
    obtain ⟨b, hb⟩ := hs.current
    apply Or.inr
    by_cases h : logline.length < b.avail
    · exact ⟨_, by simp [step, append, hb, deref, h, bind, Except.bind], .appendFits hb h⟩
    · have hnext : s.nextBuffer.getD .empty = .empty := by
        rcases hs.next with hn | ⟨hn, _⟩ <;> simp [hn]
      exact ⟨_, by simp [step, append, hb, deref, h, hnext, bind, Except.bind],
        .appendFull hb (Nat.not_lt.mp h)⟩
  | start =>
    by_cases h : s.owner = .idle
    · exact .inr ⟨_, by simp only [step, h, ↓reduceIte], .start h⟩
    · exact .inl (by simp only [step, h, ↓reduceIte])
  | started =>
    by_cases h : s.owner = .starting ∧ s.latch = 0
    · exact .inr ⟨_, by simp only [step, h, and_self, ↓reduceIte], .started h.1 h.2⟩
    · exact .inl (by simp only [step, h, ↓reduceIte])
  | stop =>
    by_cases h : s.owner = .started
    · exact .inr ⟨_, by simp only [step, h, ↓reduceIte], .stop h⟩
    · exact .inl (by simp only [step, h, ↓reduceIte])
  | join =>
    by_cases h : s.owner = .stopping ∧ s.pc = .done
    · exact .inr ⟨_, by simp only [step, h], .join h.1 h.2⟩
    · apply Or.inl
      simp only [step]
      split
      · rename_i ho hpc
        exact absurd ⟨ho, hpc⟩ h
      · rfl
  | enter =>
    cases hpc : s.pc with
    | launched =>
      have hb := hs.started
      rw [hpc] at hb
      exact .inr ⟨_, by simp only [step, hpc, hb.2.2, assert_true, bind, Except.bind], .enter hpc⟩
    | _ => exact .inl (by simp only [step, hpc])
  | test =>
    cases hpc : s.pc with
    | test =>
      apply Or.inr
      cases hr : s.running with
      | true =>
        have hb := hs.backEnd
        rw [hpc] at hb
        obtain ⟨h1, h2, hw⟩ := hb
        exact ⟨_, by simp [step, hpc, hr, h1, h2, hw, isEmptyBuffer_empty, bind, Except.bind],
          .iterate hpc hr⟩
      | false => exact ⟨_, by simp [step, hpc, hr], .leave hpc hr⟩
    | _ => exact .inl (by simp only [step, hpc])
  | lock =>
    cases hpc : s.pc with
    | locking =>
      apply Or.inr
      by_cases h : s.buffers = []
      · exact ⟨_, by simp [step, hpc, h], .wait hpc h⟩
      · exact ⟨_, by simp [step, hpc, h], .swap hpc h⟩
    | _ => exact .inl (by simp only [step, hpc])
  | wake =>
    cases hpc : s.pc with
    | waiting => exact .inr ⟨_, by simp only [step, hpc], .wake hpc⟩
    | _ => exact .inl (by simp only [step, hpc])
  | overload time =>
    cases hpc : s.pc with
    | swapped =>
      have hb := hs.backEnd
      rw [hpc] at hb
      have hempty : s.buffersToWrite.isEmpty = false :=
        List.isEmpty_eq_false_iff.mpr (InBatch.ne_nil hb)
      apply Or.inr
      by_cases h : s.buffersToWrite.length > 25
      · exact ⟨_, by simp [step, hpc, overload, hempty, h, bind, Except.bind], .drop hpc h⟩
      · exact ⟨_, by simp [step, hpc, overload, hempty, h, bind, Except.bind],
          .keep hpc (by omega)⟩
    | _ => exact .inl (by simp only [step, hpc])
  | write =>
    cases hpc : s.pc with
    | writing rest =>
      cases rest with
      | nil => exact .inl (by simp only [step, hpc])
      | cons p rest =>
        have hb := hs.backEnd
        rw [hpc] at hb
        obtain ⟨b, rfl⟩ := Option.ne_none_iff_exists'.mp (hb.2 p (by simp))
        exact .inr ⟨_, by simp only [step, hpc, deref, bind, Except.bind], .write hpc⟩
    | _ => exact .inl (by simp only [step, hpc])
  | refill =>
    cases hpc : s.pc with
    | writing rest =>
      cases rest with
      | nil =>
        have hb := hs.backEnd
        rw [hpc] at hb
        exact .inr ⟨_, by simp only [step, hpc, refill_eq hb.1], .refill hpc⟩
      | cons p rest => exact .inl (by simp only [step, hpc])
    | _ => exact .inl (by simp only [step, hpc])
  | flush =>
    cases hpc : s.pc with
    | flushing => exact .inr ⟨_, by simp only [step, hpc], .flush hpc⟩
    | finalFlush => exact .inr ⟨_, by simp only [step, hpc], .finalFlush hpc⟩
    | _ => exact .inl (by simp only [step, hpc])

theorem Rotation.spared (h : Rotation s) (hpc : s.pc = .locking ∨ s.pc = .waiting) :
    Spared s.newBuffer1 s.newBuffer2 s.buffersToWrite := by
  have hb := h.backEnd
  rcases hpc with hpc | hpc <;> rw [hpc] at hb <;> exact hb

theorem Rotation.swap (h : Rotation s) (hpc : s.pc = .locking ∨ s.pc = .waiting) :
    Rotation (swap s) := by
  obtain ⟨h1, h2, hw⟩ := h.spared hpc
  have hstarted : s.owner ≠ .idle := by
    have hs := h.started
    rcases hpc with hpc | hpc <;> rw [hpc] at hs <;> exact hs
  have hsome : ∀ p ∈ s.buffers ++ [s.currentBuffer], p ≠ none := by
    intro p hp
    cases List.mem_append.mp hp with
    | inl hp => exact h.buffers p hp
    | inr hp =>
      obtain ⟨b, hb⟩ := h.current
      simp [List.mem_singleton.mp hp, hb]
  refine ⟨⟨.empty, by simp [h1]⟩, .inl ?_, by simp [hw], by simpa [Started] using hstarted, ?_⟩
  · cases h.next with
    | inl hn => simp [AsyncLogging.swap, hn]
    | inr hn => simp [AsyncLogging.swap, hn.1, h2]
  · rw [swap_pc, swap_newBuffer1, swap_buffersToWrite]
    refine ⟨rfl, ?_, hsome⟩
    cases h.next with
    | inl hn => exact .inl ⟨by simp [AsyncLogging.swap, hn, h2], by simp⟩
    | inr hused =>
      obtain ⟨hn, hne⟩ := hused
      have hpos := List.length_pos_iff.mpr hne
      refine .inr ⟨by simp [AsyncLogging.swap, hn], ?_⟩
      rw [List.length_append, List.length_singleton]
      omega

theorem InBatch.take {p q : BufferPtr} (h : InBatch p q batch) : InBatch p q (batch.take 2) := by
  have hpos := List.length_pos_iff.mpr h.ne_nil
  refine ⟨h.newBuffer1, h.newBuffer2.imp (fun ⟨hq, _⟩ => ⟨hq, ?_⟩) (fun ⟨hq, htwo⟩ => ⟨hq, ?_⟩),
    fun x hx => h.batch x (List.mem_of_mem_take hx)⟩
  · exact List.length_pos_iff.mp (by rw [List.length_take]; omega)
  · rw [List.length_take]
    omega

theorem Started.pc_of_idle {pc : Pc} {latch : Nat} {running : Bool}
    (h : Started pc .idle latch running) : pc = .notStarted ∧ latch = 1 := by
  cases pc <;> simp_all [Started]

theorem Started.set_owner {pc : Pc} {owner owner' : Owner} {latch : Nat} {running running' : Bool}
    (h : Started pc owner latch running) (ho : owner ≠ .idle) (hl : owner = .starting → latch = 0)
    (ho' : owner' ≠ .idle) : Started pc owner' latch running' := by
  cases pc with
  | notStarted => exact absurd h.1 ho
  | launched =>
    have := hl h.1
    have := h.2.1
    omega
  | _ => exact ho'

theorem Move.rotation (h : Move s e t) (hs : Rotation s) : Rotation t := by
  have hstarted := hs.started
  have hback := hs.backEnd
  cases h with
  | swap hpc _ => exact hs.swap (.inl hpc)
  | wake hpc => exact hs.swap (.inr hpc)
  | appendFits hcur hfit => exact ⟨⟨_, rfl⟩, hs.next, hs.buffers, hstarted, hback⟩
  | appendFull hcur hfit =>
    refine ⟨⟨_, rfl⟩, .inr ⟨rfl, by simp⟩, fun p hp => ?_, hstarted, hback⟩
    cases List.mem_append.mp hp with
    | inl hp => exact hs.buffers p hp
    | inr hp => simp [List.mem_singleton.mp hp]
  | start howner =>
    rw [howner] at hstarted
    obtain ⟨hpc, hlatch⟩ := hstarted.pc_of_idle
    rw [hpc] at hback
    exact ⟨hs.current, hs.next, hs.buffers, ⟨rfl, hlatch, rfl⟩, hback⟩
  | started howner hlatch =>
    exact ⟨hs.current, hs.next, hs.buffers,
      hstarted.set_owner (by simp [howner]) (fun _ => hlatch) (by simp), hback⟩
  | stop howner =>
    exact ⟨hs.current, hs.next, hs.buffers,
      hstarted.set_owner (by simp [howner]) (by simp [howner]) (by simp), hback⟩
  | join howner hpc =>
    exact ⟨hs.current, hs.next, hs.buffers,
      hstarted.set_owner (by simp [howner]) (by simp [howner]) (by simp), hback⟩
  | drop hpc hlen =>
    rw [hpc] at hstarted hback
    exact ⟨hs.current, hs.next, hs.buffers, hstarted,
      hback.take, fun p hp => hback.batch p (List.mem_of_mem_take hp)⟩
  | keep hpc hlen =>
    rw [hpc] at hstarted hback
    exact ⟨hs.current, hs.next, hs.buffers, hstarted, hback, hback.batch⟩
  | write hpc =>
    rw [hpc] at hstarted hback
    exact ⟨hs.current, hs.next, hs.buffers, hstarted,
      hback.1, fun p hp => hback.2 p (List.mem_cons_of_mem _ hp)⟩
  | enter hpc =>
    rw [hpc] at hstarted hback
    exact ⟨hs.current, hs.next, hs.buffers, by simp [Started, hstarted.1], rfl, rfl, hback⟩
  | refill hpc =>
    rw [hpc] at hstarted
    exact ⟨hs.current, hs.next, hs.buffers, hstarted, rfl, rfl, rfl⟩
  | iterate hpc _ | leave hpc _ | wait hpc _ | flush hpc | finalFlush hpc =>
    rw [hpc] at hstarted hback
    exact ⟨hs.current, hs.next, hs.buffers, hstarted, hback⟩

theorem run_rotation (es : List Event) :
    run step .init es = .error .disabled ∨ ∃ s, run step .init es = .ok s ∧ Rotation s := by
  refine run_safe (fun s e hs => ?_) rotation_init es
  exact (step_move hs e).imp id fun ⟨t, ht, hm⟩ => ⟨t, ht, hm.rotation hs⟩

/-- In every run no assert of the back end fails, `append` always has a current buffer and an
empty next one or none, in which case a full buffer awaits the back end, and each iteration starts
with two empty buffers to give away and no batch. -/
theorem buffers_never_run_out (es : List Event) :
    (∀ f, run step .init es ≠ .error (.fault f)) ∧
    ∀ s, run step .init es = .ok s →
      s.currentBuffer ≠ none ∧
      (∀ b, s.nextBuffer = some b → b.length = 0) ∧
      (s.nextBuffer = none → s.buffers ≠ []) ∧
      (s.pc = .test ∨ s.pc = .locking → isEmptyBuffer s.newBuffer1 = true ∧
        isEmptyBuffer s.newBuffer2 = true ∧ s.buffersToWrite = []) := by
  constructor
  · intro f
    cases run_rotation es with
    | inl hrun => simp [hrun]
    | inr h =>
      obtain ⟨s, hrun, _⟩ := h
      simp [hrun]
  · intro s hrun
    obtain ⟨⟨b, hcurrent⟩, hnext, _, _, hback⟩ := of_eq_ok (run_rotation es) hrun
    refine ⟨by simp [hcurrent], fun b hb => ?_, fun hnone => ?_, fun hpc => ?_⟩
    · cases hnext with
      | inl hempty =>
        rw [hempty, Option.some.injEq] at hb
        exact hb ▸ rfl
      | inr hnone => simp [hnone.1] at hb
    · exact (hnext.resolve_left (by simp [hnone])).2
    · have hspared : Spared s.newBuffer1 s.newBuffer2 s.buffersToWrite := by
        cases hpc with
        | inl hpc => simpa [BackEnd, hpc] using hback
        | inr hpc => simpa [BackEnd, hpc] using hback
      obtain ⟨h1, h2, hw⟩ := hspared
      rw [h1, h2]
      exact ⟨rfl, rfl, hw⟩

theorem move_of_step (hs : Rotation s) (he : step s e = .ok t) : Move s e t :=
  of_eq_ok (step_move hs e) he

theorem run_keeps {I : State → Prop} {es : List Event}
    (hmove : ∀ s e t, Rotation s → I s → Move s e t → I t) (hrot : Rotation s) (hs : I s)
    (hrun : run step s es = .ok t) : I t := by
  have h : Rotation t ∧ I t := run_invariant (I := fun s => Rotation s ∧ I s)
    (fun s e t hs he =>
      have hm := move_of_step hs.1 he
      ⟨hm.rotation hs.1, hmove s e t hs.1 hs.2 hm⟩) ⟨hrot, hs⟩ hrun
  exact h.2

end AcMuduo.AsyncLogging

import AcMuduo.TimerHistory

namespace AcMuduo.TimerQueue

open Machine

variable {s t : State} {e : Event} {p : Addr} {id : TimerId} {now : Int} {c : SortedSet TimerId}

def withNotes (c : SortedSet TimerId) (s : State) : State := { s with cancelingTimers := c }

theorem insert_withNotes : insert (withNotes c s) p =
    (insert s p).map fun r => (withNotes c r.1, r.2) := by
  simp only [TimerQueue.insert, Machine.map_bind]
  rfl

theorem addTimerInLoop_withNotes :
    addTimerInLoop (withNotes c s) p = (addTimerInLoop s p).map (withNotes c) := by
  rw [addTimerInLoop, addTimerInLoop, insert_withNotes]
  cases insert s p with
  | error d => rfl
  | ok r =>
    simp only [Except.map, bind, Except.bind]
    split
    · cases hx : r.1.heap p <;> simp [deref, withNotes, hx, resetTimerFd]
    · rfl

theorem delete_withNotes : delete (withNotes c s) p = (delete s p).map (withNotes c) := by
  cases hx : s.heap p <;> simp [TimerQueue.delete, withNotes, hx, Except.map]

theorem rearm_withNotes : rearm (withNotes c s) = (rearm s).map (withNotes c) := by
  cases hf : s.timers.first? with
  | none => simp [rearm, withNotes, hf, bind, Except.bind, Except.map]
  | some e =>
    cases hx : s.heap e.timer with
    | none => simp [rearm, withNotes, hf, deref, hx, bind, Except.bind, Except.map]
    | some x =>
      simp only [rearm, withNotes, hf, deref, hx, bind, Except.bind]
      split
      · rfl
      · rfl

/-- The states differ in notes that are about deleted timers. -/
structure SameButNotes (s t : State) : Prop where
  eq : t = withNotes t.cancelingTimers s
  agree : ∀ id, (id.sequence ≤ s.numCreated → Alive s id) →
    (id ∈ t.cancelingTimers ↔ id ∈ s.cancelingTimers)

theorem SameButNotes.refl (s : State) : SameButNotes s s := ⟨rfl, fun _ _ => Iff.rfl⟩

theorem SameButNotes.withNotes_of {s' : State} (h : SameButNotes s t)
    (hnum : s.numCreated ≤ s'.numCreated)
    (halive : ∀ id, id.sequence ≤ s.numCreated → Alive s' id → Alive s id)
    (hnotes : s'.cancelingTimers = s.cancelingTimers) :
    SameButNotes s' (withNotes t.cancelingTimers s') := by
  refine ⟨rfl, fun id hid => ?_⟩
  rw [hnotes]
  exact h.agree id fun hle => halive id hle (hid (hle.trans hnum))

theorem resetOne_withNotes (now : Int) {it : Entry}
    (h : ∀ x, s.heap it.timer = some x →
      ((⟨it.timer, x.sequence⟩ : TimerId) ∈ c ↔ ⟨it.timer, x.sequence⟩ ∈ s.cancelingTimers)) :
    resetOne now (withNotes c s) it = (resetOne now s it).map (withNotes c) := by
  cases hx : s.heap it.timer with
  | none => simp [resetOne, withNotes, deref, hx, bind, Except.bind, Except.map]
  | some x =>
    have hderef : deref (withNotes c s) it.timer = .ok x := deref_eq hx
    have hnotes : (⟨it.timer, x.sequence⟩ : TimerId) ∈ (withNotes c s).cancelingTimers ↔ _ := h x hx
    simp only [resetOne, deref_eq hx, hderef, hnotes, bind, Except.bind]
    split
    · have hins := insert_withNotes (c := c) (p := it.timer)
        (s := { s with heap := Function.update s.heap it.timer (some (x.restart now)) })
      rw [withNotes] at hins
      rw [withNotes, hins]
      cases insert { s with heap := Function.update s.heap it.timer (some (x.restart now)) }
        it.timer with
      | error d => rfl
      | ok r => rfl
    · exact delete_withNotes

theorem resetOne_related {it : Entry} (h : SameButNotes s t) :
    Related SameButNotes (resetOne now s it) (resetOne now t it) := by
  have hagree : ∀ x, s.heap it.timer = some x → ((⟨it.timer, x.sequence⟩ : TimerId) ∈
      t.cancelingTimers ↔ ⟨it.timer, x.sequence⟩ ∈ s.cancelingTimers) := fun x hx =>
    h.agree ⟨it.timer, x.sequence⟩ fun _ => alive_iff.mpr ⟨x, hx, rfl⟩
  have heq := resetOne_withNotes now hagree
  rw [← h.eq] at heq
  rw [heq]
  refine related_map fun a ha => ?_
  cases hx : s.heap it.timer with
  | none => simp [resetOne, deref, hx, bind, Except.bind] at ha
  | some x =>
    obtain ⟨hheap, hnotes⟩ := resetOne_heap hx ha
    refine h.withNotes_of hnotes.numCreated.ge (fun id _ hid => ?_) hnotes.cancelingTimers
    obtain ⟨y, hy, hseq⟩ := alive_iff.mp hid
    rw [hheap] at hy
    by_cases hp : id.timer = it.timer
    · rw [hp, Function.update_self] at hy
      rw [← hp] at hx
      exact alive_iff.mpr ⟨x, hx, (afterReset_sequence hy).1.symm.trans hseq⟩
    · rw [Function.update_of_ne hp] at hy
      exact alive_iff.mpr ⟨y, hy, hseq⟩

theorem rearm_ok (h : rearm s = .ok t) : ∃ fd, t = { s with timerFd := fd } := by
  cases hf : s.timers.first? with
  | none =>
    simp only [rearm, hf, bind, Except.bind, lt_irrefl, ↓reduceIte, Except.ok.injEq] at h
    exact ⟨s.timerFd, h.symm⟩
  | some e =>
    simp only [rearm, hf, bind_eq_ok] at h
    obtain ⟨_, _, _, _, h⟩ := h
    split at h
    · cases h
      exact ⟨_, rfl⟩
    · cases h
      exact ⟨s.timerFd, rfl⟩

theorem reset_related {expired : List Entry} (h : SameButNotes s t) :
    Related SameButNotes (reset s expired now) (reset t expired now) := by
  have hfold : Related SameButNotes (expired.foldlM (resetOne now) s)
      (expired.foldlM (resetOne now) t) :=
    run_related (fun _ _ _ h _ => resetOne_related h) h throughout_true
  refine hfold.bind fun a b _ hab => ?_
  rw [hab.eq, rearm_withNotes]
  refine related_map fun a' ha => ?_
  obtain ⟨fd, rfl⟩ := rearm_ok ha
  exact hab.withNotes_of le_rfl (fun _ _ => id) rfl

theorem eraseActive_withNotes (s : State) (it : Entry) :
    eraseActive (withNotes c s) it = (eraseActive s it).map (withNotes c) := by
  simp only [eraseActive, Machine.map_bind]
  rfl

theorem getExpired_withNotes : getExpired (withNotes c s) now =
    (getExpired s now).map fun r => (withNotes c r.1, r.2) := by
  have hfold : (s.timers.below ⟨now, uintptrMax⟩).foldlM eraseActive
      (withNotes c { s with timers := s.timers.dropBelow ⟨now, uintptrMax⟩ }) = _ :=
    run_map eraseActive_withNotes
  have heq : getExpired (withNotes c s) now = (do
      assert (s.timers.size = s.activeTimers.size)
      assert ((s.timers.dropBelow ⟨now, uintptrMax⟩).first?.all fun e => now < e.expiration)
      let s' ← (s.timers.below ⟨now, uintptrMax⟩).foldlM eraseActive
        (withNotes c { s with timers := s.timers.dropBelow ⟨now, uintptrMax⟩ })
      assert (s'.timers.size = s'.activeTimers.size)
      .ok (s', s.timers.below ⟨now, uintptrMax⟩)) := rfl
  rw [heq, hfold]
  simp only [getExpired, Machine.map_bind, Machine.bind_map]
  rfl

theorem step_withNotes (hcancel : ∀ id, e ≠ .cancel id) (hexpire : e ≠ .expire)
    (hfinish : e ≠ .finish) : step (withNotes c s) e = (step s e).map (withNotes c) := by
  cases e with
  | alloc p expiration interval =>
    simp only [step, apply_ite (Except.map (withNotes c))]
    rfl
  | tick clock => rfl
  | add p =>
    simp only [step, apply_ite (Except.map (withNotes c))]
    rw [← addTimerInLoop_withNotes]
    rfl
  | cancel id => exact absurd rfl (hcancel id)
  | expire => exact absurd rfl hexpire
  | finish => exact absurd rfl hfinish
  | handleRead | ret =>
    obtain ⟨_, _, _, _, _, _, _, _, _, pc⟩ := s
    cases pc with
    | _ => rfl
  | call =>
    obtain ⟨_, _, _, _, _, _, _, _, _, pc⟩ := s
    cases pc with
    | running now expired rest =>
      cases rest with
      | nil => rfl
      | cons it rest =>
        simp only [step, withNotes, Machine.map_bind]
        rfl
    | _ => rfl

theorem expire_withNotes : step (withNotes c s) .expire = step s .expire := by
  have hread : readTimerFd (withNotes c s) = withNotes c (readTimerFd s) := by
    simp only [readTimerFd]
    split
    · exact (if_pos ‹_›).symm ▸ rfl
    · exact (if_neg ‹_›).symm ▸ rfl
  cases hpc : s.pc with
  | reading now =>
    have hpc' : (withNotes c s).pc = .reading now := hpc
    simp only [step, hpc, hpc', hread, getExpired_withNotes, Machine.bind_map]
    rfl
  | _ =>
    have hpc' : (withNotes c s).pc = s.pc := rfl
    simp only [step, hpc', hpc]

theorem cancelInLoop_related (hs : Inv s) (h : SameButNotes s t) :
    Related SameButNotes (cancelInLoop s id) (cancelInLoop t id) := by
  have ht : Owned t.heap t.timers t.activeTimers t.adding (s.pc.batch.map Entry.timer) := by
    rw [h.eq]
    exact hs.owned
  have hactive : t.activeTimers = s.activeTimers := by rw [h.eq, withNotes]
  by_cases hid : id ∈ s.activeTimers
  · obtain ⟨p, q⟩ := id
    obtain ⟨x, hx, rfl⟩ := hs.owned.live p q hid
    have hx' : t.heap p = some x := by rwa [h.eq, withNotes]
    rw [cancelInLoop_active hs.owned hx hid, cancelInLoop_active ht hx' (hactive ▸ hid), h.eq]
    refine h.withNotes_of le_rfl (fun id _ halive => ?_) rfl
    obtain ⟨y, hy, hseq⟩ := alive_iff.mp halive
    by_cases hp : id.timer = p
    · simp [hp] at hy
    · exact alive_iff.mpr ⟨y, by simpa [Function.update_of_ne hp] using hy, hseq⟩
  · have hcalling : t.callingExpiredTimers = s.callingExpiredTimers := by rw [h.eq, withNotes]
    rw [cancelInLoop_inactive hs.owned.size hid, cancelInLoop_inactive ht.size (hactive ▸ hid),
      hcalling]
    split
    · refine ⟨by rw [h.eq]; rfl, fun id' hid' => ?_⟩
      simp only [SortedSet.mem_insert, h.agree id' hid']
    · exact h

theorem SameButNotes.finish_related (h : SameButNotes s t) :
    Related SameButNotes (step s .finish) (step t .finish) := by
  have hpc : t.pc = s.pc := by rw [h.eq, withNotes]
  simp only [step, hpc]
  split
  · apply reset_related
    exact ⟨by rw [h.eq]; rfl, h.agree⟩
  · rfl

theorem step_cancelingTimers (hs : Inv s) (hcancel : ∀ id, e ≠ .cancel id) (hexpire : e ≠ .expire)
    (hfinish : e ≠ .finish) (h : step s e = .ok t) : t.cancelingTimers = s.cancelingTimers := by
  cases move_of_step hs h with
  | @add q y _ _ _ =>
    obtain ⟨fd, hadd⟩ := added_eq s q y
    rw [hadd]
  | cancelActive _ _ _ | cancelNoted _ _ _ => exact absurd rfl (hcancel _)
  | expire _ _ => exact absurd rfl hexpire
  | finish _ _ _ => exact absurd rfl hfinish
  | _ => rfl

theorem SameButNotes.step_related (hs : Good s) (h : SameButNotes s t) (e : Event) :
    Related SameButNotes (step s e) (step t e) := by
  by_cases hcancel : ∃ id, e = .cancel id
  · obtain ⟨id, rfl⟩ := hcancel
    have hpc : t.pc = s.pc := by rw [h.eq, withNotes]
    simp only [step, hpc]
    split
    · exact cancelInLoop_related hs.inv h
    · rfl
  by_cases hexpire : e = .expire
  · subst hexpire
    rw [h.eq, expire_withNotes]
    exact Related.refl .refl _
  by_cases hfinish : e = .finish
  · subst hfinish
    exact h.finish_related
  rw [not_exists] at hcancel
  rw [h.eq, step_withNotes hcancel hexpire hfinish]
  refine related_map fun s' hs' => ?_
  exact h.withNotes_of (step_numCreated hs.inv hs') (fun id hid => alive_of_step hs.inv hid hs')
    (step_cancelingTimers hs.inv hcancel hexpire hfinish hs')

theorem SameButNotes.run_related {es : List Event} (hs : Good s) (h : SameButNotes s t) :
    Related SameButNotes (run step s es) (run step t es) ∧
      observe step called s es = observe step called t es := by
  have hstep : ∀ a b e, Good a ∧ SameButNotes a b →
      Related (fun a b => Good a ∧ SameButNotes a b) (step a e) (step b e) := fun a b e h =>
    (h.2.step_related h.1 e).and_ok fun a' ha => good_step h.1 ha
  have hobs : ∀ a b e a' b', Good a ∧ SameButNotes a b → step a e = .ok a' → step b e = .ok b' →
      called a e a' = called b e b' := by
    rintro a b e a' b' ⟨-, h⟩ - -
    rw [h.eq]
    rfl
  refine ⟨?_, observe_related hstep hobs ⟨hs, h⟩⟩
  have htrue : Throughout step (fun _ _ => True) s es := throughout_true
  have hrun := Machine.run_related (fun a b e h _ => hstep a b e h) ⟨hs, h⟩ htrue
  exact hrun.imp fun _ _ h => h.2

end AcMuduo.TimerQueue

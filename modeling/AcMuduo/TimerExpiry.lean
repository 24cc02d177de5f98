import AcMuduo.TimerHistory

namespace AcMuduo.TimerQueue

open Machine

variable {s₀ s t : State} {e : Event} {p : Addr} {now : Int} {ran gone : List TimerId}

def wholeCall (mid : List Event) : List Event := .handleRead :: (mid ++ [.finish])

def due (s : State) (now : Int) : List Entry := s.timers.elems.filter (·.expiration ≤ now)

structure Waiting (s : State) (p : Addr) (x : Timer) : Prop where
  heap : s.heap p = some x
  timers : (⟨x.expiration, p⟩ : Entry) ∈ s.timers
  activeTimers : (⟨p, x.sequence⟩ : TimerId) ∈ s.activeTimers

structure Gone (s : State) (p : Addr) : Prop where
  heap : s.heap p = none
  timers : ∀ e, (⟨e, p⟩ : Entry) ∉ s.timers
  activeTimers : ∀ q, (⟨p, q⟩ : TimerId) ∉ s.activeTimers

theorem mem_due {x : Entry} : x ∈ due s now ↔ x ∈ s.timers ∧ x.expiration ≤ now := by
  simp [due, SortedSet.mem_def]

theorem due_pairwise (s : State) (now : Int) :
    (due s now).Pairwise fun x y => x.expiration ≤ y.expiration := by
  refine (s.timers.sorted.filter _).imp fun {x y} h => ?_
  cases Entry.le_iff.mp h.le with
  | inl hlt => exact hlt.le
  | inr heq => exact heq.1.le

theorem below_eq_due (hs : Inv s) (now : Int) : s.timers.below ⟨now, uintptrMax⟩ = due s now := by
  refine (SortedSet.below_pairwise _ _).eq_of_mem_iff (s.timers.sorted.filter _) fun {x} => ?_
  refine SortedSet.mem_below.trans (Iff.trans (and_congr_right fun hx => ?_) mem_due.symm)
  refine ⟨fun hlt => ?_, fun hle => not_le.mp fun hge => ?_⟩
  · cases Entry.le_iff.mp hlt.le with
    | inl hlt => exact hlt.le
    | inr heq => exact heq.1.le
  · exact absurd (hs.owned.lt_of_sentry_le hx hge) (not_lt.mpr hle)

theorem waiting_of_heap {x : Timer} (ht : Inv t) (hpc : t.pc = .idle) (hx : t.heap p = some x)
    (hp : p ∉ t.adding) : Waiting t p x := by
  have hactive : (⟨p, x.sequence⟩ : TimerId) ∈ t.activeTimers := by
    by_contra hnot
    cases (ht.owned.loose p x hx).mp hnot with
    | inl hadding => exact hp hadding
    | inr hbatch =>
      rw [hpc] at hbatch
      cases hbatch
  exact ⟨hx, (ht.owned.entry _ p).mpr ⟨x, hx, rfl, hactive⟩, hactive⟩

theorem gone_of_heap (ht : Inv t) (hp : t.heap p = none) : Gone t p :=
  ⟨hp, fun _ => ht.owned.notMem_timers hp, fun _ => ht.owned.notMem_active hp⟩

theorem heap_step {x : Timer} (hs : Inv s) (hx : s.heap p = some x)
    (hcancel : (⟨p, x.sequence⟩ : TimerId) ∈ s.activeTimers → e ≠ .cancel ⟨p, x.sequence⟩)
    (he : e ≠ .finish) (h : step s e = .ok t) : t.heap p = some x := by
  cases move_of_step hs h with
  | @alloc q _ _ hq _ =>
    have hpq : p ≠ q := by
      rintro rfl
      rw [hq] at hx
      cases hx
    simpa [Function.update_of_ne hpq] using hx
  | @add q y _ _ _ =>
    obtain ⟨fd, hadd⟩ := added_eq s q y
    rwa [hadd]
  | @cancelActive q y _ hy hq =>
    have hpq : p ≠ q := by
      rintro rfl
      rw [hx, Option.some.injEq] at hy
      subst hy
      exact hcancel hq rfl
    simpa [Function.update_of_ne hpq] using hx
  | expire _ _ =>
    obtain ⟨fd, hfd⟩ := readTimerFd_eq s
    rwa [hfd]
  | finish _ _ _ => exact absurd rfl he
  | _ => exact hx

theorem waiting_step {x : Timer} (hs : Good s) (hw : Waiting s p x)
    (hcancel : e ≠ .cancel ⟨p, x.sequence⟩) (hexpire : ∀ n, s.pc = .reading n → n < x.expiration)
    (h : step s e = .ok t) : Waiting t p x := by
  have hnot : p ∉ s.pc.batch.map Entry.timer := fun hp =>
    hs.inv.owned.not_active_of_loose (.inr hp) _ hw.activeTimers
  have hheap : t.heap p = some x := by
    by_cases he : e = .finish
    · subst he
      cases move_of_step hs.inv h with
      | finish hpc _ _ =>
        rw [hpc] at hnot
        rw [(finish_effect hs.inv hpc h).2.1 p hnot]
        exact hw.heap
    · exact heap_step hs.inv hw.heap (fun _ => hcancel) he h
  have htimers : (⟨x.expiration, p⟩ : Entry) ∈ t.timers := by
    cases move_of_step hs.inv h with
    | @add q y _ _ _ =>
      obtain ⟨fd, hadd⟩ := added_eq s q y
      rw [hadd]
      exact SortedSet.mem_insert.mpr (.inr hw.timers)
    | @cancelActive q y _ hy _ =>
      refine SortedSet.mem_erase.mpr ⟨fun heq => ?_, hw.timers⟩
      obtain ⟨_, rfl⟩ := Entry.mk.inj heq
      simp at hheap
    | expire hpc _ =>
      refine SortedSet.mem_dropBelow.mpr ⟨hw.timers, ?_⟩
      exact Entry.le_iff.mpr (.inl (hexpire _ hpc))
    | finish hpc _ _ => exact (finish_effect hs.inv hpc h).2.2.1 _ hw.timers
    | _ => exact hw.timers
  obtain ⟨y, hy, _, hactive⟩ := ((good_step hs h).inv.owned.entry _ p).mp htimers
  rw [hheap, Option.some.injEq] at hy
  exact ⟨hheap, htimers, hy ▸ hactive⟩

/-- Where the call is, by the timers it has run and those cancelled in it. -/
def Phase (s₀ : State) (now : Int) (ran gone : List TimerId) (s : State) : Prop :=
  match s.pc with
  | .idle => False
  | .reading n => n = now ∧ ran = [] ∧ gone = [] ∧ s.timers = s₀.timers
  | .running n batch rest | .calling n batch rest =>
    n = now ∧ batch = due s₀ now ∧
    ran.map some ++ rest.map (fun x => idAt s₀ x.timer) =
      (due s₀ now).map (fun x => idAt s₀ x.timer) ∧
    ∀ id, id.timer ∈ (due s₀ now).map Entry.timer → (id ∈ s.cancelingTimers ↔ id ∈ gone)

structure During (s₀ : State) (now : Int) (ran gone : List TimerId) (s : State) : Prop where
  phase : Phase s₀ now ran gone s
  due : ∀ x ∈ due s₀ now, s.heap x.timer = s₀.heap x.timer
  waiting : ∀ p x, Waiting s₀ p x → now < x.expiration → ⟨p, x.sequence⟩ ∉ gone → Waiting s p x

theorem During.calling (h : During s₀ now ran gone s) (huser : s.pc.inUserCode = true) :
    ∃ rest, s.pc = .calling now (TimerQueue.due s₀ now) rest ∧
      ran.map some ++ rest.map (fun x => idAt s₀ x.timer) =
        (TimerQueue.due s₀ now).map (fun x => idAt s₀ x.timer) ∧
      ∀ id, id.timer ∈ (TimerQueue.due s₀ now).map Entry.timer →
        (id ∈ s.cancelingTimers ↔ id ∈ gone) := by
  have hphase := h.phase
  rw [Phase] at hphase
  cases hpc : s.pc with
  | calling n batch rest =>
    rw [hpc] at hphase
    obtain ⟨rfl, rfl, hran, hnoted⟩ := hphase
    exact ⟨rest, rfl, hran, hnoted⟩
  | idle =>
    rw [hpc] at hphase
    exact hphase.elim
  | reading n | running n batch rest =>
    rw [hpc] at huser
    cases huser

theorem During.not_due_of_active (h : During s₀ now ran gone s) (hs : Inv s)
    (huser : s.pc.inUserCode = true) {id : TimerId} (hid : id ∈ s.activeTimers) :
    id.timer ∉ (TimerQueue.due s₀ now).map Entry.timer := by
  obtain ⟨rest, hpc, _⟩ := h.calling huser
  have howned := hs.owned
  rw [hpc] at howned
  exact fun hmem => howned.not_active_of_loose (.inr hmem) id.sequence hid

theorem During.due_step (hs₀ : Inv s₀) (hs : Good s) (h : During s₀ now ran gone s)
    (he : e ≠ .finish) (hst : step s e = .ok t) {x : Entry} (hx : x ∈ TimerQueue.due s₀ now) :
    t.heap x.timer = s₀.heap x.timer := by
  obtain ⟨y, hy, _⟩ := (hs₀.owned.entry x.expiration x.timer).mp (mem_due.mp hx).1
  rw [hy]
  refine heap_step hs.inv ((h.due x hx).trans hy) (fun hactive hcancel => ?_) he hst
  subst hcancel
  exact h.not_due_of_active hs.inv (inUserCode_of_cancel hst) hactive (List.mem_map_of_mem hx)

theorem During.phase_step (hs₀ : Inv s₀) (hs : Good s) (h : During s₀ now ran gone s)
    (he : e ≠ .finish) (hst : step s e = .ok t) :
    Phase s₀ now (ran ++ called s e t) (gone ++ cancelled s e t) t := by
  have hphase := h.phase
  cases move_of_step hs.inv hst with
  | alloc _ _ | tick =>
    simp only [called, cancelled, List.append_nil]
    exact hphase
  | @add q y hpc _ _ =>
    obtain ⟨rest, hcalling, hran, hnoted⟩ := h.calling hpc
    obtain ⟨fd, hadd⟩ := added_eq s q y
    simp only [called, cancelled, List.append_nil, Phase, hadd, hcalling]
    exact ⟨trivial, trivial, hran, hnoted⟩
  | @cancelActive q y hpc _ hq =>
    obtain ⟨rest, hcalling, hran, hnoted⟩ := h.calling hpc
    have hnot := h.not_due_of_active hs.inv hpc hq
    simp only [called, cancelled, List.append_nil, Phase, hcalling]
    refine ⟨trivial, trivial, hran, fun id hid => ?_⟩
    have hne : id ≠ ⟨q, y.sequence⟩ := by
      rintro rfl
      exact hnot hid
    simp [hnoted id hid, hne]
  | @cancelNoted id hpc _ _ =>
    obtain ⟨rest, hcalling, hran, hnoted⟩ := h.calling hpc
    simp only [called, cancelled, List.append_nil, Phase, hcalling]
    refine ⟨trivial, trivial, hran, fun id' hid' => ?_⟩
    simp [hnoted id' hid', or_comm]
  | cancelIgnored hpc _ hcalling =>
    obtain ⟨rest, hcall, _⟩ := h.calling hpc
    rw [hs.calling (by rw [hcall]; rfl)] at hcalling
    cases hcalling
  | handleRead hpc =>
    rw [Phase, hpc] at hphase
    exact hphase.elim
  | @expire n left hpc _ =>
    rw [Phase, hpc] at hphase
    obtain ⟨rfl, rfl, rfl, htimers⟩ := hphase
    have hbelow : s.timers.below ⟨n, uintptrMax⟩ = TimerQueue.due s₀ n := by
      rw [htimers, below_eq_due hs₀]
    refine ⟨rfl, hbelow, ?_, by simp [cancelled]⟩
    rw [hbelow]
    rfl
  | @call n batch it rest hpc =>
    rw [Phase, hpc] at hphase
    obtain ⟨rfl, hbatch, hran, hnoted⟩ := hphase
    have hsuffix := hs.suffix
    rw [hpc] at hsuffix
    have hit : it ∈ TimerQueue.due s₀ n := hbatch ▸ hsuffix.subset List.mem_cons_self
    have hid : idAt s it.timer = idAt s₀ it.timer := by rw [idAt, idAt, h.due it hit]
    obtain ⟨y, hy, _⟩ := (hs₀.owned.entry it.expiration it.timer).mp (mem_due.mp hit).1
    have hsome : idAt s₀ it.timer = some ⟨it.timer, y.sequence⟩ := by simp [idAt, hy]
    simp only [called, cancelled, hpc, List.append_nil, Phase]
    refine ⟨trivial, hbatch, ?_, hnoted⟩
    rw [← hran, hid, hsome]
    simp [hsome]
  | @ret n batch rest hpc =>
    rw [Phase, hpc] at hphase
    simp only [called, cancelled, List.append_nil]
    exact hphase
  | finish _ _ _ => exact absurd rfl he

theorem during_step (hs₀ : Inv s₀) (hs : Good s) (h : During s₀ now ran gone s)
    (he : e ≠ .finish) (hst : step s e = .ok t) :
    During s₀ now (ran ++ called s e t) (gone ++ cancelled s e t) t := by
  refine ⟨h.phase_step hs₀ hs he hst, fun x hx => h.due_step hs₀ hs he hst hx,
    fun p x hw hlt hgone => ?_⟩
  rw [List.mem_append, not_or] at hgone
  refine waiting_step hs (h.waiting p x hw hlt hgone.1) ?_ (fun n hpc => ?_) hst
  · rintro rfl
    exact hgone.2 (List.mem_singleton.mpr rfl)
  · have hphase := h.phase
    rw [Phase, hpc] at hphase
    exact hphase.1 ▸ hlt

theorem during_run {mid : List Event} (hs : Good s) (hmid : .finish ∉ mid)
    (hrun : run step s (.handleRead :: mid) = .ok t) :
    Good t ∧ During s s.clock (observe step called s (.handleRead :: mid))
      (observe step cancelled s (.handleRead :: mid)) t := by
  obtain ⟨u, hread, hrest⟩ := run_cons_ok.mp hrun
  have hstart : Good u ∧ During s s.clock [] [] u := by
    refine ⟨good_step hs hread, ?_⟩
    cases move_of_step hs.inv hread with
    | handleRead hpc =>
      exact ⟨⟨rfl, rfl, rfl, rfl⟩, fun _ _ => rfl, fun p x hw _ _ => ⟨hw.1, hw.2, hw.3⟩⟩
  have hstep : ∀ ran gone a e b, (Good a ∧ During s s.clock ran gone a) → e ≠ .finish →
      step a e = .ok b →
      Good b ∧ During s s.clock (ran ++ called a e b) (gone ++ cancelled a e b) b :=
    fun ran gone a e b h he hab => ⟨good_step h.1 hab, during_step hs.inv h.1 h.2 he hab⟩
  have hend := run_history hstep hstart
    (throughout_of_forall fun e he => ne_of_mem_of_not_mem he hmid) hrest
  rw [observe_cons hread, observe_cons hread]
  exact hend

theorem during_wholeCall {mid : List Event} (hs : Good s) (hmid : .finish ∉ mid)
    (hcall : run step s (wholeCall mid) = .ok t) :
    ∃ u, step u .finish = .ok t ∧ Good u ∧ During s s.clock (observe step called s (wholeCall mid))
      (observe step cancelled s (wholeCall mid)) u := by
  rw [wholeCall, ← List.cons_append] at hcall ⊢
  obtain ⟨u, hmost, hend⟩ := run_append_ok.mp hcall
  rw [run_singleton] at hend
  obtain ⟨hu, hduring⟩ := during_run hs hmid hmost
  refine ⟨u, hend, hu, ?_⟩
  rw [observe_append hmost, observe_append hmost, observe_cons hend, observe_cons hend]
  simpa [called, cancelled, observe] using hduring

theorem called_eq_due {u : State} (hu : Good u) (h : During s now ran gone u)
    (hend : step u .finish = .ok t) : ran.map some = (due s now).map (fun x => idAt s x.timer) := by
  have hphase := h.phase
  cases move_of_step hu.inv hend with
  | finish hpc _ _ =>
    rw [Phase, hpc] at hphase
    rw [← hphase.2.2.1, List.map_nil, List.append_nil]

theorem due_ids_nodup (hs : Inv s) (now : Int) :
    ((due s now).map fun x => idAt s x.timer).Nodup := by
  have hnodup := hs.owned.nodup_below ⟨now, uintptrMax⟩
  rw [below_eq_due hs] at hnodup
  refine List.Nodup.map_on (fun x hx y hy hxy => ?_) hnodup.of_map
  obtain ⟨z, hz, _⟩ := (hs.owned.entry x.expiration x.timer).mp (mem_due.mp hx).1
  have hid : idAt s x.timer = some ⟨x.timer, z.sequence⟩ := by simp [idAt, hz]
  have htimer := (idAt_eq_some.mp (hxy ▸ hid)).2
  exact List.inj_on_of_nodup_map hnodup hx hy htimer

theorem received_of_due (hs : Good s) {x : Entry} (hx : x ∈ due s now) {id : TimerId}
    (hid : idAt s x.timer = some id) : Received s id := by
  obtain ⟨halive, heq⟩ := idAt_eq_some.mp hid
  obtain ⟨y, hy, hseq⟩ := alive_iff.mp halive
  obtain ⟨z, _, _, hactive⟩ := (hs.inv.owned.entry x.expiration x.timer).mp (mem_due.mp hx).1
  refine ⟨hseq ▸ hs.bound _ y hy, fun _ hadding => ?_⟩
  exact hs.inv.owned.not_active_of_loose (.inl (heq ▸ hadding)) _ hactive

theorem due_after {u : State} {x : Timer} (hu : Good u) (h : During s now ran gone u)
    (hend : step u .finish = .ok t) (hp : p ∈ (due s now).map Entry.timer)
    (hx : s.heap p = some x) :
    if x.repeats ∧ ⟨p, x.sequence⟩ ∉ gone then
      Waiting t p { x with expiration := addTime now x.interval }
    else Gone t p := by
  have ht := (good_step hu hend).inv
  obtain ⟨y, hy, rfl⟩ := List.mem_map.mp hp
  have hxu := (h.due y hy).trans hx
  have hphase := h.phase
  cases move_of_step hu.inv hend with
  | finish hpc _ _ =>
    rw [Phase, hpc] at hphase
    obtain ⟨rfl, rfl, _, hnoted⟩ := hphase
    have howned := hu.inv.owned
    rw [hpc] at howned
    obtain ⟨hdue, _, _, hadding, _, hidle⟩ := finish_effect hu.inv hpc hend
    have hafter := hdue y hy x hxu
    simp only [afterReset, hnoted ⟨y.timer, x.sequence⟩ hp] at hafter
    split
    · rename_i hr
      rw [if_pos hr, Timer.restart, if_pos hr.1] at hafter
      refine waiting_of_heap ht hidle hafter fun hmem => ?_
      exact howned.disjoint _ (hadding ▸ hmem) hp
    · rename_i hr
      rw [if_neg hr] at hafter
      exact gone_of_heap ht hafter

/-- A call of `handle_read` runs the timers that were due at its start, each once and in the order
of their expirations, and none that is added meanwhile. After it those that repeat and were not
cancelled wait again and the others are gone, and the timers that were not due wait as before. -/
theorem handle_read_runs_due {c : Int} {pre mid : List Event}
    (hrun : run step (.init c) pre = .ok s) (hmid : .finish ∉ mid)
    (hcall : run step s (wholeCall mid) = .ok t) :
    (observe step called s (wholeCall mid)).map some =
      (due s s.clock).map (fun x => idAt s x.timer) ∧
    (observe step called s (wholeCall mid)).Nodup ∧
    (due s s.clock).Pairwise (fun x y => x.expiration ≤ y.expiration) ∧
    (∀ id ∈ observe step inserted s (wholeCall mid), id ∉ observe step called s (wholeCall mid)) ∧
    ∀ e p, (⟨e, p⟩ : Entry) ∈ s.timers → ∃ x, s.heap p = some x ∧ x.expiration = e ∧
      (e ≤ s.clock →
        if x.repeats ∧ ⟨p, x.sequence⟩ ∉ observe step cancelled s (wholeCall mid) then
          Waiting t p { x with expiration := addTime s.clock x.interval }
        else Gone t p) ∧
      (s.clock < e → ⟨p, x.sequence⟩ ∉ observe step cancelled s (wholeCall mid) →
        Waiting t p x) := by
  have hs := run_good hrun
  obtain ⟨u, hfinish, hu, hduring⟩ := during_wholeCall hs hmid hcall
  have hran := called_eq_due hu hduring hfinish
  refine ⟨hran, ?_, due_pairwise s s.clock, fun id hid hmem => ?_, fun e p hep => ?_⟩
  · have hnodup := due_ids_nodup hs.inv s.clock
    rw [← hran] at hnodup
    exact hnodup.of_map
  · have hmem' := List.mem_map_of_mem (f := some) hmem
    rw [hran] at hmem'
    obtain ⟨x, hx, hxid⟩ := List.mem_map.mp hmem'
    exact not_inserted_of_received hs (received_of_due hs hx hxid) hcall hid
  · obtain ⟨x, hx, rfl, hactive⟩ := (hs.inv.owned.entry e p).mp hep
    refine ⟨x, hx, rfl, fun hle => ?_, fun hlt hnot => ?_⟩
    · exact due_after hu hduring hfinish
        (List.mem_map.mpr ⟨_, mem_due.mpr ⟨hep, hle⟩, rfl⟩) hx
    · refine waiting_step hu (hduring.waiting p x ⟨hx, hep, hactive⟩ hlt hnot) (by simp) ?_ hfinish
      intro n hpc
      rw [step, hpc] at hfinish
      cases hfinish

def cancelAndAdd : List Event :=
  [.expire, .call, .cancel ⟨32, 2⟩, .alloc 48 50 .zero, .add 48, .ret, .call, .ret]

theorem handle_read_runs_due_cancelAndAdd : ∃ s t, run step (.init 0)
      [.alloc 16 100 .zero, .add 16, .alloc 32 200 ⟨true, 500, fun _ => by decide⟩,
        .add 32, .tick 300] = .ok s ∧
    run step s (wholeCall cancelAndAdd) = .ok t ∧
    (observe step called s (wholeCall cancelAndAdd)).map some =
      (due s s.clock).map fun x => idAt s x.timer :=
  have hrun : run step (.init 0)
      [.alloc 16 100 .zero, .add 16, .alloc 32 200 ⟨true, 500, fun _ => by decide⟩,
        .add 32, .tick 300] = .ok _ := rfl
  have hcall : run step _ (wholeCall cancelAndAdd) = .ok _ := rfl
  ⟨_, _, rfl, rfl, (handle_read_runs_due hrun (by simp [cancelAndAdd]) hcall).1⟩

end AcMuduo.TimerQueue

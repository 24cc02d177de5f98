import AcMuduo.TimerNotes

namespace AcMuduo.TimerQueue

open Machine

variable {s t u : State} {e : Event} {p : Addr} {id : TimerId} {now : Int}

/-- The timer exists no more, or is in the batch being run and noted as cancelled. -/
structure Doomed (s : State) (id : TimerId) : Prop where
  numbered : id.sequence ≤ s.numCreated
  noted : Alive s id → id.timer ∈ s.pc.batch.map Entry.timer ∧ id ∈ s.cancelingTimers

theorem not_alive_of_finish {expired : List Entry} (hs : Inv s)
    (hpc : s.pc = .running now expired []) (hmem : id.timer ∈ expired.map Entry.timer)
    (hnoted : id ∈ s.cancelingTimers) (h : step s .finish = .ok t) : ¬ Alive t id := by
  intro ht
  obtain ⟨x, hx, hseq⟩ := alive_iff.mp ht
  obtain ⟨it, hit, heq⟩ := List.mem_map.mp hmem
  have howned := hs.owned
  rw [hpc] at howned
  obtain ⟨y, hy⟩ := Option.ne_none_iff_exists'.mp (howned.allocated _ (.inr hmem))
  rw [← heq] at hx hy
  rw [(finish_effect hs hpc h).1 it hit y hy] at hx
  obtain ⟨hyx, hnot⟩ := afterReset_sequence hx
  rw [heq, ← hyx, hseq] at hnot
  exact hnot hnoted

theorem doomed_step (hd : Doomed s id) (hs : Good s) (h : step s e = .ok t) : Doomed t id := by
  refine ⟨hd.numbered.trans (step_numCreated hs.inv h), fun ht => ?_⟩
  have halive := alive_of_step hs.inv hd.numbered h ht
  obtain ⟨hmem, hnoted⟩ := hd.noted halive
  cases move_of_step hs.inv h with
  | @add q y _ _ _ =>
    obtain ⟨fd, hadd⟩ := added_eq s q y
    rw [hadd]
    exact ⟨hmem, hnoted⟩
  | cancelNoted _ _ _ => exact ⟨hmem, SortedSet.mem_insert.mpr (.inr hnoted)⟩
  | handleRead hpc | expire hpc _ =>
    rw [hpc] at hmem
    cases hmem
  | call hpc | ret hpc =>
    rw [hpc] at hmem
    exact ⟨hmem, hnoted⟩
  | finish hpc _ _ =>
    rw [hpc] at hmem
    exact absurd ht (not_alive_of_finish hs.inv hpc hmem hnoted h)
  | _ => exact ⟨hmem, hnoted⟩

theorem doomed_of_cancel (hs : Good s) (hnumbered : id.sequence ≤ s.numCreated)
    (hadding : Alive s id → id.timer ∉ s.adding) (h : step s (.cancel id) = .ok t) :
    Doomed t id := by
  refine ⟨hnumbered.trans (step_numCreated hs.inv h), fun ht => ?_⟩
  have halive := alive_of_step hs.inv hnumbered h ht
  obtain ⟨x, hx, hseq⟩ := alive_iff.mp halive
  cases move_of_step hs.inv h with
  | cancelActive _ _ _ => simp [alive_iff] at ht
  | cancelNoted _ hid _ =>
    rw [show id = ⟨id.timer, x.sequence⟩ from hseq ▸ rfl] at hid
    have hmem := ((hs.inv.owned.loose _ x hx).mp hid).resolve_left (hadding halive)
    exact ⟨hmem, SortedSet.mem_insert.mpr (.inl rfl)⟩
  | cancelIgnored _ hid hcalling =>
    rw [show id = ⟨id.timer, x.sequence⟩ from hseq ▸ rfl] at hid
    have hmem := ((hs.inv.owned.loose _ x hx).mp hid).resolve_left (hadding halive)
    have hbatch : s.pc.inBatch = true := by
      cases hpc : s.pc <;> simp [hpc, Pc.batch] at hmem <;> rfl
    rw [hs.calling hbatch] at hcalling
    cases hcalling

/-- How often the `handle_read` in progress may still call the timer. -/
def turns (s : State) (id : TimerId) : Nat :=
  match s.pc with
  | .idle => 0
  | .reading _ => 1
  | .running _ _ rest | .calling _ _ rest => (rest.map Entry.timer).count id.timer

theorem turns_le_one (hs : Good s) (id : TimerId) : turns s id ≤ 1 := by
  have hnodup : (s.pc.rest.map Entry.timer).Nodup :=
    hs.inv.owned.nodup.sublist (hs.suffix.sublist.map _)
  have hcount := List.nodup_iff_count_le_one.mp hnodup id.timer
  cases hpc : s.pc with
  | idle => simp [turns, hpc]
  | reading now => simp [turns, hpc]
  | running now expired rest | calling now expired rest =>
    rw [hpc] at hcount
    simpa [turns, hpc, Pc.rest] using hcount

theorem turns_eq (h : t.pc = s.pc) (id : TimerId) : turns t id = turns s id := by
  rw [turns, turns, h]

theorem turns_step (id : TimerId) (hs : Good s) (he : e ≠ .handleRead) (h : step s e = .ok t) :
    (called s e t).count id + turns t id ≤ turns s id := by
  have ht := turns_le_one (good_step hs h) id
  cases move_of_step hs.inv h with
  | alloc _ _ | tick | cancelActive _ _ _ | cancelNoted _ _ _ | cancelIgnored _ _ _ =>
    simp [called, turns]
  | @add q y _ _ _ =>
    obtain ⟨fd, hadd⟩ := added_eq s q y
    simp [called, turns, hadd]
  | handleRead _ => exact absurd rfl he
  | expire hpc _ =>
    rw [show turns s id = 1 by rw [turns, hpc]]
    simpa [called] using ht
  | @call now expired it rest hpc =>
    have hcount : (idAt s it.timer).toList.count id ≤ if it.timer = id.timer then 1 else 0 := by
      cases hid : idAt s it.timer with
      | none => simp
      | some id' =>
        obtain ⟨_, heq⟩ := idAt_eq_some.mp hid
        by_cases hne : id' = id
        · subst hne
          simp [heq]
        · simp [hne]
    simp only [called, turns, hpc, List.map_cons, List.count_cons, beq_iff_eq]
    omega
  | ret hpc => simp [called, turns, hpc]
  | finish hpc _ _ =>
    rw [turns, (finish_effect hs.inv hpc h).2.2.2.2.2]
    simp [called]

theorem alive_of_called (h : id ∈ called s e t) : Alive s id := by
  simp only [called] at h
  split at h
  · exact (idAt_eq_some.mp (Option.mem_toList.mp h)).1
  · cases h

theorem turns_step_of_doomed (hd : Doomed s id) (hs : Good s) (h : step s e = .ok t) :
    (called s e t).count id + (if Alive t id then turns t id else 0) ≤
      if Alive s id then turns s id else 0 := by
  by_cases halive : Alive s id
  · have he : e ≠ .handleRead := by
      rintro rfl
      cases move_of_step hs.inv h with
      | handleRead hpc =>
        have hmem := (hd.noted halive).1
        rw [hpc] at hmem
        cases hmem
    have hturns := turns_step id hs he h
    rw [if_pos halive]
    split
    · exact hturns
    · omega
  · have ht : ¬ Alive t id := fun ht => halive (alive_of_step hs.inv hd.numbered h ht)
    have hnot : id ∉ called s e t := fun hmem => halive (alive_of_called hmem)
    simp [halive, ht, List.count_eq_zero.mpr hnot]

theorem run_doomed {es : List Event} (hd : Doomed s id) (hs : Good s)
    (hrun : run step s es = .ok t) :
    (observe step called s es).count id ≤ if Alive s id then turns s id else 0 := by
  have hstep : ∀ (h : List TimerId) a e b,
      (Good a ∧ Doomed a id ∧ h.count id + (if Alive a id then turns a id else 0) ≤
        if Alive s id then turns s id else 0) → True → step a e = .ok b →
      Good b ∧ Doomed b id ∧
        (h ++ called a e b).count id + (if Alive b id then turns b id else 0) ≤
          if Alive s id then turns s id else 0 := by
    rintro h a e b ⟨hs, hd, hle⟩ - hab
    have hturns := turns_step_of_doomed hd hs hab
    refine ⟨good_step hs hab, doomed_step hd hs hab, ?_⟩
    rw [List.count_append]
    omega
  have hend := run_observed hstep ⟨hs, hd, by simp⟩ throughout_true hrun
  omega

theorem run_turns (id : TimerId) {es : List Event} (hs : Good s) (hes : .handleRead ∉ es)
    (hrun : run step s es = .ok t) :
    (observe step called s es).count id + turns t id ≤ turns s id := by
  have hstep : ∀ (h : List TimerId) a e b,
      (Good a ∧ h.count id + turns a id ≤ turns s id) → e ≠ .handleRead → step a e = .ok b →
      Good b ∧ (h ++ called a e b).count id + turns b id ≤ turns s id := by
    rintro h a e b ⟨hs, hle⟩ he hab
    have hturns := turns_step id hs he hab
    refine ⟨good_step hs hab, ?_⟩
    rw [List.count_append]
    omega
  exact (run_observed hstep ⟨hs, by simp⟩
    (throughout_of_forall fun e he => ne_of_mem_of_not_mem he hes) hrun).2

theorem run_keeps_doomed {es : List Event} (hd : Doomed s id) (hs : Good s)
    (hrun : run step s es = .ok t) : Good t ∧ Doomed t id :=
  run_invariant (I := fun s => Good s ∧ Doomed s id)
    (fun _ _ _ h hst => ⟨good_step h.1 hst, doomed_step h.2 h.1 hst⟩) ⟨hs, hd⟩ hrun

theorem not_called_of_handleRead {es : List Event} (hd : Doomed s id) (hs : Good s)
    (hrun : run step s (.handleRead :: es) = .ok t) :
    id ∉ observe step called s (.handleRead :: es) := by
  have hdead : ¬ Alive s id := by
    intro halive
    obtain ⟨u, hread, _⟩ := run_cons_ok.mp hrun
    cases move_of_step hs.inv hread with
    | handleRead hpc =>
      have hmem := (hd.noted halive).1
      rw [hpc] at hmem
      cases hmem
  have hcount := run_doomed hd hs hrun
  rw [if_neg hdead] at hcount
  exact List.count_eq_zero.mp (Nat.le_zero.mp hcount)

theorem cancel_pc (hs : Inv s) (h : step s (.cancel id) = .ok t) : t.pc = s.pc := by
  cases move_of_step hs h with
  | _ => rfl

theorem turns_of_cancel (hs : Inv s) (h : step s (.cancel id) = .ok t) :
    turns t id = (s.pc.rest.map Entry.timer).count id.timer := by
  rw [turns_eq (cancel_pc hs h)]
  have huser := inUserCode_of_cancel h
  cases hpc : s.pc with
  | idle => simp [turns, hpc, Pc.rest]
  | calling now expired rest => simp [turns, hpc, Pc.rest]
  | reading now | running now expired rest =>
    rw [hpc] at huser
    cases huser

theorem sameButNotes_of_cancel (hs : Inv s) (hnum : id.sequence ≤ s.numCreated)
    (hdead : ¬ Alive s id) (h : step s (.cancel id) = .ok t) : SameButNotes s t := by
  cases move_of_step hs h with
  | cancelActive _ hx _ => exact absurd (alive_iff.mpr ⟨_, hx, rfl⟩) hdead
  | cancelNoted _ _ _ =>
    refine ⟨rfl, fun id' hid' => ?_⟩
    have hne : id' ≠ id := by
      rintro rfl
      exact hdead (hid' hnum)
    simp [hne]
  | cancelIgnored _ _ _ => exact .refl s

/-- After the cancel of a timer that was handed to `add_timer_in_loop` no `handle_read` that starts
later calls it, the one in progress calls it at most once in all and, if it has not called it yet,
only as an entry of its batch, and if the timer was deleted before, nothing depends on the cancel. -/
theorem cancel_is_final {c : Int} {pre : List Event} (hrun : run step (.init c) pre = .ok s)
    (hid : id ∈ observe step inserted (.init c) pre) (hcancel : step s (.cancel id) = .ok t) :
    (∀ mid v post u, run step t mid = .ok v → run step v (.handleRead :: post) = .ok u →
      id ∉ observe step called v (.handleRead :: post)) ∧
    (∀ post u, run step t post = .ok u →
      (observe step called t post).count id ≤ (s.pc.rest.map Entry.timer).count id.timer ∧
      ∀ pre₁ r pre₂, pre = pre₁ ++ .handleRead :: pre₂ → .handleRead ∉ pre₂ →
        run step (.init c) pre₁ = .ok r →
        (observe step called r (.handleRead :: pre₂) ++
          observe step called t post).count id ≤ 1) ∧
    (¬ Alive s id → ∀ post, Related SameButNotes (run step s post) (run step t post) ∧
      observe step called s post = observe step called t post) := by
  have hs := run_good hrun
  have ht := good_step hs hcancel
  have hreceived := run_inserted hrun hid
  have hdoomed := doomed_of_cancel hs hreceived.numbered hreceived.notAdding hcancel
  have hleft : ∀ post u, run step t post = .ok u →
      (observe step called t post).count id ≤ turns t id := by
    intro post u hpost
    refine (run_doomed hdoomed ht hpost).trans ?_
    split
    · exact le_rfl
    · exact Nat.zero_le _
  refine ⟨fun mid v post u hmid hpost => ?_, fun post u hpost => ⟨?_, ?_⟩, fun hdead post => ?_⟩
  · obtain ⟨hv, hdoomed'⟩ := run_keeps_doomed hdoomed ht hmid
    exact not_called_of_handleRead hdoomed' hv hpost
  · exact turns_of_cancel hs.inv hcancel ▸ hleft post u hpost
  · rintro pre₁ r pre₂ rfl hpre₂ hr
    obtain ⟨r', hr', hrs⟩ := run_append_ok.mp hrun
    rw [hr, Except.ok.injEq] at hr'
    subst hr'
    obtain ⟨w, hread, hws⟩ := run_cons_ok.mp hrs
    have hw := good_step (run_good hr) hread
    have hturns := run_turns id hw hpre₂ hws
    have hone := turns_le_one hw id
    have hpost' := hleft post u hpost
    rw [turns_eq (cancel_pc hs.inv hcancel)] at hpost'
    rw [observe_cons hread, List.append_assoc, List.count_append, List.count_append]
    have hnone : (called r .handleRead w).count id = 0 := rfl
    omega
  · exact (sameButNotes_of_cancel hs.inv hreceived.numbered hdead hcancel).run_related hs

def cancelInBatch : List Event :=
  [.alloc 16 100 .zero, .add 16, .alloc 32 200 ⟨true, 500, fun _ => by decide⟩,
    .add 32, .tick 300, .handleRead, .expire, .call]

theorem cancel_is_final_cancelInBatch : ∃ s t v, run step (.init 0) cancelInBatch = .ok s ∧
    step s (.cancel ⟨32, 2⟩) = .ok t ∧ run step t [.ret, .call, .ret, .finish, .tick 1000] = .ok v ∧
    ∀ post u, run step v (.handleRead :: post) = .ok u →
      (⟨32, 2⟩ : TimerId) ∉ observe step called v (.handleRead :: post) :=
  have hrun : run step (.init 0) cancelInBatch = .ok _ := rfl
  have hcancel : step _ (.cancel ⟨32, 2⟩) = .ok _ := rfl
  have hmid : run step _ [.ret, .call, .ret, .finish, .tick 1000] = .ok _ := rfl
  ⟨_, _, _, rfl, rfl, rfl,
    fun post u => (cancel_is_final hrun (by decide) hcancel).1 _ _ post u hmid⟩

end AcMuduo.TimerQueue

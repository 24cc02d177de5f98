import AcMuduo.TimerExpiry
import AcMuduo.TimerArming
import Mathlib.Data.List.Chain

namespace AcMuduo.TimerQueue

open Machine

def allocated (s : State) (e : Event) (_ : State) : List (TimerId × Int × Seconds) :=
  match e with
  | .alloc p expiration interval => [(⟨p, s.numCreated + 1⟩, expiration, interval)]
  | _ => []

def calls (s : State) (e : Event) (_ : State) : List (TimerId × Int) :=
  match e, s.pc with
  | .call, .running now _ (it :: _) => (idAt s it.timer).toList.map fun id => (id, now)
  | _, _ => []

def timesOf (id : TimerId) (history : List (TimerId × Int)) : List Int :=
  history.filterMap fun call => if call.1 = id then some call.2 else none

/-- The time before which a timer is not called, after the calls at `times`. -/
def notBefore (expiration : Int) (interval : Seconds) (times : List Int) : Int :=
  match times.getLast? with
  | none => expiration
  | some now => addTime now interval

def IsInt64 (n : Int) : Prop := Int64.minValue.toInt ≤ n ∧ n ≤ Int64.maxValue.toInt

instance (n : Int) : Decidable (IsInt64 n) := inferInstanceAs (Decidable (_ ∧ _))

def FitsAlloc : Event → Prop
  | .alloc _ expiration interval => IsInt64 expiration ∧ IsInt64 interval.micros
  | _ => True

/-- The microseconds that the code computes with fit into an `int64_t`: the reading of the clock,
the expirations of the timers that wait, where `restart` has put its sums, how far away these are,
and what a new timer is set to. Otherwise the casts and sums of the code are undefined. -/
def FitsInt64 (s : State) (e : Event) : Prop :=
  IsInt64 s.clock ∧ FitsAlloc e ∧
    ∀ it ∈ s.timers.elems, IsInt64 it.expiration ∧ IsInt64 (it.expiration - s.clock)

instance : ∀ e, Decidable (FitsAlloc e)
  | .alloc _ _ _ => inferInstanceAs (Decidable (_ ∧ _))
  | .tick _ | .add _ | .cancel _ | .handleRead | .expire | .call | .ret | .finish =>
    inferInstanceAs (Decidable True)

instance (s : State) (e : Event) : Decidable (FitsInt64 s e) :=
  inferInstanceAs (Decidable (_ ∧ _ ∧ ∀ it ∈ s.timers.elems, _ ∧ _))

variable {s t : State} {e : Event} {p : Addr} {id : TimerId} {now expiration : Int}
  {interval : Seconds} {history : List (TimerId × Int)} {times : List Int}

theorem timesOf_append (id : TimerId) (h h' : List (TimerId × Int)) :
    timesOf id (h ++ h') = timesOf id h ++ timesOf id h' :=
  List.filterMap_append

theorem timesOf_eq_nil (h : ∀ call ∈ history, call.1 ≠ id) : timesOf id history = [] := by
  apply List.filterMap_eq_nil_iff.mpr
  intro call hcall
  exact if_neg (h call hcall)

theorem timer_of_step (hs : Inv s) (h : step s e = .ok t) {x y : Timer} (hx : s.heap p = some x)
    (hy : t.heap p = some y) :
    y = x ∧ (e = .finish → p ∉ s.pc.batch.map Entry.timer) ∨
      ∃ now expired, s.pc = .running now expired [] ∧ p ∈ expired.map Entry.timer ∧
        x.repeats = true ∧ y = x.restart now ∧ t.pc = .idle := by
  cases move_of_step hs h with
  | @alloc q _ _ hq _ =>
    have hpq : p ≠ q := by
      rintro rfl
      rw [hq] at hx
      cases hx
    refine .inl ⟨Option.some.inj (hy.symm.trans ?_), by simp⟩
    simpa [Function.update_of_ne hpq] using hx
  | @add q z _ _ _ =>
    obtain ⟨fd, hadd⟩ := added_eq s q z
    rw [hadd] at hy
    exact .inl ⟨Option.some.inj (hy.symm.trans hx), by simp⟩
  | @cancelActive q z _ _ _ =>
    have hpq : p ≠ q := by
      rintro rfl
      simp at hy
    refine .inl ⟨Option.some.inj (hy.symm.trans ?_), by simp⟩
    simpa [Function.update_of_ne hpq] using hx
  | expire _ _ =>
    obtain ⟨fd, hfd⟩ := readTimerFd_eq s
    rw [hfd] at hy
    exact .inl ⟨Option.some.inj (hy.symm.trans hx), by simp⟩
  | @finish now expired _ hpc _ _ =>
    obtain ⟨hdue, hother, _, _, _, hidle⟩ := finish_effect hs hpc h
    by_cases hp : p ∈ expired.map Entry.timer
    · obtain ⟨it, hit, rfl⟩ := List.mem_map.mp hp
      rw [hdue it hit x hx, afterReset] at hy
      split at hy
      · rename_i hr
        exact .inr ⟨now, expired, hpc, hp, hr.1, (Option.some.inj hy).symm, hidle⟩
      · cases hy
    · rw [hother p hp] at hy
      refine .inl ⟨Option.some.inj (hy.symm.trans hx), fun _ => ?_⟩
      rw [hpc]
      exact hp
  | tick | cancelNoted _ _ _ | cancelIgnored _ _ _ | handleRead _ | call _ | ret _ =>
    exact .inl ⟨Option.some.inj (hy.symm.trans hx), by simp⟩

/-- What is known of an allocated timer from the calls so far. In the batch it is due; until it is
called it is not early, and after it the last call is the one of this `handle_read`. -/
structure OnTime (expiration : Int) (interval : Seconds) (times : List Int) (p : Addr)
    (x : Timer) (pc : Pc) : Prop where
  same : x.interval = interval
  due : p ∈ pc.batch.map Entry.timer → ∀ now, pc.now? = some now → x.expiration ≤ now
  early : (p ∈ pc.batch.map Entry.timer → p ∈ pc.rest.map Entry.timer) →
    notBefore expiration interval times ≤ x.expiration ∧ (interval.positive = false → times = [])
  called : p ∈ pc.batch.map Entry.timer → p ∉ pc.rest.map Entry.timer →
    ∀ now, pc.now? = some now → times.getLast? = some now

structure Paced (expiration : Int) (interval : Seconds) (times : List Int) (id : TimerId)
    (s : State) : Prop where
  known : id.sequence ≤ s.numCreated
  first : ∀ now ∈ times.head?, expiration ≤ now
  apart : times.IsChain fun now now' => addTime now interval ≤ now'
  once : interval.positive = false → times.length ≤ 1
  timer : ∀ x, s.heap id.timer = some x → x.sequence = id.sequence →
    OnTime expiration interval times id.timer x s.pc

theorem OnTime.step (hs : Good s) {x : Timer} (hx : s.heap p = some x)
    (h : OnTime expiration interval times p x s.pc)
    (hcall : ∀ now expired it rest, s.pc = .running now expired (it :: rest) → e = .call →
      it.timer ≠ p)
    (hfinish : e = .finish → p ∉ s.pc.batch.map Entry.timer) (hst : step s e = .ok t) :
    OnTime expiration interval times p x t.pc := by
  cases move_of_step hs.inv hst with
  | @add q y _ _ _ =>
    obtain ⟨fd, hadd⟩ := added_eq s q y
    rw [hadd]
    exact h
  | handleRead hpc =>
    rw [hpc] at h
    exact ⟨h.same, by simp [Pc.batch], fun _ => h.early (by simp [Pc.batch]), by simp [Pc.batch]⟩
  | @expire now left hpc _ =>
    rw [hpc] at h
    refine ⟨h.same, fun hp now' hnow' => ?_, fun _ => h.early (by simp [Pc.batch]),
      fun hp hnot => absurd hp hnot⟩
    cases hnow'
    obtain ⟨it, hit, rfl⟩ := List.mem_map.mp hp
    simp only [Pc.batch, below_eq_due hs.inv, mem_due] at hit
    obtain ⟨y, hy, hexpiration, _⟩ := (hs.inv.owned.entry it.expiration it.timer).mp hit.1
    rw [hx, Option.some.injEq] at hy
    rw [hy, hexpiration]
    exact hit.2
  | @call now expired it rest hpc =>
    have hne := hcall now expired it rest hpc rfl
    rw [hpc] at h
    have hrest : p ∈ (it :: rest).map Entry.timer ↔ p ∈ rest.map Entry.timer := by
      rw [List.map_cons, List.mem_cons, or_iff_right hne.symm]
    exact ⟨h.same, h.due, fun hp => h.early fun hb => hrest.mpr (hp hb),
      fun hb hnot => h.called hb fun hp => hnot (hrest.mp hp)⟩
  | @ret now expired rest hpc =>
    rw [hpc] at h
    exact ⟨h.same, h.due, h.early, h.called⟩
  | @finish now expired _ hpc _ _ =>
    have hidle := (finish_effect hs.inv hpc hst).2.2.2.2.2
    have hnot := hfinish rfl
    rw [hidle]
    exact ⟨h.same, by simp [Pc.batch], fun _ => h.early fun hb => absurd hb hnot,
      by simp [Pc.batch]⟩
  | alloc _ _ | tick | cancelActive _ _ _ | cancelNoted _ _ _ | cancelIgnored _ _ _ => exact h

theorem OnTime.restart {expired : List Entry} {x : Timer}
    (h : OnTime expiration interval times p x (.running now expired []))
    (hp : p ∈ expired.map Entry.timer) (hrepeats : x.repeats = true) :
    OnTime expiration interval times p (x.restart now) .idle := by
  have hlast : times.getLast? = some now := h.called hp (by simp [Pc.rest]) now rfl
  have hrestart : x.restart now = { x with expiration := addTime now x.interval } :=
    if_pos hrepeats
  rw [hrestart]
  refine ⟨h.same, by simp [Pc.batch], fun _ => ⟨?_, fun hpositive => ?_⟩, by simp [Pc.batch]⟩
  · rw [notBefore, hlast, h.same]
  · rw [Timer.repeats, h.same, hpositive] at hrepeats
    cases hrepeats

theorem timesOf_calls (s : State) (e : Event) (t : State) (id : TimerId) :
    timesOf id (calls s e t) = [] ∧
        (∀ now expired it rest, s.pc = .running now expired (it :: rest) → e = .call →
          idAt s it.timer ≠ some id) ∨
      ∃ now expired it rest, e = .call ∧ s.pc = .running now expired (it :: rest) ∧
        idAt s it.timer = some id ∧ timesOf id (calls s e t) = [now] := by
  by_cases hcall : ∃ now expired it rest, e = .call ∧ s.pc = .running now expired (it :: rest) ∧
      idAt s it.timer = some id
  · obtain ⟨now, expired, it, rest, rfl, hpc, hid⟩ := hcall
    refine .inr ⟨now, expired, it, rest, rfl, hpc, hid, ?_⟩
    simp [calls, hpc, hid, timesOf]
  · refine .inl ⟨timesOf_eq_nil fun call hmem hid => hcall ?_,
      fun now expired it rest hpc he hid => hcall ⟨now, expired, it, rest, he, hpc, hid⟩⟩
    unfold calls at hmem
    split at hmem
    · rename_i now expired it rest hpc
      obtain ⟨id', hid', rfl⟩ := List.mem_map.mp hmem
      exact ⟨now, expired, it, rest, rfl, hpc, (Option.mem_toList.mp hid').trans (congrArg _ hid)⟩
    · cases hmem

theorem timer_before (hs : Inv s) (hid : id.sequence ≤ s.numCreated) (h : step s e = .ok t)
    {y : Timer} (hy : t.heap id.timer = some y) (hseq : y.sequence = id.sequence) :
    ∃ x, s.heap id.timer = some x ∧ x.sequence = id.sequence := by
  cases step_heap hs h hy with
  | inl hold =>
    obtain ⟨x, hx, heq⟩ := hold
    exact ⟨x, hx, heq.trans hseq⟩
  | inr hnew =>
    have hsequence := hnew.2.1
    omega

theorem Paced.other_step (hs : Good s) (h : Paced expiration interval times id s)
    (hcall : ∀ now expired it rest, s.pc = .running now expired (it :: rest) → e = .call →
      idAt s it.timer ≠ some id) (hst : step s e = .ok t) :
    Paced expiration interval times id t := by
  refine ⟨h.known.trans (step_numCreated hs.inv hst), h.first, h.apart, h.once,
    fun y hy hseq => ?_⟩
  obtain ⟨x, hx, hxseq⟩ := timer_before hs.inv h.known hst hy hseq
  have htimer := h.timer x hx hxseq
  cases timer_of_step hs.inv hst hx hy with
  | inl hsame =>
    obtain ⟨rfl, hfinish⟩ := hsame
    refine htimer.step hs hx (fun now expired it rest hpc he hit => ?_) hfinish hst
    refine hcall now expired it rest hpc he (idAt_eq_some.mpr ⟨?_, hit.symm⟩)
    exact alive_iff.mpr ⟨y, hx, hxseq⟩
  | inr hreset =>
    obtain ⟨now, expired, hpc, hp, hrepeats, rfl, hidle⟩ := hreset
    rw [hpc] at htimer
    rw [hidle]
    exact htimer.restart hp hrepeats

theorem Paced.call_step (hs : Good s) (h : Paced expiration interval times id s)
    {expired rest : List Entry} {it : Entry} (hpc : s.pc = .running now expired (it :: rest))
    (hid : idAt s it.timer = some id) (hst : step s .call = .ok t) :
    Paced expiration interval (times ++ [now]) id t := by
  obtain ⟨halive, htimer⟩ := idAt_eq_some.mp hid
  obtain ⟨x, hx, hxseq⟩ := alive_iff.mp halive
  have hrest := hs.inv.rest
  have hsuffix := hs.suffix
  have hnodup := hs.inv.owned.nodup
  rw [hpc] at hrest hsuffix hnodup
  have hbatch : id.timer ∈ expired.map Entry.timer :=
    htimer ▸ List.mem_map_of_mem (hrest List.mem_cons_self)
  have hnot : id.timer ∉ rest.map Entry.timer := by
    have htail := hnodup.sublist (hsuffix.sublist.map Entry.timer)
    rw [htimer]
    exact (List.nodup_cons.mp htail).1
  have hon := h.timer x hx hxseq
  rw [hpc] at hon
  obtain ⟨hearly, honce⟩ := hon.early fun _ => by simp [Pc.rest, htimer]
  have hdue := hon.due hbatch now rfl
  cases move_of_step hs.inv hst with
  | @call now' expired' it' rest' hpc' =>
    obtain ⟨rfl, rfl, rfl, rfl⟩ : now' = now ∧ expired' = expired ∧ it' = it ∧ rest' = rest := by
      rw [hpc] at hpc'
      cases hpc'
      exact ⟨rfl, rfl, rfl, rfl⟩
    have hbefore : notBefore expiration interval times ≤ now' := hearly.trans hdue
    refine ⟨h.known, fun a ha => ?_, ?_, fun hpositive => ?_, fun y hy hseq => ?_⟩
    · cases times with
      | nil =>
        cases ha
        exact hbefore
      | cons b times => exact h.first a ha
    · refine List.isChain_append.mpr ⟨h.apart, List.isChain_singleton _, fun a ha b hb => ?_⟩
      cases hb
      rw [notBefore, ha] at hbefore
      exact hbefore
    · rw [honce hpositive]
      exact le_rfl
    · have hsame : y = x := Option.some.inj (hy.symm.trans hx)
      subst hsame
      refine ⟨hon.same, fun hb => hon.due hb, fun hp => absurd (hp hbatch) hnot, fun _ _ a ha => ?_⟩
      cases ha
      exact List.getLast?_concat

theorem paced_step (hs : Good s) (h : Paced expiration interval (timesOf id history) id s)
    (hst : step s e = .ok t) :
    Paced expiration interval (timesOf id (history ++ calls s e t)) id t := by
  rw [timesOf_append]
  obtain ⟨hnil, hother⟩ | ⟨now, expired, it, rest, rfl, hpc, hid, hcalled⟩ := timesOf_calls s e t id
  · rw [hnil, List.append_nil]
    exact h.other_step hs hother hst
  · rw [hcalled]
    exact h.call_step hs hpc hid hst

theorem paced_alloc (hs : Good s) (hst : step s (.alloc p expiration interval) = .ok t) :
    Paced expiration interval [] ⟨p, s.numCreated + 1⟩ t := by
  cases move_of_step hs.inv hst with
  | alloc hp hmax =>
    refine ⟨le_rfl, by simp, List.isChain_nil, fun _ => Nat.zero_le 1, fun x hx hseq => ?_⟩
    simp only [Function.update_self, Option.some.injEq] at hx
    have hnot : p ∉ s.pc.batch.map Entry.timer := fun hb => hs.inv.owned.allocated p (.inr hb) hp
    subst hx
    exact ⟨rfl, fun hb => absurd hb hnot, fun _ => ⟨le_rfl, fun _ => rfl⟩,
      fun hb => absurd hb hnot⟩

theorem now_of_step (hs : Inv s) (hst : step s e = .ok t) (h : t.pc.now? = some now) :
    s.pc.now? = some now ∨ now = s.clock := by
  cases move_of_step hs hst with
  | @add q y _ _ _ =>
    obtain ⟨fd, hadd⟩ := added_eq s q y
    rw [hadd] at h
    exact .inl h
  | handleRead _ =>
    cases h
    exact .inr rfl
  | expire hpc _ | call hpc | ret hpc =>
    cases h
    rw [hpc]
    exact .inl rfl
  | @finish now' expired _ hpc _ _ =>
    have hidle := (finish_effect hs hpc hst).2.2.2.2.2
    rw [hidle] at h
    cases h
  | alloc _ _ | tick | cancelActive _ _ _ | cancelNoted _ _ _ | cancelIgnored _ _ _ =>
    exact .inl h

structure Histories (history : List (TimerId × Int)) (made : List (TimerId × Int × Seconds))
    (s : State) : Prop where
  good : Good s
  now : ∀ now, s.pc.now? = some now → IsInt64 now
  called : ∀ call ∈ history, call.1.sequence ≤ s.numCreated ∧ IsInt64 call.2
  paced : ∀ timer ∈ made, Paced timer.2.1 timer.2.2 (timesOf timer.1 history) timer.1 s

theorem Histories.step {made : List (TimerId × Int × Seconds)} (h : Histories history made s)
    (hfits : FitsInt64 s e) (hst : step s e = .ok t) :
    Histories (history ++ calls s e t) (made ++ allocated s e t) t := by
  have hgrows := step_numCreated h.good.inv hst
  refine ⟨good_step h.good hst, fun now hnow => ?_, fun call hcall => ?_, fun timer htimer => ?_⟩
  · cases now_of_step h.good.inv hst hnow with
    | inl hnow => exact h.now now hnow
    | inr hclock => exact hclock ▸ hfits.1
  · cases List.mem_append.mp hcall with
    | inl hold => exact ⟨(h.called call hold).1.trans hgrows, (h.called call hold).2⟩
    | inr hnew =>
      unfold calls at hnew
      split at hnew
      · rename_i now expired it rest hpc
        obtain ⟨id, hid, rfl⟩ := List.mem_map.mp hnew
        obtain ⟨halive, -⟩ := idAt_eq_some.mp (Option.mem_toList.mp hid)
        obtain ⟨x, hx, hseq⟩ := alive_iff.mp halive
        exact ⟨hseq ▸ (h.good.bound _ x hx).trans hgrows, h.now now (by rw [hpc, Pc.now?])⟩
      · cases hnew
  · cases List.mem_append.mp htimer with
    | inl hold => exact paced_step h.good (h.paced timer hold) hst
    | inr hnew =>
      cases e with
      | alloc p expiration interval =>
        obtain rfl := List.mem_singleton.mp hnew
        have hnone : timesOf ⟨p, s.numCreated + 1⟩ history = [] := by
          apply timesOf_eq_nil
          intro call hcall heq
          have hold := (h.called call hcall).1
          rw [heq] at hold
          dsimp only at hold
          omega
        have hcalls : calls s (.alloc p expiration interval) t = [] := rfl
        rw [hcalls, List.append_nil, hnone]
        exact paced_alloc h.good hst
      | _ => cases hnew

end AcMuduo.TimerQueue

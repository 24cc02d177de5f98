import AcMuduo.TimerQueue

namespace AcMuduo.TimerQueue

open Machine

/-- The ownership of timers outside the bodies of the operations. Every allocated timer is in
both sets, or with an `add_timer` in progress, or in the batch being run, and in one place only. -/
structure Owned (heap : Addr → Option Timer) (timers : SortedSet Entry)
    (active : SortedSet TimerId) (adding : Finset Addr) (batch : List Addr) : Prop where
  entry : ∀ e p, (⟨e, p⟩ : Entry) ∈ timers ↔
    ∃ t, heap p = some t ∧ t.expiration = e ∧ (⟨p, t.sequence⟩ : TimerId) ∈ active
  live : ∀ p q, (⟨p, q⟩ : TimerId) ∈ active → ∃ t, heap p = some t ∧ t.sequence = q
  size : timers.size = active.size
  bounded : ∀ p, heap p ≠ none → p ≠ uintptrMax
  loose : ∀ p t, heap p = some t →
    ((⟨p, t.sequence⟩ : TimerId) ∉ active ↔ p ∈ adding ∨ p ∈ batch)
  allocated : ∀ p, p ∈ adding ∨ p ∈ batch → heap p ≠ none
  nodup : batch.Nodup
  disjoint : ∀ p ∈ adding, p ∉ batch

variable {heap : Addr → Option Timer} {timers : SortedSet Entry} {active : SortedSet TimerId}
  {adding : Finset Addr} {batch : List Addr} {p : Addr} {t : Timer}

theorem owned_init : Owned (fun _ => none) .empty .empty ∅ [] := by
  constructor <;> simp

theorem Owned.notMem_timers (h : Owned heap timers active adding batch) {e : Int}
    (hp : heap p = none) : (⟨e, p⟩ : Entry) ∉ timers := by
  simp [h.entry, hp]

theorem Owned.notMem_active (h : Owned heap timers active adding batch) {q : Int}
    (hp : heap p = none) : (⟨p, q⟩ : TimerId) ∉ active := by
  intro hq
  obtain ⟨t, ht, _⟩ := h.live p q hq
  simp [hp] at ht

theorem Owned.not_active_of_loose (h : Owned heap timers active adding batch)
    (hp : p ∈ adding ∨ p ∈ batch) (q : Int) : (⟨p, q⟩ : TimerId) ∉ active := by
  intro hq
  obtain ⟨t, ht, rfl⟩ := h.live p q hq
  exact (h.loose p t ht).mpr hp hq

theorem Owned.not_timers_of_loose (h : Owned heap timers active adding batch)
    (hp : p ∈ adding ∨ p ∈ batch) (e : Int) : (⟨e, p⟩ : Entry) ∉ timers := by
  intro he
  obtain ⟨t, _, _, hq⟩ := (h.entry e p).mp he
  exact h.not_active_of_loose hp _ hq

theorem Owned.alloc (h : Owned heap timers active adding batch) (hp : heap p = none)
    (hmax : p ≠ uintptrMax) (t : Timer) :
    Owned (Function.update heap p (some t)) timers active (Insert.insert p adding) batch := by
  have hnb : p ∉ batch := fun hb => h.allocated p (.inr hb) hp
  refine ⟨fun e x => ?_, fun x q hq => ?_, h.size, fun x hx => ?_, fun x u hu => ?_,
    fun x hx => ?_, h.nodup, fun x hx => ?_⟩
  · by_cases hxp : x = p
    · subst hxp
      have hna := h.notMem_active (q := t.sequence) hp
      simp [h.notMem_timers hp, hna]
    · simpa [Function.update_of_ne hxp] using h.entry e x
  · have hxp : x ≠ p := fun he => h.notMem_active hp (he ▸ hq)
    simpa [Function.update_of_ne hxp] using h.live x q hq
  · by_cases hxp : x = p
    · exact hxp ▸ hmax
    · exact h.bounded x (by simpa [Function.update_of_ne hxp] using hx)
  · by_cases hxp : x = p
    · subst hxp
      simp [h.notMem_active hp]
    · have hu' : heap x = some u := by simpa [Function.update_of_ne hxp] using hu
      simpa [hxp] using h.loose x u hu'
  · by_cases hxp : x = p
    · simp [hxp]
    · simpa [Function.update_of_ne hxp] using h.allocated x (by simpa [hxp] using hx)
  · cases Finset.mem_insert.mp hx with
    | inl heq => exact heq ▸ hnb
    | inr hx => exact h.disjoint x hx

theorem Owned.hand (h : Owned heap timers active adding batch) (hp : p ∈ adding) :
    Owned heap timers active (adding.erase p) (p :: batch) := by
  have hiff : ∀ x, (x ∈ adding.erase p ∨ x ∈ p :: batch) ↔ x ∈ adding ∨ x ∈ batch := by
    intro x
    by_cases hxp : x = p
    · simp [hxp, hp]
    · simp [hxp]
  refine ⟨h.entry, h.live, h.size, h.bounded, fun x u hu => ?_, fun x hx => ?_, ?_, fun x hx => ?_⟩
  · rw [hiff]
    exact h.loose x u hu
  · exact h.allocated x ((hiff x).mp hx)
  · exact List.nodup_cons.mpr ⟨h.disjoint p hp, h.nodup⟩
  · obtain ⟨hne, hx⟩ := Finset.mem_erase.mp hx
    simpa [hne] using h.disjoint x hx

theorem Owned.insert (h : Owned heap timers active adding (p :: batch)) (ht : heap p = some t) :
    Owned heap (timers.insert ⟨t.expiration, p⟩) (active.insert ⟨p, t.sequence⟩) adding batch := by
  have hloose : p ∈ adding ∨ p ∈ p :: batch := .inr (by simp)
  have hnt := h.not_timers_of_loose hloose
  have hna := h.not_active_of_loose hloose
  have hpa : p ∉ adding := fun hp => h.disjoint p hp (by simp)
  obtain ⟨hpb, hnodup⟩ := List.nodup_cons.mp h.nodup
  refine ⟨fun e x => ?_, fun x q hq => ?_, ?_, h.bounded, fun x u hu => ?_, fun x hx => ?_,
    hnodup, fun x hx hb => h.disjoint x hx (by simp [hb])⟩
  · by_cases hxp : x = p
    · subst hxp
      simp [ht, hnt, hna, eq_comm]
    · simpa [hxp] using h.entry e x
  · cases SortedSet.mem_insert.mp hq with
    | inl heq =>
      cases heq
      exact ⟨t, ht, rfl⟩
    | inr hq => exact h.live x q hq
  · rw [SortedSet.size_insert (hnt _), SortedSet.size_insert (hna _), h.size]
  · by_cases hxp : x = p
    · subst hxp
      rw [ht] at hu
      cases hu
      simp [hpa, hpb]
    · simpa [hxp] using h.loose x u hu
  · refine h.allocated x (hx.imp id fun hb => ?_)
    simp [hb]

theorem deleted_eq_some {x : Addr} {u : Timer} (h : Function.update heap p none x = some u) :
    x ≠ p ∧ heap x = some u := by
  by_cases hxp : x = p
  · simp [hxp] at h
  · exact ⟨hxp, by rwa [Function.update_of_ne hxp] at h⟩

theorem deleted_ne_none {x : Addr} (h : Function.update heap p none x ≠ none) : heap x ≠ none := by
  obtain ⟨u, hu⟩ := Option.ne_none_iff_exists'.mp h
  simp [(deleted_eq_some hu).2]

theorem Owned.cancel (h : Owned heap timers active adding batch) (ht : heap p = some t)
    (hq : (⟨p, t.sequence⟩ : TimerId) ∈ active) :
    Owned (Function.update heap p none) (timers.erase ⟨t.expiration, p⟩)
      (active.erase ⟨p, t.sequence⟩) adding batch := by
  have hnl : ¬ (p ∈ adding ∨ p ∈ batch) := fun hp => h.not_active_of_loose hp _ hq
  have hentry := (h.entry t.expiration p).mpr ⟨t, ht, rfl, hq⟩
  refine ⟨fun e x => ?_, fun x q hx => ?_, ?_, fun x hx => h.bounded x (deleted_ne_none hx),
    fun x u hu => ?_, fun x hx => ?_, h.nodup, h.disjoint⟩
  · by_cases hxp : x = p
    · subst hxp
      simp only [SortedSet.mem_erase, h.entry, ht, Function.update_self]
      simp only [Option.some.injEq, exists_eq_left', reduceCtorEq, false_and, exists_false,
        iff_false, not_and]
      rintro hne rfl
      exact absurd rfl hne
    · simpa [Function.update_of_ne hxp, hxp] using h.entry e x
  · obtain ⟨hne, hx⟩ := SortedSet.mem_erase.mp hx
    obtain ⟨u, hu, hseq⟩ := h.live x q hx
    have hxp : x ≠ p := by
      rintro rfl
      rw [ht] at hu
      cases hu
      exact hne (by rw [hseq])
    exact ⟨u, by rwa [Function.update_of_ne hxp], hseq⟩
  · have h1 := SortedSet.size_erase hentry
    have h2 := SortedSet.size_erase hq
    have h3 := h.size
    omega
  · obtain ⟨hxp, hu⟩ := deleted_eq_some hu
    simpa [hxp] using h.loose x u hu
  · have hxp : x ≠ p := fun he => hnl (he ▸ hx)
    rw [Function.update_of_ne hxp]
    exact h.allocated x hx

theorem Owned.delete (h : Owned heap timers active adding (p :: batch)) :
    Owned (Function.update heap p none) timers active adding batch := by
  have hloose : p ∈ adding ∨ p ∈ p :: batch := .inr (by simp)
  have hpa : p ∉ adding := fun hp => h.disjoint p hp (by simp)
  obtain ⟨hpb, hnodup⟩ := List.nodup_cons.mp h.nodup
  refine ⟨fun e x => ?_, fun x q hx => ?_, h.size, fun x hx => h.bounded x (deleted_ne_none hx),
    fun x u hu => ?_, fun x hx => ?_, hnodup, fun x hx hb => h.disjoint x hx (by simp [hb])⟩
  · by_cases hxp : x = p
    · subst hxp
      simp [h.not_timers_of_loose hloose]
    · simpa [Function.update_of_ne hxp] using h.entry e x
  · have hxp : x ≠ p := fun he => h.not_active_of_loose hloose q (he ▸ hx)
    simpa [Function.update_of_ne hxp] using h.live x q hx
  · obtain ⟨hxp, hu⟩ := deleted_eq_some hu
    simpa [hxp] using h.loose x u hu
  · have hxp : x ≠ p := by
      rintro rfl
      exact hx.elim hpa hpb
    rw [Function.update_of_ne hxp]
    exact h.allocated x (hx.imp id fun hb => by simp [hb])

theorem Owned.restart (h : Owned heap timers active adding (p :: batch)) (ht : heap p = some t)
    {u : Timer} (hu : u.sequence = t.sequence) :
    Owned (Function.update heap p (some u)) timers active adding (p :: batch) := by
  have hloose : p ∈ adding ∨ p ∈ p :: batch := .inr (by simp)
  have hsome : ∀ x, Function.update heap p (some u) x ≠ none ↔ heap x ≠ none := by
    intro x
    by_cases hxp : x = p
    · simp [hxp, ht]
    · rw [Function.update_of_ne hxp]
  refine ⟨fun e x => ?_, fun x q hx => ?_, h.size, fun x hx => h.bounded x ((hsome x).mp hx),
    fun x v hv => ?_, fun x hx => (hsome x).mpr (h.allocated x hx), h.nodup, h.disjoint⟩
  · by_cases hxp : x = p
    · subst hxp
      simp [h.not_timers_of_loose hloose, h.not_active_of_loose hloose]
    · simpa [Function.update_of_ne hxp] using h.entry e x
  · have hxp : x ≠ p := fun he => h.not_active_of_loose hloose q (he ▸ hx)
    simpa [Function.update_of_ne hxp] using h.live x q hx
  · by_cases hxp : x = p
    · subst hxp
      rw [Function.update_self, Option.some.injEq] at hv
      rw [← hv, hu]
      exact h.loose x t ht
    · exact h.loose x v (by rwa [Function.update_of_ne hxp] at hv)

theorem Owned.nodup_below (h : Owned heap timers active adding batch) (sentry : Entry) :
    ((timers.below sentry).map Entry.timer).Nodup := by
  refine List.Nodup.map_on (fun x hx y hy hxy => ?_)
    ((timers.below_pairwise sentry).imp ne_of_lt)
  obtain ⟨t, ht, hte, _⟩ := (h.entry x.expiration x.timer).mp (SortedSet.mem_below.mp hx).1
  obtain ⟨u, hu, hue, _⟩ := (h.entry y.expiration y.timer).mp (SortedSet.mem_below.mp hy).1
  rw [hxy, hu] at ht
  cases ht
  cases x
  cases y
  simp_all

theorem Owned.expire (h : Owned heap timers active adding []) {sentry : Entry}
    {left : SortedSet TimerId}
    (hleft : ∀ x, x ∈ left ↔ x ∈ active ∧ x.timer ∉ (timers.below sentry).map Entry.timer)
    (hsize : left.size + (timers.below sentry).length = active.size) :
    Owned heap (timers.dropBelow sentry) left adding ((timers.below sentry).map Entry.timer) := by
  have hbelow : ∀ x ∈ timers.below sentry, ∃ t, heap x.timer = some t ∧
      t.expiration = x.expiration ∧ (⟨x.timer, t.sequence⟩ : TimerId) ∈ active := fun x hx =>
    (h.entry x.expiration x.timer).mp (SortedSet.mem_below.mp hx).1
  have hmem : ∀ {x t}, heap x = some t → (⟨x, t.sequence⟩ : TimerId) ∈ active →
      (x ∈ (timers.below sentry).map Entry.timer ↔ ⟨t.expiration, x⟩ < sentry) := by
    intro x t ht hx
    constructor
    · intro hm
      obtain ⟨y, hy, rfl⟩ := List.mem_map.mp hm
      obtain ⟨u, hu, hexp, _⟩ := hbelow y hy
      rw [ht] at hu
      cases hu
      rw [hexp]
      exact (SortedSet.mem_below.mp hy).2
    · intro hlt
      exact List.mem_map.mpr ⟨_, SortedSet.mem_below.mpr ⟨(h.entry _ x).mpr ⟨t, ht, rfl, hx⟩, hlt⟩,
        rfl⟩
  refine ⟨fun e x => ?_, fun x q hx => h.live x q ((hleft _).mp hx).1, ?_, h.bounded,
    fun x u hu => ?_, fun x hx => ?_, h.nodup_below sentry, fun x hx hb => ?_⟩
  · rw [SortedSet.mem_dropBelow, h.entry]
    constructor
    · rintro ⟨⟨t, ht, rfl, hx⟩, hle⟩
      refine ⟨t, ht, rfl, (hleft _).mpr ⟨hx, fun hm => ?_⟩⟩
      exact absurd ((hmem ht hx).mp hm) (not_lt.mpr hle)
    · rintro ⟨t, ht, rfl, hx⟩
      obtain ⟨hx, hm⟩ := (hleft _).mp hx
      exact ⟨⟨t, ht, rfl, hx⟩, not_lt.mp fun hlt => hm ((hmem ht hx).mpr hlt)⟩
  · have h1 := timers.size_dropBelow sentry
    have h2 := h.size
    omega
  · have hl := h.loose x u hu
    simp only [List.not_mem_nil, or_false] at hl
    rw [hleft, ← hl]
    tauto
  · cases hx with
    | inl hx => exact h.allocated x (.inl hx)
    | inr hx =>
      obtain ⟨y, hy, rfl⟩ := List.mem_map.mp hx
      obtain ⟨u, hu, _⟩ := hbelow y hy
      simp [hu]
  · obtain ⟨y, hy, rfl⟩ := List.mem_map.mp hb
    obtain ⟨t, _, _, hq⟩ := hbelow y hy
    exact h.not_active_of_loose (.inl hx) _ hq

theorem Entry.le_iff {a b : Entry} :
    a ≤ b ↔ a.expiration < b.expiration ∨ a.expiration = b.expiration ∧ a.timer ≤ b.timer :=
  Prod.Lex.toLex_le_toLex

/-- No entry lies at the sentry itself, so that the expired entries are those up to `now`. -/
theorem Owned.lt_of_sentry_le (h : Owned heap timers active adding batch) {now : Int} {x : Entry}
    (hx : x ∈ timers) (hle : (⟨now, uintptrMax⟩ : Entry) ≤ x) : now < x.expiration := by
  obtain ⟨t, ht, _⟩ := (h.entry x.expiration x.timer).mp hx
  have hmax := h.bounded x.timer (by simp [ht])
  cases Entry.le_iff.mp hle with
  | inl hlt => exact hlt
  | inr h => exact absurd (le_antisymm (Fin.le_last _) h.2) hmax

end AcMuduo.TimerQueue

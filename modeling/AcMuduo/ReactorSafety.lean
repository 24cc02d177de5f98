import AcMuduo.Reactor
import AcMuduo.SelectorLaws

namespace AcMuduo.Reactor

open Machine Poller

variable {C O Addr : Type} {p : Selector C} {fd : C → Int} {addr : C → Addr} {I : p.State → Prop}
  {s t : State p O Addr} {c : C}

def Pc.rest : Pc C → List C
  | .idle => []
  | .next rest | .test _ _ rest | .call _ _ rest | .release rest => rest

def Pc.handled : Pc C → Option C
  | .idle | .next _ | .release _ => none
  | .test c _ _ | .call c _ _ => some c

def Pc.inEvents : Pc C → Bool
  | .idle => false
  | .next _ | .test _ _ _ | .call _ _ _ | .release _ => true

/-- `add_to_loop_` tells the channels in the poller, and these are alive. So are those that the loop
is still to handle, which a channel other than the current one cannot take out of the poller: all
those in `active_channels_` were alive at the same time, so their addresses differ. -/
structure Inv (fd : C → Int) (addr : C → Addr) (I : p.State → Prop) (s : State p O Addr) :
    Prop where
  poller : I s.poller
  added : ∀ c, s.addToLoop c = true ↔ (p.channels s.poller)[fd c]? = some c
  alive : ∀ c, s.addToLoop c = true → s.life c = .alive
  places : ∀ c, s.life c = .alive ↔ s.memory (addr c) = some c
  apart : (s.activeChannels.map addr).Nodup
  handling : ∀ c, s.handling c = true ↔ s.pc.handled = some c
  handled : ∀ c, s.pc.handled = some c → s.life c = .alive ∧ s.currentActiveChannel = some c
  nodup : s.pc.rest.Nodup
  rest : ∀ c ∈ s.pc.rest, c ∈ s.activeChannels ∧ s.addToLoop c = true ∧
    s.currentActiveChannel ≠ some c
  flag : s.eventHandling = s.pc.inEvents
  current : s.pc.inEvents = false → s.currentActiveChannel = none
  active : ∀ c, s.currentActiveChannel = some c → c ∈ s.activeChannels

def KernelAnswers (fd : C → Int) (s : State p O Addr) : Event C O p.Answer → Prop
  | .loop (.poll answer) => p.Valid fd s.poller answer
  | _ => True

theorem access_of_alive (h : s.life c = .alive) : access s c = .ok () := if_pos h

theorem forM_access {cs : List C} (h : ∀ c ∈ cs, s.life c = .alive) :
    cs.forM (access s) = .ok () := by
  induction cs with
  | nil => rfl
  | cons c cs ih =>
    rw [List.forall_mem_cons] at h
    rw [List.forM_eq_forM, List.forM_cons, access_of_alive h.1]
    exact ih h.2

theorem Inv.frame (h : Inv fd addr I s) {life : C → Life} {memory : Addr → Option C}
    {owner tie : C → Option O} {callback : C → Callback → Bool} {made : O → Bool} {refs : O → Nat}
    {guard : Option O}
    (hlife : ∀ c, s.life c = .alive → s.addToLoop c = true ∨ s.handling c = true →
      life c = .alive)
    (hplaces : ∀ c, life c = .alive ↔ memory (addr c) = some c) :
    Inv fd addr I { s with
      life := life, memory := memory, owner := owner, tie := tie, callback := callback
      made := made, refs := refs, guard := guard } where
  poller := h.poller
  added := h.added
  alive c hc := hlife c (h.alive c hc) (.inl hc)
  places := hplaces
  apart := h.apart
  handling := h.handling
  handled c hc := ⟨hlife c (h.handled c hc).1 (.inr ((h.handling c).mpr hc)), (h.handled c hc).2⟩
  nodup := h.nodup
  rest := h.rest
  flag := h.flag
  current := h.current
  active := h.active

theorem Inv.rest_alive (h : Inv fd addr I s) (hc : c ∈ s.pc.rest) : s.life c = .alive :=
  h.alive c (h.rest c hc).2.1

theorem places_create [DecidableEq C] [DecidableEq Addr]
    (h : ∀ d, s.life d = .alive ↔ s.memory (addr d) = some d) (hfree : s.memory (addr c) = none)
    (d : C) : Function.update s.life c .alive d = .alive ↔
      Function.update s.memory (addr c) (some c) (addr d) = some d := by
  by_cases hdc : d = c
  · simp [hdc]
  · rw [Function.update_of_ne hdc, h]
    by_cases haddr : addr d = addr c
    · rw [haddr, hfree, Function.update_self]
      simp [Ne.symm hdc]
    · rw [Function.update_of_ne haddr]

theorem places_destroy [DecidableEq C] [DecidableEq Addr]
    (h : ∀ d, s.life d = .alive ↔ s.memory (addr d) = some d) (hlife : s.life c = .alive) (d : C) :
    Function.update s.life c .destroyed d = .alive ↔
      Function.update s.memory (addr c) none (addr d) = some d := by
  by_cases hdc : d = c
  · simp [hdc]
  · rw [Function.update_of_ne hdc, h]
    by_cases haddr : addr d = addr c
    · rw [haddr, (h c).mp hlife, Function.update_self]
      simp [Ne.symm hdc]
    · rw [Function.update_of_ne haddr]

theorem Inv.addr_inj (h : Inv fd addr I s) {d : C} (hc : s.life c = .alive) (hd : s.life d = .alive)
    (haddr : addr c = addr d) : c = d := by
  have hplace := (h.places c).mp hc
  rw [haddr, (h.places d).mp hd, Option.some.injEq] at hplace
  exact hplace.symm

variable [DecidableEq C] [DecidableEq Addr]

omit [DecidableEq Addr] in
theorem Inv.hasChannel_iff (h : Inv fd addr I s) :
    hasChannel fd (p.channels s.poller) c = true ↔ s.addToLoop c = true := by
  rw [h.added, hasChannel, decide_eq_true_eq]

omit [DecidableEq Addr] in
theorem Inv.of_maps (h : Inv fd addr I s) {poller : p.State} {o : Op C} {b : Bool} (hI : I poller)
    (hmaps : Maps fd (p.channels s.poller) (p.channels poller) o)
    (hself : b = true ↔ (p.channels poller)[fd o.channel]? = some o.channel)
    (hlife : s.life o.channel = .alive) (hrest : b = true ∨ o.channel ∉ s.pc.rest) :
    Inv fd addr I { s with
      addToLoop := Function.update s.addToLoop o.channel b, poller := poller } where
  poller := hI
  added d := by
    by_cases hd : d = o.channel
    · subst hd
      simpa using hself
    · simp only [Function.update_of_ne hd]
      rw [mem_iff_of_maps hmaps hd]
      exact h.added d
  alive d hd := by
    by_cases hdc : d = o.channel
    · exact hdc ▸ hlife
    · simp only [Function.update_of_ne hdc] at hd
      exact h.alive d hd
  places := h.places
  apart := h.apart
  handling := h.handling
  handled := h.handled
  nodup := h.nodup
  rest d hd := by
    obtain ⟨hactive, hadded, hne⟩ := h.rest d hd
    refine ⟨hactive, ?_, hne⟩
    by_cases hdc : d = o.channel
    · subst hdc
      simpa using hrest.resolve_right fun hn => hn hd
    · simpa only [Function.update_of_ne hdc] using hadded
  flag := h.flag
  current := h.current
  active := h.active

omit [DecidableEq Addr] in
theorem Inv.of_update (h : Inv fd addr I s) (hp : Lawful p fd I) (hc : s.life c = .alive)
    {u : Update} (ht : update fd s u c = .ok t) : Inv fd addr I t := by
  obtain ⟨poller, hstep, ht⟩ := bind_eq_ok.mp ht
  cases ht
  obtain ⟨hI, hmaps, -⟩ := hp.step _ _ _ h.poller hstep
  exact h.of_maps (o := .update u c) hI hmaps (by simp [hmaps.2, Op.channel]) hc (.inl rfl)

theorem remove_eq_ok : remove fd addr s c = .ok t ↔
    (s.eventHandling = true → s.currentActiveChannel.map addr = some (addr c) ∨
      addr c ∉ s.activeChannels.map addr) ∧
    ∃ poller, p.step fd s.poller (.remove c) = .ok poller ∧
      { s with addToLoop := Function.update s.addToLoop c false, poller := poller } = t := by
  cases hflag : s.eventHandling <;> simp [remove, hflag, bind_eq_ok]

/-- What the assert of `remove_channel` is for. -/
theorem Inv.not_rest_of_remove (h : Inv fd addr I s) (ht : remove fd addr s c = .ok t) :
    c ∉ s.pc.rest := by
  intro hrest
  obtain ⟨hactive, -, hne⟩ := h.rest c hrest
  have hflag : s.eventHandling = true := by
    rw [h.flag]
    cases hpc : s.pc with
    | idle =>
      rw [hpc] at hrest
      cases hrest
    | next rest => rfl
    | test d callbacks rest => rfl
    | call d callbacks rest => rfl
    | release rest => rfl
  cases (remove_eq_ok.mp ht).1 hflag with
  | inl hcurrent =>
    obtain ⟨d, hd, haddr⟩ := Option.map_eq_some_iff.mp hcurrent
    have hdc : d = c := List.inj_on_of_nodup_map h.apart (h.active d hd) hactive haddr
    exact hne (hdc ▸ hd)
  | inr hactive' => exact hactive' (List.mem_map_of_mem hactive)

theorem Inv.of_remove (h : Inv fd addr I s) (hp : Lawful p fd I) (hc : s.life c = .alive)
    (ht : remove fd addr s c = .ok t) : Inv fd addr I t := by
  have hrest := h.not_rest_of_remove ht
  obtain ⟨-, poller, hstep, rfl⟩ := remove_eq_ok.mp ht
  obtain ⟨hI, hmaps, -⟩ := hp.step _ _ _ h.poller hstep
  exact h.of_maps (o := .remove c) hI hmaps (by simp [hmaps.2, Op.channel]) hc (.inr hrest)

theorem Inv.of_destruct (h : Inv fd addr I s) (hc : s.life c = .alive)
    (ht : destruct fd addr s c = .ok t) : Inv fd addr I t := by
  simp only [destruct, bind_eq_ok, assert_eq_ok, Except.ok.injEq, Bool.not_eq_true'] at ht
  obtain ⟨-, hhandling, -, hadded, -, -, rfl⟩ := ht
  refine h.frame (fun d hd hor => ?_) (places_destroy h.places hc)
  have hdc : d ≠ c := by
    rintro rfl
    simp [hhandling, hadded] at hor
  rw [Function.update_of_ne hdc, hd]

variable [DecidableEq O]

theorem Inv.of_userStep (h : Inv fd addr I s) (hp : Lawful p fd I) {e : UserEvent C O}
    (ht : userStep fd addr s e = .ok t) : Inv fd addr I t := by
  cases e with
  | create c owner =>
    simp only [userStep] at ht
    split at ht
    · rename_i hc
      cases ht
      refine h.frame (fun d hd _ => ?_) (places_create h.places hc.2)
      by_cases hdc : d = c
      · rw [hdc, Function.update_self]
      · rw [Function.update_of_ne hdc, hd]
    · cases ht
  | destroy c =>
    simp only [userStep] at ht
    split at ht
    · rename_i hc
      exact h.of_destruct hc.1 ht
    · cases ht
  | use op =>
    cases op with
    | update u c =>
      simp only [userStep] at ht
      split at ht
      · rename_i hc
        exact h.of_update hp hc ht
      · cases ht
    | remove c =>
      simp only [userStep] at ht
      split at ht
      · rename_i hc
        exact h.of_remove hp hc ht
      · cases ht
  | tie c o =>
    simp only [userStep] at ht
    split at ht <;> cases ht
    exact h.frame (fun _ hd _ => hd) h.places
  | setCallback c callback isSet =>
    simp only [userStep] at ht
    split at ht <;> cases ht
    exact h.frame (fun _ hd _ => hd) h.places
  | make o =>
    simp only [userStep] at ht
    split at ht <;> cases ht
    exact h.frame (fun _ hd _ => hd) h.places
  | share o =>
    simp only [userStep] at ht
    split at ht <;> cases ht
    exact h.frame (fun _ hd _ => hd) h.places
  | drop o =>
    simp only [userStep] at ht
    split at ht <;> cases ht
    exact h.frame (fun _ hd _ => hd) h.places

omit [DecidableEq Addr] in
theorem handleEvent_cases (s : State p O Addr) (c : C) (rest : List C) :
    (∃ guard, (s.tie c = none ∨ s.tie c = guard) ∧ handleEvent s c rest = { s with
      handling := Function.update s.handling c true
      pc := .test c Callback.all rest
      guard := guard }) ∨
    ∃ o, s.tie c = some o ∧ s.held o = false ∧
      handleEvent s c rest = { s with pc := .next rest } := by
  rw [handleEvent]
  cases htie : s.tie c with
  | none => exact .inl ⟨s.guard, .inl rfl, rfl⟩
  | some o =>
    cases hheld : s.held o with
    | true => exact .inl ⟨some o, .inr rfl, if_pos hheld⟩
    | false => exact .inr ⟨o, rfl, hheld, if_neg (by simp [hheld])⟩

omit [DecidableEq Addr] in
theorem Inv.of_next (h : Inv fd addr I s) {rest : List C} (hpc : s.pc = .next (c :: rest)) :
    Inv fd addr I (handleEvent { s with currentActiveChannel := some c } c rest) := by
  have hnodup := h.nodup
  have hrest := h.rest
  rw [hpc, Pc.rest] at hnodup hrest
  rw [List.nodup_cons] at hnodup
  rw [List.forall_mem_cons] at hrest
  have hhandling : ∀ d, s.handling d = false := by
    intro d
    rw [← Bool.not_eq_true, h.handling, hpc]
    exact nofun
  have hne : ∀ d ∈ rest, d ∈ s.activeChannels ∧ s.addToLoop d = true ∧ some c ≠ some d := by
    intro d hd
    obtain ⟨hactive, hadded, -⟩ := hrest.2 d hd
    refine ⟨hactive, hadded, fun heq => ?_⟩
    rw [Option.some.injEq] at heq
    exact hnodup.1 (heq ▸ hd)
  have hflag : s.eventHandling = true := by
    rw [h.flag, hpc]
    rfl
  have hcurrent : ∀ d, some c = some d → d ∈ s.activeChannels := by
    intro d hd
    cases hd
    exact hrest.1.1
  obtain ⟨guard, -, heq⟩ | ⟨o, -, -, heq⟩ :=
    handleEvent_cases { s with currentActiveChannel := some c } c rest
  · rw [heq]
    refine ⟨h.poller, h.added, h.alive, h.places, h.apart, fun d => ?_, fun d hd => ?_, hnodup.2,
      hne, hflag, nofun, hcurrent⟩
    · by_cases hdc : d = c
      · simp [hdc, Pc.handled]
      · simp [hdc, Ne.symm hdc, Pc.handled, hhandling d]
    · cases hd
      exact ⟨h.alive c hrest.1.2.1, rfl⟩
  · rw [heq]
    refine ⟨h.poller, h.added, h.alive, h.places, h.apart, fun d => ?_, nofun, hnodup.2, hne, hflag,
      nofun, hcurrent⟩
    simp [hhandling d, Pc.handled]

omit [DecidableEq Addr] in
theorem Inv.loopStep_next (h : Inv fd addr I s) {rest : List C} (hpc : s.pc = .next (c :: rest)) :
    loopStep fd s .next = .ok (handleEvent { s with currentActiveChannel := some c } c rest) := by
  have haccess := access_of_alive (h.rest_alive (c := c) (by simp [hpc, Pc.rest]))
  simp only [loopStep, hpc, haccess, bind, Except.bind]

omit [DecidableEq C] [DecidableEq O] [DecidableEq Addr] in
theorem Inv.of_pc (h : Inv fd addr I s) {pc : Pc C} (hrest : pc.rest = s.pc.rest)
    (hhandled : pc.handled = s.pc.handled) (hin : pc.inEvents = s.pc.inEvents) :
    Inv fd addr I { s with pc := pc } where
  poller := h.poller
  added := h.added
  alive := h.alive
  places := h.places
  apart := h.apart
  handling c := by rw [hhandled]; exact h.handling c
  handled c := by rw [hhandled]; exact h.handled c
  nodup := hrest ▸ h.nodup
  rest := by rw [hrest]; exact h.rest
  flag := by rw [hin]; exact h.flag
  current := by rw [hin]; exact h.current
  active := h.active

omit [DecidableEq O] [DecidableEq Addr] in
theorem Inv.of_leave (h : Inv fd addr I s) {rest : List C} (hpc : s.pc = .test c [] rest) :
    Inv fd addr I (leaveEvent s c rest) := by
  have hleave : ∀ guard pc, pc.rest = rest → pc.handled = none → pc.inEvents = true →
      Inv fd addr I { s with
        handling := Function.update s.handling c false, guard := guard, pc := pc } := by
    intro guard pc hrest hhandled hin
    refine ⟨h.poller, h.added, h.alive, h.places, h.apart, fun d => ?_, fun d hd => ?_, ?_, ?_, ?_,
      fun hfalse => ?_, h.active⟩
    · rw [hhandled]
      by_cases hdc : d = c
      · simp [hdc]
      · have := h.handling d
        rw [hpc] at this
        simpa [hdc, Ne.symm hdc, Pc.handled] using this
    · rw [hhandled] at hd
      cases hd
    · have := h.nodup
      rw [hpc] at this
      exact hrest ▸ this
    · have := h.rest
      rw [hpc] at this
      exact hrest ▸ this
    · rw [hin, h.flag, hpc]
      rfl
    · rw [hin] at hfalse
      cases hfalse
  rw [leaveEvent]
  dsimp only
  split
  · exact hleave s.guard _ rfl rfl rfl
  · exact hleave none _ rfl rfl rfl

omit [DecidableEq Addr] in
theorem Inv.of_poll (h : Inv fd addr I s) (hp : Lawful p fd I) {answer : p.Answer}
    (hpc : s.pc = .idle) (hvalid : p.Valid fd s.poller answer) :
    ∃ t, loopStep fd s (.poll answer) = .ok t ∧ Inv fd addr I t := by
  obtain ⟨poller, active, hpoll, hI, hchannels, hnodup, hreg, -⟩ := hp.poll _ _ h.poller hvalid
  have hadded : ∀ c ∈ active, s.addToLoop c = true := fun c hc =>
    h.hasChannel_iff.mp (hreg c hc)
  have haccess := forM_access fun c hc => h.alive c (hadded c hc)
  have hcurrent : s.currentActiveChannel = none := h.current (by rw [hpc]; rfl)
  have hapart : (active.map addr).Nodup :=
    List.Nodup.map_on (fun c hc d hd haddr => h.addr_inj (h.alive c (hadded c hc))
      (h.alive d (hadded d hd)) haddr) hnodup
  refine ⟨{ s with
    poller := poller, activeChannels := active, eventHandling := true, pc := .next active }, ?_, ?_⟩
  · simp only [loopStep, hpc, hpoll, haccess, bind, Except.bind]
  · refine ⟨hI, fun c => ?_, h.alive, h.places, hapart, fun c => ?_, nofun, hnodup, fun c hc => ?_,
      rfl, nofun, fun c hc => ?_⟩
    · simp only [hchannels]
      exact h.added c
    · have := h.handling c
      rwa [hpc] at this
    · exact ⟨hc, hadded c hc, by rw [hcurrent]; exact nofun⟩
    · rw [hcurrent] at hc
      cases hc

omit [DecidableEq C] [DecidableEq O] [DecidableEq Addr] in
theorem Inv.of_end (h : Inv fd addr I s) (hpc : s.pc = .next []) :
    Inv fd addr I { s with currentActiveChannel := none, eventHandling := false, pc := .idle } := by
  refine ⟨h.poller, h.added, h.alive, h.places, h.apart, fun c => ?_, nofun, .nil, nofun, rfl,
    fun _ => rfl, nofun⟩
  have := h.handling c
  rwa [hpc] at this

omit [DecidableEq Addr] in
theorem Inv.loopStep_ok (h : Inv fd addr I s) (hp : Lawful p fd I) {e : LoopEvent p.Answer}
    (hk : KernelAnswers fd s (.loop e)) :
    loopStep fd s e = .error .disabled ∨ ∃ t, loopStep fd s e = .ok t ∧ Inv fd addr I t := by
  cases hpc : s.pc with
  | idle =>
    cases e with
    | poll answer => exact .inr (h.of_poll hp hpc hk)
    | next | test | ret => simp [loopStep, hpc]
  | next rest =>
    cases e with
    | next =>
      cases rest with
      | nil => exact .inr ⟨_, by simp only [loopStep, hpc], h.of_end hpc⟩
      | cons c rest => exact .inr ⟨_, h.loopStep_next hpc, h.of_next hpc⟩
    | poll | test | ret => simp [loopStep, hpc]
  | test c callbacks rest =>
    cases e with
    | test =>
      have haccess := access_of_alive (h.handled c (by rw [hpc]; rfl)).1
      cases callbacks with
      | nil =>
        exact .inr ⟨_, by simp only [loopStep, hpc, haccess, bind, Except.bind], h.of_leave hpc⟩
      | cons callback callbacks =>
        refine .inr ?_
        simp only [loopStep, hpc, haccess, bind, Except.bind]
        split
        · exact ⟨_, rfl, h.of_pc (by rw [hpc]; rfl) (by rw [hpc]; rfl) (by rw [hpc]; rfl)⟩
        · exact ⟨_, rfl, h.of_pc (by rw [hpc]; rfl) (by rw [hpc]; rfl) (by rw [hpc]; rfl)⟩
    | poll | next | ret => simp [loopStep, hpc]
  | call c callbacks rest =>
    cases e with
    | ret =>
      refine .inr ⟨{ s with pc := .test c callbacks rest }, by simp only [loopStep, hpc], ?_⟩
      exact h.of_pc (by rw [hpc]; rfl) (by rw [hpc]; rfl) (by rw [hpc]; rfl)
    | poll | next | test => simp [loopStep, hpc]
  | release rest =>
    cases e with
    | ret =>
      refine .inr ⟨{ s with pc := .next rest }, by simp only [loopStep, hpc], ?_⟩
      exact h.of_pc (by rw [hpc]; rfl) (by rw [hpc]; rfl) (by rw [hpc]; rfl)
    | poll | next | test => simp [loopStep, hpc]

/-- The failures that are left: a step that is not the next one, and a failed assert. -/
def Stopped (d : Stop Fault) : Prop := d = .disabled ∨ d = .fault .assertFailed

omit [DecidableEq O] in
theorem Inv.useStep_onlyAsserts (h : Inv fd addr I s) (hp : Lawful p fd I) (c : C) (u : Update) :
    OnlyAsserts (update fd s u c) ∧ OnlyAsserts (remove fd addr s c) ∧
      OnlyAsserts (destruct fd addr s c) := by
  refine ⟨?_, ?_, ?_⟩
  · exact (hp.error _ _ h.poller).bind fun _ _ => onlyAsserts_ok _
  · rw [remove]
    split
    · exact .assert_bind fun _ => (hp.error _ _ h.poller).bind fun _ _ => onlyAsserts_ok _
    · exact (hp.error _ _ h.poller).bind fun _ _ => onlyAsserts_ok _
  · exact .assert_bind fun _ => .assert_bind fun _ => .assert_bind fun _ => onlyAsserts_ok _

theorem Inv.userStep_stopped (h : Inv fd addr I s) (hp : Lawful p fd I) {e : UserEvent C O}
    {d : Stop Fault} (hd : userStep fd addr s e = .error d) : Stopped d := by
  cases e with
  | destroy c =>
    simp only [userStep] at hd
    split at hd
    · exact .inr ((h.useStep_onlyAsserts hp c .disableAll).2.2 d hd)
    · exact .inl (Except.error.inj hd).symm
  | use op =>
    cases op with
    | update u c =>
      simp only [userStep] at hd
      split at hd
      · exact .inr ((h.useStep_onlyAsserts hp c u).1 d hd)
      · exact .inl (Except.error.inj hd).symm
    | remove c =>
      simp only [userStep] at hd
      split at hd
      · exact .inr ((h.useStep_onlyAsserts hp c .disableAll).2.1 d hd)
      · exact .inl (Except.error.inj hd).symm
  | create | tie | setCallback | make | share | drop =>
    simp only [userStep] at hd
    split at hd
    all_goals first | exact .inl (Except.error.inj hd).symm | cases hd

theorem Inv.step_stopped (h : Inv fd addr I s) (hp : Lawful p fd I) {e : Event C O p.Answer}
    (hk : KernelAnswers fd s e) {d : Stop Fault} (hd : step fd addr s e = .error d) :
    Stopped d := by
  cases e with
  | user e =>
    simp only [step] at hd
    split at hd
    · exact h.userStep_stopped hp hd
    · exact .inl (Except.error.inj hd).symm
  | loop e =>
    obtain hd' | ⟨t, ht, -⟩ := h.loopStep_ok hp hk
    · rw [step, hd'] at hd
      exact .inl (Except.error.inj hd).symm
    · rw [step, ht] at hd
      cases hd

theorem Inv.of_step (h : Inv fd addr I s) (hp : Lawful p fd I) {e : Event C O p.Answer}
    (hk : KernelAnswers fd s e) (ht : step fd addr s e = .ok t) : Inv fd addr I t := by
  cases e with
  | user e =>
    simp only [step] at ht
    split at ht
    · exact h.of_userStep hp ht
    · cases ht
  | loop e =>
    obtain hd | ⟨t', ht', h'⟩ := h.loopStep_ok hp hk
    · rw [step, hd] at ht
      cases ht
    · rw [step, ht'] at ht
      cases ht
      exact h'

omit [DecidableEq O] [DecidableEq Addr] in
theorem inv_init (hp : Lawful p fd I) : Inv fd addr I (.init : State p O Addr) where
  poller := hp.init
  added c := by simp [State.init, hp.empty]
  alive c := nofun
  places c := by simp [State.init]
  apart := .nil
  handling c := by simp [State.init, Pc.handled]
  handled c := nofun
  nodup := .nil
  rest c := nofun
  flag := rfl
  current _ := rfl
  active c := nofun

theorem run_inv (hp : Lawful p fd I) {es : List (Event C O p.Answer)}
    (hes : Throughout (step fd addr) (KernelAnswers fd) .init es)
    (ht : run (step fd addr) .init es = .ok t) : Inv fd addr I t :=
  run_invariant_of (fun _ _ _ h hk ht => h.of_step hp hk ht) (inv_init hp) hes ht

/-- Whatever the users do in their callbacks and elsewhere, and whatever the kernel reports: the
loop ends in a failed assert or not at all, so it uses no channel that has been destroyed, and the
poller and the loop know only channels that are alive. -/
theorem no_use_after_free (b : BackEnd) {fd : C → Int} (hpos : ∀ c, 0 ≤ fd c) {addr : C → Addr}
    {es : List (Event C O (b.selector C).Answer)}
    (hes : Throughout (step fd addr) (KernelAnswers fd) (.init : State (b.selector C) O Addr) es) :
    (∀ d, run (step fd addr) (.init : State (b.selector C) O Addr) es = .error d →
      d = .disabled ∨ d = .fault .assertFailed) ∧
    ∀ s : State (b.selector C) O Addr, run (step fd addr) .init es = .ok s →
      (∀ (f : Int) c, ((b.selector C).channels s.poller)[f]? = some c → s.life c = .alive) ∧
      (∀ c ∈ s.pc.rest, s.life c = .alive ∧ hasChannel fd ((b.selector C).channels s.poller) c) ∧
      ∀ c, s.handling c = true → s.life c = .alive ∧ s.currentActiveChannel = some c := by
  have hp := b.lawful (C := C) hpos
  refine ⟨fun d hd => ?_, fun s hs => ?_⟩
  · exact run_fails_as (Q := Stopped) (fun _ _ _ h hk ht => Inv.of_step h hp hk ht)
      (fun _ _ _ h hk hd => Inv.step_stopped h hp hk hd) (inv_init hp) hes hd
  · have h := run_inv hp hes hs
    refine ⟨fun f c hc => ?_, fun c hc => ⟨h.rest_alive hc, ?_⟩, fun c hc => ?_⟩
    · have hf := hp.under _ _ _ h.poller hc
      exact h.alive c ((h.added c).mpr (hf ▸ hc))
    · exact h.hasChannel_iff.mpr (h.rest c hc).2.1
    · exact h.handled c ((h.handling c).mp hc)

instance {p : Selector C} {fd : C → Int} [h : ∀ s a, Decidable (p.Valid fd s a)]
    (s : State p O Addr) : ∀ e, Decidable (KernelAnswers fd s e)
  | .loop (.poll answer) => h s.poller answer
  | .user _ | .loop .next | .loop .test | .loop .ret => inferInstanceAs (Decidable True)

instance decidableValidPoll {fd : C → Int} :
    ∀ s a, Decidable ((BackEnd.poll.selector C).Valid fd s a) :=
  fun (_ : PollPoller.State C) (_ : Nat → BitVec 16) => inferInstanceAs (Decidable (_ ∧ _))

def twoFds (c : Bool) : Int := if c then 4 else 3

theorem twoFds_nonneg : ∀ c, 0 ≤ twoFds c := by decide

def removesItself : List (Event Bool Unit (BackEnd.poll.selector Bool).Answer) :=
  [.user (.create false (some ())), .user (.make ()), .user (.tie false ()),
    .user (.setCallback false .read true), .user (.use (.update .enableReading false)),
    .user (.create true none), .user (.use (.update .enableReading true)),
    .loop (.poll fun (_ : Nat) => pollIn.setWidth 16), .loop .next, .loop .test, .loop .test,
    .loop .test, .user (.drop ()), .user (.use (.update .disableAll false)),
    .user (.use (.remove false)), .loop .ret, .loop .test, .loop .test, .user (.destroy false),
    .loop .ret, .loop .next]

theorem removesItself_answers : Throughout (step twoFds id) (KernelAnswers twoFds)
    (.init : State (BackEnd.poll.selector Bool) Unit Bool) removesItself := by
  decide +kernel

theorem no_use_after_free_removesItself :
    ∃ s : State (BackEnd.poll.selector Bool) Unit Bool,
      run (step twoFds id) .init removesItself = .ok s ∧
      s.life false = .destroyed ∧ ∀ (f : Int) c,
        ((BackEnd.poll.selector Bool).channels s.poller)[f]? = some c → s.life c = .alive := by
  obtain ⟨s, hs, hlife⟩ : ∃ s : State (BackEnd.poll.selector Bool) Unit Bool,
      run (step twoFds id) .init removesItself = .ok s ∧
      s.life false = .destroyed := by decide +kernel
  exact ⟨s, hs, hlife, ((no_use_after_free .poll twoFds_nonneg removesItself_answers).2 s
    hs).1⟩

end AcMuduo.Reactor

import AcMuduo.ReactorTies

namespace AcMuduo

open Machine Poller

variable {C O Addr : Type} [DecidableEq C] {fd : C → Int}

namespace Poller

/-- A poller that asks for no more than a descriptor that is free, and for a channel that is
registered and has no events. -/
structure Lenient (p : Selector C) (fd : C → Int) (Inv : p.State → Prop) : Prop where
  update : ∀ s u c, Inv s → ((∃ t, p.step fd s (.update u c) = .ok t) ↔
    (p.channels s)[fd c]? = none ∨ (p.channels s)[fd c]? = some c)
  remove : ∀ s c, Inv s → ((∃ t, p.step fd s (.remove c) = .ok t) ↔
    (p.channels s)[fd c]? = some c ∧ (p.chan s).events c = kNoneEvent)

end Poller

namespace EpollPoller

variable {r : Registry C} {s : State C} {c : C}

theorem Rep.update_ok_iff (h : Rep fd r s) (u : Update) (c : C) :
    (∃ t, step fd s (.update u c) = .ok t) ↔
      s.channels[fd c]? = none ∨ s.channels[fd c]? = some c := by
  constructor
  · rintro ⟨t, ht⟩
    exact (h.maps ht).1
  · intro hc
    have hfree : Free fd r c := by
      cases hc with
      | inl hnone => exact h.known.free_of_none hnone
      | inr hc => exact h.known.free_of_registered ((h.known _ _).mp hc).2
    obtain ⟨t, ht, -⟩ := h.update u hfree
    exact ⟨t, ht⟩

theorem Rep.remove_ok_iff (h : Rep fd r s) (c : C) : (∃ t, step fd s (.remove c) = .ok t) ↔
    s.channels[fd c]? = some c ∧ s.chan.events c = kNoneEvent := by
  constructor
  · rintro ⟨t, ht⟩
    obtain ⟨hc, he⟩ := h.registered_of_remove ht
    exact ⟨h.known.getElem?_of_registered hc, h.events ▸ he⟩
  · rintro ⟨hc, he⟩
    obtain ⟨t, ht, -⟩ := h.remove ((h.known _ _).mp hc).2 (h.events ▸ he)
    exact ⟨t, ht⟩

theorem lenient (fd : C → Int) : Lenient selector fd (fun s => ∃ r, Rep fd r s) where
  update s u c h := by
    obtain ⟨r, h⟩ := h
    exact h.update_ok_iff u c
  remove s c h := by
    obtain ⟨r, h⟩ := h
    exact h.remove_ok_iff c

end EpollPoller

theorem ne_assertFailed_iff {α : Type} {x : Except (Stop Fault) α} (h : OnlyAsserts x) :
    x ≠ .error (.fault .assertFailed) ↔ ∃ a, x = .ok a := by
  cases x with
  | ok a => simp
  | error d => simp [h d rfl]

theorem ite_ne_assertFailed_iff {α : Type} {b : Prop} [Decidable b]
    {x : Except (Stop Fault) α} {Q : Prop} (h : b → (x ≠ .error (.fault .assertFailed) ↔ Q)) :
    (if b then x else .error .disabled) ≠ .error (.fault .assertFailed) ↔ (b → Q) := by
  split
  · rename_i hb
    simp only [h hb, hb, true_imp_iff]
  · rename_i hb
    simp [hb]

namespace Reactor

variable [DecidableEq O] [DecidableEq Addr] {p : Selector C} {addr : C → Addr}
  {I : p.State → Prop} {s t : State p O Addr}

/-- The asserts of the channels, the loop and the poller, as what the users have to see to: the
descriptor of a channel is not in use by another one; a channel is removed once, without events, and
not by the callback of another one if the kernel has reported both, or a channel that was at its
address; and it is not destroyed before that, nor while its events are handled. -/
def CorrectUse (fd : C → Int) (addr : C → Addr) (s : State p O Addr) : UserEvent C O → Prop
  | .use (.update _ c) => s.life c = .alive →
    (p.channels s.poller)[fd c]? = none ∨ (p.channels s.poller)[fd c]? = some c
  | .use (.remove c) => s.life c = .alive →
    (s.eventHandling = true → s.currentActiveChannel.map addr = some (addr c) ∨
      addr c ∉ s.activeChannels.map addr) ∧
    (p.channels s.poller)[fd c]? = some c ∧ (p.chan s.poller).events c = kNoneEvent
  | .destroy c => s.life c = .alive ∧ s.expired c = true →
    s.handling c = false ∧ hasChannel fd (p.channels s.poller) c = false
  | _ => True

def Correct (fd : C → Int) (addr : C → Addr) (s : State p O Addr) : Event C O p.Answer → Prop
  | .user e => s.pc.inUserCode = true → CorrectUse fd addr s e
  | .loop _ => True

theorem Inv.userStep_ne_assertFailed_iff (h : Inv fd addr I s) (hp : Lawful p fd I)
    (hl : Lenient p fd I) (huser : s.pc.inUserCode = true) (e : UserEvent C O) :
    userStep fd addr s e ≠ .error (.fault .assertFailed) ↔ CorrectUse fd addr s e := by
  cases e with
  | use op =>
    cases op with
    | update u c =>
      refine ite_ne_assertFailed_iff fun _ => ?_
      rw [ne_assertFailed_iff (h.useStep_onlyAsserts hp c u).1, ← hl.update _ u c h.poller]
      simp only [update, bind_eq_ok, Except.ok.injEq]
      constructor
      · rintro ⟨_, poller, hstep, -⟩
        exact ⟨poller, hstep⟩
      · rintro ⟨poller, hstep⟩
        exact ⟨_, poller, hstep, rfl⟩
    | remove c =>
      refine ite_ne_assertFailed_iff fun _ => ?_
      rw [ne_assertFailed_iff (h.useStep_onlyAsserts hp c .disableAll).2.1,
        ← hl.remove _ c h.poller]
      simp only [remove_eq_ok]
      constructor
      · rintro ⟨_, hcurrent, poller, hstep, -⟩
        exact ⟨hcurrent, poller, hstep⟩
      · rintro ⟨hcurrent, poller, hstep⟩
        exact ⟨_, hcurrent, poller, hstep, rfl⟩
  | destroy c =>
    refine ite_ne_assertFailed_iff fun hc => ?_
    rw [ne_assertFailed_iff (h.useStep_onlyAsserts hp c .disableAll).2.2,
      ← h.destroy_ok_iff huser hc.1 hc.2]
    simp only [step, userStep, huser, hc, if_true, and_self]
  | create | tie | setCallback | make | share | drop =>
    simp only [userStep, CorrectUse, iff_true]
    split <;> simp

theorem Inv.step_ne_assertFailed_iff (h : Inv fd addr I s) (hp : Lawful p fd I)
    (hl : Lenient p fd I) {e : Event C O p.Answer} (hk : KernelAnswers fd s e) :
    step fd addr s e ≠ .error (.fault .assertFailed) ↔ Correct fd addr s e := by
  cases e with
  | user e =>
    exact ite_ne_assertFailed_iff fun huser => h.userStep_ne_assertFailed_iff hp hl huser e
  | loop e =>
    refine iff_of_true ?_ trivial
    obtain hd | ⟨t, ht, -⟩ := h.loopStep_ok hp hk
    · simp [step, hd]
    · simp [step, ht]

/-- With the epoll poller, the asserts say exactly what the users have to see to: a run fails in one
if and only if some use of a channel is not correct. -/
theorem asserts_exact {fd : C → Int} {addr : C → Addr}
    {es : List (Event C O (BackEnd.epoll.selector C).Answer)}
    (hes : Throughout (step fd addr) (KernelAnswers fd)
      (.init : State (BackEnd.epoll.selector C) O Addr) es) :
    run (step fd addr) (.init : State (BackEnd.epoll.selector C) O Addr) es ≠
        .error (.fault .assertFailed) ↔
      Throughout (step fd addr) (Correct fd addr)
        (.init : State (BackEnd.epoll.selector C) O Addr) es := by
  have hp := EpollPoller.lawful fd
  have hl := EpollPoller.lenient fd
  exact run_ne_error_iff (fun _ _ _ h hk ht => Inv.of_step h hp hk ht)
    (fun _ _ h hk => Inv.step_ne_assertFailed_iff h hp hl hk) (inv_init hp) hes

def Interested (fd : C → Int) (s : State (BackEnd.epoll.selector C) O Addr) :
    Event C O (BackEnd.epoll.selector C).Answer → Prop
  | .loop (.poll (events : List (EpollPoller.EpollEvent C))) =>
    let poller : EpollPoller.State C := s.poller
    (∀ event ∈ events, (poller.epoll.interest (fd event.channel)).map (·.channel) =
      some event.channel) ∧ (events.map EpollPoller.EpollEvent.channel).Nodup
  | _ => True

instance (fd : C → Int) (s : State (BackEnd.epoll.selector C) O Addr) :
    ∀ e, Decidable (Interested fd s e)
  | .loop (.poll (events : List (EpollPoller.EpollEvent C))) =>
    inferInstanceAs (Decidable ((∀ event ∈ events, _ = _) ∧
      (events.map EpollPoller.EpollEvent.channel).Nodup))
  | .user _ | .loop .next | .loop .test | .loop .ret => inferInstanceAs (Decidable True)

omit [DecidableEq O] [DecidableEq Addr] in
theorem Interested.kernelAnswers {s : State (BackEnd.epoll.selector C) O Addr}
    {e : Event C O (BackEnd.epoll.selector C).Answer} (h : Interested fd s e) :
    KernelAnswers fd s e := by
  cases e with
  | user e => trivial
  | loop e =>
    cases e with
    | poll events =>
      refine ⟨fun event hevent => ?_, h.2⟩
      obtain ⟨entry, hentry, hchannel⟩ := Option.map_eq_some_iff.mp (h.1 event hevent)
      exact ⟨_, entry, hentry, hchannel.symm⟩
    | next | test | ret => trivial

def threeFds (c : Nat) : Int := c + 3

def threeAddrs (c : Nat) : Nat := c % 2

/-- Two channels are reported. The first removes itself; the second destroys it and creates another
one at its address, which it enables, disables and removes. -/
def reusesAddress : List (Event Nat Unit (BackEnd.epoll.selector Nat).Answer) :=
  [.user (.create 0 none), .user (.setCallback 0 .read true),
    .user (.use (.update .enableReading 0)), .user (.create 1 none),
    .user (.setCallback 1 .read true), .user (.use (.update .enableReading 1)),
    .loop (.poll ([⟨pollIn, 0⟩, ⟨pollIn, 1⟩] : List (EpollPoller.EpollEvent Nat))),
    .loop .next, .loop .test, .loop .test, .loop .test, .user (.use (.update .disableAll 0)),
    .user (.use (.remove 0)), .loop .ret, .loop .test, .loop .test,
    .loop .next, .loop .test, .loop .test, .loop .test, .user (.destroy 0),
    .user (.create 2 none), .user (.use (.update .enableReading 2)),
    .user (.use (.update .disableAll 2)), .user (.use (.remove 2))]

theorem asserts_exact_reusesAddress : ¬ Throughout (step threeFds threeAddrs)
    (Correct threeFds threeAddrs) (.init : State (BackEnd.epoll.selector Nat) Unit Nat)
    reusesAddress := by
  have hes : Throughout (step threeFds threeAddrs) (Interested threeFds)
      (.init : State (BackEnd.epoll.selector Nat) Unit Nat) reusesAddress := by decide +kernel
  intro h
  exact (asserts_exact (hes.imp fun _ _ h => h.kernelAnswers)).mpr h (by rfl)

end Reactor

end AcMuduo

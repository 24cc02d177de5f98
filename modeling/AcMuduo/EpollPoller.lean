import AcMuduo.Poller

namespace AcMuduo.EpollPoller

open Machine Poller

variable {C : Type} [DecidableEq C]

def kNew : Int := -1

def kAdded : Int := 1

def kDeleted : Int := 2

inductive CtlOp where
  | add
  | del
  | mod
  deriving DecidableEq, Repr

/-- An `epoll_event`; the channel is its `data.ptr`. -/
structure EpollEvent (C : Type) where
  events : BitVec 32
  channel : C

inductive Errno where
  | eexist
  | enoent
  deriving DecidableEq, Repr

/-- The kernel's side of an epoll descriptor: its interest set and, for the record, how it has
answered each `epoll_ctl`. -/
structure Epoll (C : Type) where
  interest : Int → Option (EpollEvent C)
  answers : List (Option Errno)

def Epoll.init : Epoll C := ⟨fun _ => none, []⟩

/-- The error of `epoll_ctl` on an open descriptor, if any. -/
def Epoll.errno (k : Epoll C) (op : CtlOp) (fd : Int) : Option Errno :=
  match op, k.interest fd with
  | .add, some _ => some .eexist
  | .del, none | .mod, none => some .enoent
  | _, _ => none

def Epoll.ctl (k : Epoll C) (op : CtlOp) (fd : Int) (event : EpollEvent C) :
    Epoll C × Option Errno :=
  let answer := k.errno op fd
  let entry := match op with
    | .del => none
    | .add | .mod => some event
  let interest := if answer = none then Function.update k.interest fd entry else k.interest
  (⟨interest, k.answers ++ [answer]⟩, answer)

/-- `epoll_wait` can return the event: its `data.ptr` comes from the interest set. -/
def Epoll.CanReturn (k : Epoll C) (event : EpollEvent C) : Prop :=
  ∃ f entry, k.interest f = some entry ∧ event.channel = entry.channel

structure State (C : Type) where
  chan : Channels C
  channels : ChannelMap C
  epoll : Epoll C

def State.init : State C := ⟨.init, ∅, .init⟩

def update (fd : C → Int) (operation : CtlOp) (s : State C) (c : C) :
    Except (Stop Fault) (State C) :=
  let event : EpollEvent C := ⟨s.chan.events c, c⟩
  match s.epoll.ctl operation (fd c) event with
  | (epoll, none) => .ok { s with epoll := epoll }
  -- the failure of a `DEL` is only logged
  | (epoll, some _) => if operation = .del then .ok { s with epoll := epoll } else
    .error (.fault .fatalLog)

def updateChannel (fd : C → Int) (s : State C) (c : C) : Except (Stop Fault) (State C) :=
  let index := s.chan.index c
  if index = kNew ∨ index = kDeleted then do
    let s ←
      if index = kNew then do
        assert (s.channels[fd c]? = none)
        .ok { s with channels := s.channels.insert (fd c) c }
      else do
        assert (s.channels[fd c]? ≠ none)
        -- the assert here is an assignment
        .ok { s with channels := s.channels.insert (fd c) c }
    update fd .add { s with chan := s.chan.setIndex c kAdded } c
  else do
    assert (s.channels[fd c]? ≠ none)
    assert (s.channels[fd c]? = some c)
    assert (index = kAdded)
    if s.chan.events c = kNoneEvent then
      let s ← update fd .del s c
      .ok { s with chan := s.chan.setIndex c kDeleted }
    else update fd .mod s c

def removeChannel (fd : C → Int) (s : State C) (c : C) : Except (Stop Fault) (State C) := do
  assert (s.channels[fd c]? ≠ none)
  assert (s.channels[fd c]? = some c)
  assert (s.chan.events c = kNoneEvent)
  let index := s.chan.index c
  assert (index = kAdded ∨ index = kDeleted)
  let s := { s with channels := s.channels.erase (fd c) }
  let s ← if index = kAdded then update fd .del s c else .ok s
  .ok { s with chan := s.chan.setIndex c kNew }

/-- `fill_active_channels` on the `events_` that `epoll_wait` has filled in. -/
def fillActiveChannels (events : List (EpollEvent C)) (numEvents : Nat) (chan : Channels C)
    (activeChannels : List C) : Except (Stop Fault) (Channels C × List C) := do
  assert (numEvents ≤ events.length)
  .ok <| (events.take numEvents).foldl
    (fun (chan, active) event =>
      (chan.setRevents event.channel event.events, active ++ [event.channel]))
    (chan, activeChannels)

def step (fd : C → Int) (s : State C) : Op C → Except (Stop Fault) (State C)
  | .update u c =>
    updateChannel fd { s with chan := s.chan.setEvents c (u.events (s.chan.events c)) } c
  | .remove c => do
    assert (s.chan.events c = kNoneEvent)
    removeChannel fd s c

def watched (s : State C) : Set (Int × BitVec 32) :=
  {x | ∃ c, s.epoll.interest x.1 = some ⟨x.2, c⟩}

end AcMuduo.EpollPoller

import AcMuduo.Poller

namespace AcMuduo.PollPoller

open Machine Poller

variable {C : Type} [DecidableEq C]

structure PollFd where
  fd : Int
  events : BitVec 16
  revents : BitVec 16
  deriving DecidableEq, Repr

structure State (C : Type) where
  chan : Channels C
  channels : ChannelMap C
  pollFds : Array PollFd

def State.init : State C := ⟨.init, ∅, #[]⟩

def entryAt (s : State C) (index : Nat) : Except (Stop Fault) PollFd :=
  match s.pollFds[index]? with
  | some pfd => .ok pfd
  | none => .error (.fault .outOfBounds)

def updateChannel (fd : C → Int) (s : State C) (c : C) : Except (Stop Fault) (State C) := do
  let events := s.chan.events c
  if s.chan.index c < 0 then
    assert (s.channels[fd c]? = none)
    let pollFds := s.pollFds.push ⟨fd c, events.setWidth 16, 0⟩
    .ok { s with
      pollFds := pollFds
      chan := s.chan.setIndex c (pollFds.size - 1)
      channels := s.channels.insert (fd c) c }
  else
    assert (s.channels[fd c]? ≠ none)
    assert (s.channels[fd c]? = some c)
    let index := s.chan.index c
    assert (0 ≤ index ∧ index < s.pollFds.size)
    let pfd ← entryAt s index.toNat
    assert (pfd.fd = fd c ∨ pfd.fd = -fd c - 1)
    let pfd : PollFd := ⟨fd c, events.setWidth 16, 0⟩
    let pfd := if events = kNoneEvent then { pfd with fd := -fd c - 1 } else pfd
    .ok { s with pollFds := s.pollFds.setIfInBounds index.toNat pfd }

def removeChannel (fd : C → Int) (s : State C) (c : C) : Except (Stop Fault) (State C) := do
  assert (s.channels[fd c]? ≠ none)
  assert (s.channels[fd c]? = some c)
  assert (s.chan.events c = kNoneEvent)
  let index := s.chan.index c
  assert (0 ≤ index ∧ index < s.pollFds.size)
  let pfd ← entryAt s index.toNat
  assert (pfd.fd = -fd c - 1 ∧ pfd.events.signExtend 32 = s.chan.events c)
  let s := { s with channels := s.channels.erase (fd c) }
  if index = s.pollFds.size - 1 then .ok { s with pollFds := s.pollFds.pop }
  else
    let back ← entryAt s (s.pollFds.size - 1)
    let channelAtEnd := if back.fd < 0 then -back.fd - 1 else back.fd
    match s.channels[channelAtEnd]? with
    | none => .error (.fault .nullDereference)
    | some d => .ok { s with
        chan := s.chan.setIndex d index
        pollFds := (s.pollFds.swapIfInBounds index.toNat (s.pollFds.size - 1)).pop }

def PollFd.isReady (pfd : PollFd) : Bool := pfd.revents.toInt > 0

/-- The loop of `fill_active_channels` from an entry on, with the events left to be found. -/
def fillActiveChannels (fd : C → Int) (channels : ChannelMap C) :
    List PollFd → Int → Channels C → List C → Except (Stop Fault) (Channels C × List C)
  | [], _, chan, activeChannels => .ok (chan, activeChannels)
  | pfd :: rest, numEvents, chan, activeChannels =>
    if numEvents > 0 then
      if pfd.isReady then
        match channels[pfd.fd]? with
        | none => .error (.fault .assertFailed)
        | some c => do
          assert (fd c = pfd.fd)
          fillActiveChannels fd channels rest (numEvents - 1)
            (chan.setRevents c (pfd.revents.signExtend 32)) (activeChannels ++ [c])
      else fillActiveChannels fd channels rest numEvents chan activeChannels
    else .ok (chan, activeChannels)

def polled (s : State C) (result : Nat → BitVec 16) : Array PollFd :=
  s.pollFds.mapIdx fun i pfd => { pfd with revents := result i }

def step (fd : C → Int) (s : State C) : Op C → Except (Stop Fault) (State C)
  | .update u c =>
    updateChannel fd { s with chan := s.chan.setEvents c (u.events (s.chan.events c)) } c
  | .remove c => do
    assert (s.chan.events c = kNoneEvent)
    removeChannel fd s c

def watched (s : State C) : Set (Int × BitVec 32) :=
  {x | ∃ pfd ∈ s.pollFds, 0 ≤ pfd.fd ∧ x = (pfd.fd, pfd.events.signExtend 32)}

end AcMuduo.PollPoller

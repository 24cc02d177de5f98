import AcMuduo.Fault
import AcMuduo.Machine
import Mathlib.Data.Set.Defs
import Mathlib.Logic.Function.Basic

namespace AcMuduo

variable {C : Type} [DecidableEq C]

def pollIn : BitVec 32 := 0x001

def pollPri : BitVec 32 := 0x002

def pollOut : BitVec 32 := 0x004

def kNoneEvent : BitVec 32 := 0

def kReadEvent : BitVec 32 := pollIn ||| pollPri

def kWriteEvent : BitVec 32 := pollOut

inductive Update where
  | enableReading
  | disableReading
  | enableWriting
  | disableWriting
  | disableAll
  deriving DecidableEq, Repr

def Update.events : Update → BitVec 32 → BitVec 32
  | .enableReading, events => events ||| kReadEvent
  | .disableReading, events => events &&& ~~~kReadEvent
  | .enableWriting, events => events ||| kWriteEvent
  | .disableWriting, events => events &&& ~~~kWriteEvent
  | .disableAll, _ => kNoneEvent

inductive Op (C : Type) where
  | update (u : Update) (c : C)
  | remove (c : C)

def Op.channel {C : Type} : Op C → C
  | .update _ c | .remove c => c

/-- The fields of all channels. The `fd_` of a channel is constant, and so a parameter of what
follows. -/
structure Channels (C : Type) where
  events : C → BitVec 32
  revents : C → BitVec 32
  index : C → Int

namespace Channels

def init : Channels C := ⟨fun _ => 0, fun _ => 0, fun _ => -1⟩

def setEvents (s : Channels C) (c : C) (events : BitVec 32) : Channels C :=
  { s with events := Function.update s.events c events }

def setRevents (s : Channels C) (c : C) (revents : BitVec 32) : Channels C :=
  { s with revents := Function.update s.revents c revents }

def setIndex (s : Channels C) (c : C) (index : Int) : Channels C :=
  { s with index := Function.update s.index c index }

@[simp] theorem setEvents_events (s : Channels C) (c : C) (events : BitVec 32) :
    (s.setEvents c events).events = Function.update s.events c events := rfl

@[simp] theorem setEvents_index (s : Channels C) (c : C) (events : BitVec 32) :
    (s.setEvents c events).index = s.index := rfl

@[simp] theorem setIndex_events (s : Channels C) (c : C) (index : Int) :
    (s.setIndex c index).events = s.events := rfl

@[simp] theorem setIndex_index (s : Channels C) (c : C) (index : Int) :
    (s.setIndex c index).index = Function.update s.index c index := rfl

end Channels

def Pollable (events : BitVec 32) : Prop :=
  events = kNoneEvent ∨ events = kReadEvent ∨ events = kWriteEvent ∨
    events = kReadEvent ||| kWriteEvent

theorem Update.pollable (u : Update) {events : BitVec 32} (h : Pollable events) :
    Pollable (u.events events) := by
  simp only [Pollable] at h ⊢
  rcases h with rfl | rfl | rfl | rfl <;> cases u <;> decide

theorem Pollable.short {events : BitVec 32} (h : Pollable events) :
    (events.setWidth 16).signExtend 32 = events := by
  rcases h with rfl | rfl | rfl | rfl <;> decide

end AcMuduo

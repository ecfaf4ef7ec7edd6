import RadioOccupancy.Observer.ListenerSet
import RadioOccupancy.Observer.Notice

/-!
Who gets the trace events of a radio.

The same subscriber may be added several times and is then called once for each. A subscription for
one event ends just before its call, and it is called at most once even if it is still on a list that
was drawn up before it ended.
-/

namespace RadioOccupancy

/-- Who is called: a named observer or a collector of statistics. -/
inductive Subscriber where
  | observer (id : ObserverId)
  | collector (index : Nat)
deriving DecidableEq, Repr

/-- One entry of a subscriber for a kind of event. -/
structure Subscription where
  /-- tells apart entries of the same subscriber -/
  serial : Nat
  kind : TraceKind
  subscriber : Subscriber
  /-- ends with its first call -/
  once : Bool
deriving DecidableEq, Repr

/-- The subscriptions of a radio in the order in which they were made. -/
structure Subscriptions where
  entries : List Subscription := []
  /-- the serial of the next entry -/
  nextSerial : Nat := 0
  /-- the serials of the entries for one event that have been called -/
  spent : List Nat := []
deriving DecidableEq, Repr

namespace Subscriptions

/-- Adds a subscription at the end. -/
def add (s : Subscriptions) (kind : TraceKind) (who : Subscriber) (once : Bool) : Subscriptions :=
  { s with
    entries := s.entries ++ [⟨s.nextSerial, kind, who, once⟩]
    nextSerial := s.nextSerial + 1 }

/-- The subscriptions for a kind of event. -/
def ofKind (s : Subscriptions) (kind : TraceKind) : List Subscription :=
  s.entries.filter fun e => e.kind = kind

/-- Removes the entry with a serial. -/
def removeSerial (s : Subscriptions) (serial : Nat) : Subscriptions :=
  { s with entries := s.entries.filter fun e => e.serial != serial }

/-- Removes the latest entry of a subscriber for a kind of event. -/
def remove (s : Subscriptions) (kind : TraceKind) (who : Subscriber) : Subscriptions :=
  match (s.ofKind kind).reverse.find? fun e => e.subscriber = who with
  | some e => s.removeSerial e.serial
  | none => s

/-- Removes all entries. -/
def clear (s : Subscriptions) : Subscriptions :=
  { s with entries := [] }

/-- Gets an entry ready to be called: an entry for one event ends now, and if it has been called
before, it is not to be called again. -/
def claim (s : Subscriptions) (e : Subscription) : Option Subscriptions :=
  if !e.once then some s
  else if s.spent.contains e.serial then none
  else some { s.removeSerial e.serial with spent := e.serial :: s.spent }

end Subscriptions

end RadioOccupancy

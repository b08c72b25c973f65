import Multiplex.Stream

/-! # Handlers

A handler serves one stream. It is a list of steps that it takes in order. Most steps act on the stream
and get a reply; a handler may also suspend, and it may break down. -/

namespace Multiplex

/-- What a handler does with its stream. -/
inductive Action where
  /-- Asks what stream it is. -/
  | info
  /-- Reads the next part of the peer's message; if `wait` is set, waits for one. -/
  | read (wait : Bool)
  | readAll
  | headers (list : List Header) (final : Bool)
  | data (bytes : Bytes) (final : Bool)
  /-- Promises the peer the reply to the request `list`, and starts a pushed stream for it. -/
  | push (list : List Header) (priority : Nat)
  deriving DecidableEq

/-- What a handler does next. -/
inductive Step where
  | act (action : Action)
  /-- Suspends until the next poll. -/
  | yield
  /-- Suspends until it is let on, and then reads the next part of the peer's message. -/
  | await
  /-- Breaks down. -/
  | fail
  deriving DecidableEq

/-- What a handler gets for a step. -/
inductive Reply where
  | info (stream parent priority : Nat) (pushed : Bool)
  | input (part : Option Inbound)
  | inputs (parts : List Inbound)
  | sent
  | pushed (stream : Nat)
  | refused (e : StreamError)
  | resumed
  deriving DecidableEq

/-- A suspended handler. -/
structure Parked where
  stream : Nat
  /-- The place of the step that it suspended in. -/
  index : Nat
  step : Step
  rest : List Step
  deriving DecidableEq

/-- Whether a suspended handler waits for the next poll, rather than for input. -/
def Parked.waitsForPoll (p : Parked) : Bool := p.step = .yield

/-- Which handler serves which stream. -/
structure Handlers where
  /-- The handlers of single streams. -/
  own : List (Nat × List Step) := []
  /-- The handler of the other pushed streams. -/
  pushed : Option (List Step) := none
  /-- The handler of all other streams. -/
  others : List Step := []

def Handlers.script (h : Handlers) (stream : Nat) (pushed : Bool) : List Step :=
  match h.own.lookup stream with
  | some script => script
  | none => if pushed then h.pushed.getD h.others else h.others

end Multiplex

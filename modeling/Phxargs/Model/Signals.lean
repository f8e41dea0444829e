import Phxargs.Lib.Trace
import Phxargs.Model.ProcessPool

/-!
# `Phxargs.Model.Signals`: the counters, access by access

`applySignalAdjustments` is atomic but for the handlers that run in front of its reads. Here
each access of `apply_signal_adjustments` to a counter is a step of its own, and `on_sigusr1` and
`on_sigusr2` can run between any two of them. What the function does behind its last access
changes no counter.

An interleaving is a list of `SignalEvent`s. It may hold any number of calls.
-/

set_option autoImplicit false

namespace Phxargs

/-- What happens next: a handler runs, or the next access is made. Between two calls, the next
access is the first one of a new call. -/
inductive SignalEvent where
  | onSigusr1
  | onSigusr2
  | access
  deriving DecidableEq, Repr

/-- Where a call is: the access that comes next, with the values that the call has so far. -/
inductive AdjustPoint where
  /-- Between two calls. -/
  | outside
  | readAppliedSigusr1 (count : Int)
  | readSigusr2 (u1 : Int)
  | readAppliedSigusr2 (u1 count : Int)
  /-- Behind the early return: `sigusr1_count` is read for the second time. -/
  | rereadSigusr1 (u1 u2 : Int)
  | writeAppliedSigusr1 (u1 u2 seen : Int)
  | rereadSigusr2 (u1 u2 : Int)
  | writeAppliedSigusr2 (u1 u2 seen : Int)
  deriving DecidableEq, Repr

/-- The counters, where the call is, and the `u1` and `u2` of the completed calls. -/
structure SignalState where
  signals : Signals
  point : AdjustPoint
  completed : List (Int × Int)

/-- The state in which the program starts. -/
def SignalState.start : SignalState := ⟨⟨0, 0, 0, 0⟩, .outside, []⟩

/-- The next access of `apply_signal_adjustments`. -/
def accessNext (s : SignalState) : SignalState :=
  match s.point with
  | .outside => { s with point := .readAppliedSigusr1 s.signals.sigusr1Count }
  | .readAppliedSigusr1 count => { s with point := .readSigusr2 (count - s.signals.appliedSigusr1) }
  | .readSigusr2 u1 => { s with point := .readAppliedSigusr2 u1 s.signals.sigusr2Count }
  | .readAppliedSigusr2 u1 count =>
      let u2 := count - s.signals.appliedSigusr2
      -- The early return: it completes the call, and nothing is applied.
      if u1 = 0 ∧ u2 = 0 then
        { s with point := .outside, completed := s.completed ++ [(u1, u2)] }
      else
        { s with point := .rereadSigusr1 u1 u2 }
  -- The counter is read again. What has been delivered since the first read is applied too.
  | .rereadSigusr1 u1 u2 => { s with point := .writeAppliedSigusr1 u1 u2 s.signals.sigusr1Count }
  | .writeAppliedSigusr1 u1 u2 seen =>
      { s with
        signals := { s.signals with appliedSigusr1 := seen }
        point := .rereadSigusr2 u1 u2 }
  | .rereadSigusr2 u1 u2 => { s with point := .writeAppliedSigusr2 u1 u2 s.signals.sigusr2Count }
  | .writeAppliedSigusr2 u1 u2 seen =>
      { s with
        signals := { s.signals with appliedSigusr2 := seen }
        point := .outside
        completed := s.completed ++ [(u1, u2)] }

/-- One event. A handler increments its counter, and the increment does not overflow. -/
def signalNext : SignalEvent → SignalState → SignalState
  | .onSigusr1, s =>
      { s with signals := { s.signals with sigusr1Count := s.signals.sigusr1Count + 1 } }
  | .onSigusr2, s =>
      { s with signals := { s.signals with sigusr2Count := s.signals.sigusr2Count + 1 } }
  | .access, s => accessNext s

/-- The steps of an interleaving. -/
def SignalStep (event : SignalEvent) (s t : SignalState) : Prop := t = signalNext event s

end Phxargs

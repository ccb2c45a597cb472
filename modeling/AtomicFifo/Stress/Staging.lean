import AtomicFifo.Stress

/-!
# Rounds as they may go

What a round of a stress test comes to is up to the order in which its threads get to take their
steps, and to the faults of its queue, if it has any. A `Staging` is a choice of both for one
round, so that a test may be looked at whose rounds go differently. It leaves no choice of the
queue: this is a fresh one of the flavor under test.

A `Mark` is what an event tells of the course of the test itself: that a round has begun, that a
queue was created, that a round has passed.

* `Staging.play`      a round as it was staged
* `Stress.staged`     the rounds of a test, each as it was staged
* `Stress.telling`    what a test emits of one of its rounds
-/

namespace AtomicFifo

/-- A stage in the course of a stress test. -/
inductive Mark
  | started (round : Word) (flavor : Flavor)
  /-- A queue was created. -/
  | created
  | finished
  deriving DecidableEq, Repr

/-- The stage that an event reports, if any. -/
def Event.mark? : Event → Option Mark
  | .initialized _ => some .created
  | .started round flavor => some (.started round flavor)
  | .finished .. => some .finished
  | .allocationFailed _ | .released | .drained .. => none

/-- How a round may go. -/
structure Staging where
  /-- The faults of the queue, and the node size that it gives out, if it is to have faults. -/
  wrapper : Option (Faults × Word)
  schedule : List Agent

/-- The round on a fresh queue of a flavor, and the events from the creation of the queue on. -/
def Staging.play (s : Staging) (flavor : Flavor) (plan : Plan) : RoundReport :=
  let report := match s.wrapper with
    | none => (Round.play (.linked flavor.facade) plan .init s.schedule).toRoundReport
    | some (faults, size) =>
      (Round.play (Faulty.subject flavor.facade faults size) plan .init s.schedule).toRoundReport
  { report with events := Queue.birth :: report.events }

namespace Stress

/-- What the rounds of a test come to that are staged like this. -/
def staged (o : Options) (stagings : Word → Staging) (round : Word) : RoundReport :=
  (stagings round).play o.flavor (plan o)

/-- What a test emits of a round. -/
def telling (flavor : Flavor) (play : Word → RoundReport) (round : Word) : List Event :=
  .started round flavor :: (play round).events

/-- How a test ends at a round that comes to this. -/
def exitAt (round : Word) : Outcome → Exit
  | .passed => .success
  | .failed (.error e) => .failed (roundFailed round e)
  | .failed (.panic p) => .panicked p
  | .unfinished => .unfinished

end Stress

end AtomicFifo

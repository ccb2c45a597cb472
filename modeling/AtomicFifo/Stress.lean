import AtomicFifo.LogFilter
import AtomicFifo.Options
import AtomicFifo.Round.Faults

/-!
# Stress tests

A stress test is a number of rounds, each on a fresh queue. It stops at the first round that
does not pass; a round that fails with an error makes it fail with the number of the round in
front of that error. Without producers or without consumers no round is started.

* `Stress.test`   a test, given what each round comes to
* `Stress.run`    the whole program, from the command line and the log filter to the exit
-/

namespace AtomicFifo

/-- How a stress test ends. -/
inductive Exit
  | success
  /-- The command line asks for help, or is wrong. -/
  | early (e : EarlyExit)
  | failed (chain : ErrorChain)
  | panicked (p : Panic)
  /-- A round does not end. -/
  | unfinished
  deriving DecidableEq, Repr

/-- What a stress test emits and how it ends. -/
structure StressReport where
  events : List Event
  exit : Exit
  deriving DecidableEq, Repr

namespace Exit

/-- The exit status. -/
def status : Exit → Nat
  | .success => 0
  | .early e => if e.success then 0 else 1
  | .failed _ => 1
  -- A panic ends the program with a status of its own.
  | .panicked _ => 101
  | .unfinished => 102

/-- The text for the standard output, apart from the log. -/
def output : Exit → String
  | .early .help => Options.help ++ "\n"
  | _ => ""

/-- The text for the error output. -/
def errorOutput : Exit → String
  | .success | .early .help | .unfinished => ""
  | .early (.usage e) =>
    e.message ++ "\nRun " ++ Options.program ++ " --help for more information.\n"
  | .failed chain => "Error: " ++ chain.report ++ "\n"
  | .panicked p => p.message ++ "\n"

end Exit

/-- What the program tells. -/
structure Transcript where
  /-- What the log filter holds besides directives. -/
  warnings : List LogFilter.Warning
  /-- The events that the log filter lets through. -/
  events : List Event
  exit : Exit
  deriving DecidableEq, Repr

/-- The text for the error output. -/
def Transcript.errorOutput (t : Transcript) : String :=
  String.join (t.warnings.map fun w => w.message ++ "\n") ++ t.exit.errorOutput

namespace Stress

/-- The error of a test whose round fails. -/
def roundFailed (round : Word) (e : RoundError) : ErrorChain :=
  e.chain.context ("round " ++ round.toDecimal ++ " failed")

/-- The rounds from number `round` on, so many of them, given what each comes to. -/
def rounds (flavor : Flavor) (play : Word → RoundReport) : Nat → Word → StressReport
  | 0, _ => ⟨[], .success⟩
  | n + 1, round =>
    let report := play round
    let events := .started round flavor :: report.events
    match report.outcome with
    -- Only a round that has passed is followed by another one.
    | .passed =>
      let rest := rounds flavor play n (round + 1)
      ⟨events ++ rest.events, rest.exit⟩
    | .failed (.error e) => ⟨events, .failed (roundFailed round e)⟩
    | .failed (.panic p) => ⟨events, .panicked p⟩
    | .unfinished => ⟨events, .unfinished⟩

/-- A test, given what each round comes to. -/
def test (o : Options) (play : Word → RoundReport) : StressReport :=
  -- Both checks come before the first round.
  if o.producers = 0 then ⟨[], .failed (.single "producers must not be zero")⟩
  else if o.consumers = 0 then ⟨[], .failed (.single "consumers must not be zero")⟩
  else rounds o.flavor play o.rounds.toNat 0

/-- The plan of every round. -/
def plan (o : Options) : Plan := ⟨o.producers, o.consumers, o.items, false⟩

/-- The whole program. A command line that asks for no test ends it before it reads the log
filter; a log filter that it cannot read ends it before the test. -/
def run (tokens : List String) (filter : String) : Transcript :=
  match Options.parse tokens with
  | .error e => ⟨[], [], .early e⟩
  | .ok o =>
    let reading := LogFilter.read filter
    -- The warnings are given even where the filter ends the program.
    match reading.filter with
    | .error p => ⟨reading.warnings, [], .panicked (.partedChar p)⟩
    | .ok f =>
      let report := test o fun _ => Round.ofFlavor o.flavor (plan o) none
      ⟨reading.warnings, report.events.filter f.lets, report.exit⟩

end Stress

end AtomicFifo

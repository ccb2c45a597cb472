import AtomicFifo.Channel

/-!
# Scenarios with one thread

A scenario is a list of sends and receives that one thread performs on a channel. `ping` sends
an integer and receives it back, again and again; `batch` fills the channel and then empties
it, in groups of equal size with a shorter one at the end if need be.

* `Scenario.ping`, `Scenario.batch`   the lists of calls
* `Scenario.play`                     the calls performed on a channel, with their record
-/

namespace AtomicFifo

universe u

/-- A call on a channel. -/
inductive ChannelCall
  | send (value : Word)
  | receive
  deriving DecidableEq, Repr

/-- What was observed of a scenario. -/
structure Record where
  /-- The capacities of the channels created. -/
  capacities : List Word
  /-- The calls begun, in their order. -/
  calls : List ChannelCall
  /-- The answers of the receives. -/
  received : List (Option Word)
  /-- The panic that ended the scenario, or the wait that it did not come out of. -/
  outcome : Sent
  deriving DecidableEq, Repr

namespace Record

/-- The values sent. -/
def sent (r : Record) : List Word :=
  r.calls.filterMap fun
    | .send v => some v
    | .receive => none

/-- The letter of a call. -/
def letter : ChannelCall → Char
  | .send _ => 's'
  | .receive => 'r'

/-- Letters and the lengths of their runs, with the run that is under way. -/
def runs (letter : Char) (length : Nat) : List Char → List (Char × Nat)
  | [] => [(letter, length)]
  | c :: cs => if c = letter then runs letter (length + 1) cs else (letter, length) :: runs c 1 cs

/-- The calls in short: `s4r4` are four sends and then four receives. -/
def trace (r : Record) : String :=
  match r.calls.map letter with
  | [] => ""
  | c :: cs =>
    String.join ((runs c 1 cs).map fun (letter, length) =>
      String.ofList [letter] ++ toString length)

end Record

namespace Scenario

/-- Sends `0`, `1`, … and receives each of them back. -/
def ping (iters : Word) : List ChannelCall :=
  (List.range iters.toNat).flatMap fun i => [.send (UInt64.ofNat i), .receive]

/-- The sizes of the groups of a batch. -/
def groups (iters buflen : Word) : List Nat :=
  List.replicate (iters / buflen).toNat buflen.toNat ++
    if iters % buflen = 0 then [] else [(iters % buflen).toNat]

/-- Sends `0`, `1`, … and receives as many. -/
def group (size : Nat) : List ChannelCall :=
  (List.range size).map (fun i => .send (UInt64.ofNat i)) ++ List.replicate size .receive

/-- Fills and empties a channel in groups. -/
def batch (iters buflen : Word) : List ChannelCall :=
  (groups iters buflen).flatMap group

variable {σ : Type u}

/-- Performs calls up to the first that does not return; what is done so far comes in reverse. -/
def perform (ch : Channel σ) :
    List ChannelCall → List ChannelCall → List (Option Word) → σ →
      σ × List ChannelCall × List (Option Word) × Sent
  | [], begun, received, s => (s, begun, received, .ok)
  | .send v :: calls, begun, received, s =>
    match ch.send true s v with
    | (s, .ok) => perform ch calls (.send v :: begun) received s
    | (s, how) => (s, .send v :: begun, received, how)
  | .receive :: calls, begun, received, s =>
    match ch.receive s with
    | (s, v) => perform ch calls (.receive :: begun) (v :: received) s

/-- Performs calls on a fresh channel. -/
def play (ch : Channel σ) (capacity : Word) (calls : List ChannelCall) : Record :=
  match perform ch calls [] [] (ch.create capacity) with
  | (_, begun, received, outcome) => ⟨[capacity], begun.reverse, received.reverse, outcome⟩

/-- Sends and receives in turn on a channel for one item. -/
def playPing (ch : Channel σ) (iters : Word) : Record :=
  play ch 1 (ping iters)

/-- Fills and empties a channel for `buflen` items; no channel is created for none. -/
def playBatch (ch : Channel σ) (iters buflen : Word) : Record :=
  if buflen = 0 then ⟨[], [], [], .panicked .emptyBatch⟩
  else play ch buflen (batch iters buflen)

end Scenario

end AtomicFifo

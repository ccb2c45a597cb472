import AtomicFifo.Stress

/-!
# The stress test as a program

Reads the command line and the log filter, and prints the log, the texts of the exit, and the
exit status.
-/

namespace AtomicFifo

/-- The variable of the environment that holds the log filter. -/
def filterVariable : String := "RUST_LOG"

end AtomicFifo

/-- Runs a stress test. -/
def main (tokens : List String) : IO UInt32 := do
  let filter := (← IO.getEnv AtomicFifo.filterVariable).getD ""
  let t := AtomicFifo.Stress.run tokens filter
  for event in t.events do
    IO.println event.threadLine
  IO.print t.exit.output
  IO.eprint t.errorOutput
  return UInt32.ofNat t.exit.status

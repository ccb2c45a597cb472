/-!
# Chains of errors

An error carries the errors that caused it. The whole chain is written on one line, or as a
report that lists the causes below the error; they are numbered if there are several.
-/

namespace AtomicFifo

/-- An error and its causes, each the cause of the one before it. -/
structure ErrorChain where
  error : String
  causes : List String
  deriving DecidableEq, Repr

namespace ErrorChain

/-- An error without a cause. -/
def single (error : String) : ErrorChain := ⟨error, []⟩

/-- The same error, with what was going on when it happened in front. -/
def context (chain : ErrorChain) (activity : String) : ErrorChain :=
  ⟨activity, chain.error :: chain.causes⟩

/-- The chain on one line. -/
def line (chain : ErrorChain) : String :=
  ": ".intercalate (chain.error :: chain.causes)

/-- A cause in a report: the number stands right-aligned in five columns. -/
def numbered (i : Nat) (cause : String) : String :=
  let number := toString i
  String.ofList (List.replicate (5 - number.length) ' ') ++ number ++ ": " ++ cause

/-- The lines of a report. -/
def reportLines (chain : ErrorChain) : List String :=
  match chain.causes with
  | [] => [chain.error]
  | [cause] => [chain.error, "", "Caused by:", "    " ++ cause]
  | causes =>
    chain.error :: "" :: "Caused by:" ::
      (causes.zipIdx.map fun (cause, i) => numbered i cause)

/-- The chain as a report. -/
def report (chain : ErrorChain) : String :=
  "\n".intercalate chain.reportLines

end ErrorChain

end AtomicFifo

import AtomicFifo.Flavor
import AtomicFifo.Word.Decimal

/-!
# Options of a stress test

The command line of a stress test is a list of tokens: options, each followed by its value,
in any order and each at most once. The token behind an option is its value whatever it looks
like. `--help` in the place of an option asks for the help text, and `--` ends the options.

How tokens are read (`parseTokens`), how a mistake is worded and how the help text is laid out are
not up to the stress test: they are those of a library for command lines, and taken as given. The
stress test itself decides on the names of its options, on what each of them takes for a value
(`Given.readNumber`, `Given.readFlavor`), on the usual values (`Given.complete`), on their
descriptions, and on `--help` as the one token that asks for help.

* `Options.parse`    reads a command line
* `Options.render`   writes one that sets every option
-/

namespace AtomicFifo

/-- What a stress test is asked to do. -/
structure Options where
  producers : Word
  consumers : Word
  items : Word
  rounds : Word
  flavor : Flavor
  deriving DecidableEq, Repr

/-- The names of the options. -/
inductive OptionName
  | producers
  | consumers
  | items
  | rounds
  | flavor
  deriving DecidableEq, Repr

/-- Why a value does not go with its option. -/
inductive ValueError
  /-- The option has a value already. -/
  | duplicate
  | number (e : NumberError)
  | flavor
  deriving DecidableEq, Repr

/-- Why a command line is not accepted. -/
inductive UsageError
  /-- The token is no option. -/
  | unrecognized (token : String)
  /-- There is no token behind the option. -/
  | noValue (option : OptionName)
  | badValue (option : OptionName) (value : String) (e : ValueError)
  /-- There is an option behind a request for help. -/
  | trailing
  deriving DecidableEq, Repr

/-- What a command line comes to, if not to options. -/
inductive EarlyExit
  | help
  | usage (e : UsageError)
  deriving DecidableEq, Repr

namespace OptionName

/-- All options, in the order of the help text. -/
def all : List OptionName := [.producers, .consumers, .items, .rounds, .flavor]

/-- The option without its dashes. -/
def word : OptionName → String
  | .producers => "producers"
  | .consumers => "consumers"
  | .items => "items"
  | .rounds => "rounds"
  | .flavor => "flavor"

/-- The option as a token. -/
def token (o : OptionName) : String := "--" ++ o.word

/-- The option that a token is. -/
def ofToken? (token : String) : Option OptionName := all.find? (·.token == token)

/-- What the help text says about an option. -/
def description : OptionName → String
  | .producers => "number of producer threads"
  | .consumers => "number of consumer threads"
  | .items => "items enqueued by each producer per round"
  | .rounds => "number of rounds, each run on a fresh queue"
  | .flavor => "item flavor, may be \"ref\" or \"ptr\""

end OptionName

/-- The wording of a value error. -/
def ValueError.message : ValueError → String
  | .duplicate => "duplicate values provided"
  | .number e => e.message
  | .flavor => Flavor.unknown

/-- The wording of a usage error. -/
def UsageError.message : UsageError → String
  | .unrecognized token => "Unrecognized argument: " ++ token ++ "\n"
  | .noValue option => "No value provided for option '" ++ option.token ++ "'.\n"
  | .badValue option value e =>
    "Error parsing option '" ++ option.token ++ "' with value '" ++ value ++ "': " ++ e.message
      ++ "\n"
  | .trailing => "Trailing arguments are not allowed after `help`."

namespace Options

/-- The name of the program. -/
def program : String := "fifo-stress"

/-- The token that asks for help. -/
def helpToken : String := "--help"

/-- The token that ends the options. -/
def endToken : String := "--"

/-- A line of the list of options. -/
def helpLine (token description : String) : String :=
  "  " ++ token ++ String.ofList (List.replicate (18 - token.length) ' ') ++ description ++ "\n"

/-- The help text. -/
def help : String :=
  "Usage: " ++ program
    ++ String.join (OptionName.all.map fun o => " [" ++ o.token ++ " <" ++ o.word ++ ">]")
    ++ "\n\nHammer a lock-free queue and verify nothing is lost or duplicated\n\nOptions:\n"
    ++ String.join (OptionName.all.map fun o => helpLine o.token o.description)
    ++ helpLine helpToken "display usage information"

/-- The values given so far. -/
structure Given where
  producers : Option Word
  consumers : Option Word
  items : Option Word
  rounds : Option Word
  flavor : Option Flavor
  deriving DecidableEq, Repr

namespace Given

/-- No value given. -/
def none : Given := ⟨.none, .none, .none, .none, .none⟩

/-- A value for a place that may be taken, read by `read`. -/
def fill {β : Type} (place : Option β) (read : String → Except ValueError β) (value : String) :
    Except ValueError (Option β) :=
  match place with
  | some _ => .error .duplicate
  | .none => (read value).map some

/-- Reads a number. -/
def readNumber (value : String) : Except ValueError Word :=
  match Word.ofDecimal value with
  | .ok w => .ok w
  | .error e => .error (.number e)

/-- Reads a flavor. -/
def readFlavor (value : String) : Except ValueError Flavor :=
  match Flavor.ofWord? value with
  | some f => .ok f
  | .none => .error .flavor

/-- Gives an option its value. -/
def set (g : Given) (option : OptionName) (value : String) : Except ValueError Given :=
  -- One place for each option, filled at most once.
  match option with
  | .producers => (fill g.producers readNumber value).map ({ g with producers := · })
  | .consumers => (fill g.consumers readNumber value).map ({ g with consumers := · })
  | .items => (fill g.items readNumber value).map ({ g with items := · })
  | .rounds => (fill g.rounds readNumber value).map ({ g with rounds := · })
  | .flavor => (fill g.flavor readFlavor value).map ({ g with flavor := · })

/-- The options, with the usual values where none is given. -/
def complete (g : Given) : Options where
  producers := g.producers.getD 4
  consumers := g.consumers.getD 4
  items := g.items.getD 100000
  rounds := g.rounds.getD 1
  flavor := g.flavor.getD .ref

end Given

/-- What follows the end of the options: nothing. -/
def afterEnd (help : Bool) (g : Given) : List String → Except EarlyExit Given
  | [] => if help then .error .help else .ok g
  -- There are no arguments besides options.
  | token :: _ => .error (.usage (.unrecognized token))

/-- Reads tokens where an option may stand; `help` says whether help was asked for before. -/
def parseTokens (help : Bool) (g : Given) : List String → Except EarlyExit Given
  | [] => if help then .error .help else .ok g
  | token :: tokens =>
    -- Help is given in the end only, so that a mistake behind it still counts.
    if token = helpToken then parseTokens true g tokens
    else if token = endToken then afterEnd help g tokens
    else if !token.startsWith "-" then .error (.usage (.unrecognized token))
    else if help then .error (.usage .trailing)
    else
      match OptionName.ofToken? token, tokens with
      | none, _ => .error (.usage (.unrecognized token))
      | some option, [] => .error (.usage (.noValue option))
      -- Whatever stands behind an option is its value, also what looks like an option.
      | some option, value :: tokens =>
        match g.set option value with
        | .error e => .error (.usage (.badValue option value e))
        | .ok g => parseTokens help g tokens

/-- Reads a command line. -/
def parse (tokens : List String) : Except EarlyExit Options :=
  (parseTokens false .none tokens).map Given.complete

/-- Options as a command line. -/
def render (o : Options) : List String :=
  [OptionName.producers.token, o.producers.toDecimal, OptionName.consumers.token,
    o.consumers.toDecimal, OptionName.items.token, o.items.toDecimal, OptionName.rounds.token,
    o.rounds.toDecimal, OptionName.flavor.token, o.flavor.word]

end Options

namespace EarlyExit

/-- The text that an early exit prints. -/
def text : EarlyExit → String
  | .help => Options.help
  | .usage e => e.message

/-- Whether an early exit is a success. -/
def success : EarlyExit → Bool
  | .help => true
  | .usage _ => false

end EarlyExit

end AtomicFifo

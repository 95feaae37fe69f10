import FactorStudy.Files.Path
import FactorStudy.Panel.Interval
import FactorStudy.Time.Reader

/-!
# Options of the command line

The options that take a value, how they are written, and what has been given for them. Only factors
may be given more than once.
-/

namespace FactorStudy

/-- Why a command line is refused. -/
inductive UsageFault where
  /-- Help is asked for. -/
  | help
  /-- Nothing is given where a command is needed. -/
  | nothingGiven
  | missingCommand
  | unknownCommand
  | unknownArgument
  | missingArgument
  /-- An option stands without a value, or a path is empty. -/
  | missingValue
  /-- A value does not have the form that it should. -/
  | invalidValue
  | repeatedOption
  /-- A value is given for something that takes none. -/
  | unwantedValue
deriving Repr, DecidableEq

namespace UsageFault

/-- Whether the command line asks for help, so that there is nothing wrong with it. -/
def asksHelp : UsageFault → Bool
  | help => true
  | _ => false

def message : UsageFault → String
  | help | nothingGiven => "a command is needed"
  | missingCommand => "a command is missing"
  | unknownCommand => "there is no such command"
  | unknownArgument => "an argument was not expected"
  | missingArgument => "a required argument is missing"
  | missingValue => "an option lacks its value"
  | invalidValue => "a value has the wrong form"
  | repeatedOption => "an option is given more than once"
  | unwantedValue => "a value was not expected"

end UsageFault

/-- An option that takes a value. -/
inductive Opt where
  | config | logLevel | symbol | interval | periods | quantile | start | finish | save
  | description | output | factor | sort | limit
deriving Repr, DecidableEq

namespace Opt

/-- The word for an option, which follows two hyphens. -/
def long : Opt → String
  | config => "config"
  | logLevel => "log-level"
  | symbol => "symbol"
  | interval => "interval"
  | periods => "periods"
  | quantile => "quantile"
  | start => "start"
  | finish => "end"
  | save => "save"
  | description => "description"
  | output => "output"
  | factor => "factor"
  | sort => "sort"
  | limit => "limit"

/-- The letter for an option, which follows one hyphen. -/
def letter? : Opt → Option Char
  | config => some 'c'
  | output => some 'o'
  | _ => none

end Opt

/-- What has been given for each option. -/
structure Options where
  config : Option Path
  logLevel : Option String
  symbol : Option String
  interval : Option Interval
  periods : Option Nat
  quantile : Option Nat
  start : Option Timestamp
  finish : Option Timestamp
  save : Option String
  description : Option String
  output : Option Path
  factors : List String
  sort : Option String
  limit : Option Nat

namespace Options

def none : Options :=
  ⟨.none, .none, .none, .none, .none, .none, .none, .none, .none, .none, .none, [], .none, .none⟩

/-- Whether an option that every command takes has been given. -/
def hasShared (o : Options) : Bool := o.config.isSome || o.logLevel.isSome

/-- Options of a command, with what was given before it for those it shares. -/
def within (inner outer : Options) : Options :=
  { inner with
    config := inner.config.or outer.config
    logLevel := inner.logLevel.or outer.logLevel }

/-- The value for an option that has not been given so far. -/
def once {α : Type} (before : Option α) (value : Except UsageFault α) :
    Except UsageFault (Option α) :=
  if before.isSome then .error .repeatedOption else value.map some

/-- A value that has to have a form. -/
def formed {α : Type} : Option α → Except UsageFault α
  | some a => .ok a
  | .none => .error .invalidValue

def path (text : String) : Except UsageFault Path :=
  if text = "" then .error .missingValue else .ok (.ofText text)

def count (text : String) : Except UsageFault Nat := formed (Decimal.readCount? text.toList)

/-- The options with a value for one more. -/
def give (g : Options) (o : Opt) (text : String) : Except UsageFault Options :=
  match o with
  | .config => return { g with config := ← once g.config (path text) }
  | .logLevel => return { g with logLevel := ← once g.logLevel (.ok text) }
  | .symbol => return { g with symbol := ← once g.symbol (.ok text) }
  | .interval =>
    return { g with interval := ← once g.interval (formed (Interval.read text).toOption) }
  | .periods => return { g with periods := ← once g.periods (count text) }
  | .quantile => return { g with quantile := ← once g.quantile (count text) }
  | .start => return { g with start := ← once g.start (formed (Timestamp.read? text)) }
  | .finish => return { g with finish := ← once g.finish (formed (Timestamp.read? text)) }
  | .save => return { g with save := ← once g.save (.ok text) }
  | .description => return { g with description := ← once g.description (.ok text) }
  | .output => return { g with output := ← once g.output (path text) }
  | .factor => .ok { g with factors := g.factors ++ [text] }
  | .sort => return { g with sort := ← once g.sort (.ok text) }
  | .limit => return { g with limit := ← once g.limit (count text) }

end Options

end FactorStudy

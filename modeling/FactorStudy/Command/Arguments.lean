import FactorStudy.Command.Options
import FactorStudy.Report.Ranking
import FactorStudy.Study.Request

/-!
# Reading the command line

The words of a command line lead from topic to topic, down to a command. On the way, and after it,
stand options; a command may also take one word of its own. A word that starts with a hyphen is an
option, unless it stands after the word of two hyphens.

The value of an option is looked at when the next thing is taken in. So of two faults the later one
counts when it is a word that nothing can be made of, and the faults of a command come before those
of an option in front of it.
-/

namespace FactorStudy

/-- Where in a command line a word stands. -/
inductive Topic where
  | root | evaluate | combine | check | functions | symbols | reports | listReports | showReport
  | deleteReport
deriving Repr, DecidableEq

namespace Topic

/-- The words that lead on. -/
def next : Topic → List (String × Topic)
  | root => [("evaluate", evaluate), ("combine", combine), ("check", check),
      ("functions", functions), ("symbols", symbols), ("reports", reports)]
  | reports => [("list", listReports), ("show", showReport), ("delete", deleteReport)]
  | _ => []

/-- The options of studies. -/
def studyOptions : List Opt :=
  [.symbol, .interval, .periods, .quantile, .start, .finish, .save, .description, .output]

def options (t : Topic) : List Opt :=
  [.config, .logLevel] ++
  match t with
  | evaluate => studyOptions
  | combine => .factor :: studyOptions
  | listReports => [.sort, .limit]
  | _ => []

/-- Whether there is a word of its own. -/
def takesWord : Topic → Bool
  | evaluate | check | showReport | deleteReport => true
  | _ => false

/-- Whether words lead on. -/
def leadsOn (t : Topic) : Bool := !t.next.isEmpty

end Topic

namespace Arguments

/-- An option that has been read but not taken in. -/
inductive Pending where
  | nothing
  | awaiting (o : Opt)
  | valued (o : Opt) (text : String)
deriving Repr, DecidableEq

/-- What has been read under a topic. -/
structure Reading where
  given : Options
  word : Option String
  pending : Pending

def Reading.start : Reading := ⟨.none, none, .nothing⟩

/-- Takes in the option that was read last. -/
def Reading.settled (r : Reading) : Except UsageFault Reading :=
  match r.pending with
  | .nothing => .ok r
  | .awaiting _ => .error .missingValue
  | .valued o text => return { r with given := ← r.given.give o text, pending := .nothing }

/-- Takes in an option that comes with its value. -/
def Reading.attached (r : Reading) (o : Opt) (text : String) : Except UsageFault Reading := do
  let r ← r.settled
  return { r with given := ← r.given.give o text }

/-- Takes in an option whose value is the next word. -/
def Reading.expecting (r : Reading) (o : Opt) : Except UsageFault Reading := do
  let r ← r.settled
  return { r with pending := .awaiting o }

/-- Takes in the request for help, which ends the reading. -/
def Reading.helping (r : Reading) : Except UsageFault Reading := do
  let _ ← r.settled
  .error .help

/-- Reads a word after two hyphens. -/
def Reading.long (r : Reading) (t : Topic) (body : List Char) : Except UsageFault Reading :=
  let name := String.ofList (body.takeWhile (· ≠ '='))
  let value := body.dropWhile (· ≠ '=')
  if name = "help" then if value = [] then r.helping else .error .unwantedValue
  else
    match t.options.find? fun o => o.long == name, value with
    | some o, _ :: text => r.attached o (String.ofList text)
    | some o, [] => r.expecting o
    | none, _ => .error .unknownArgument

/-- Reads letters after one hyphen: the first one that takes a value takes the rest for it. -/
def Reading.short (r : Reading) (t : Topic) (letter : Char) (rest : List Char) :
    Except UsageFault Reading :=
  if letter = 'h' then r.helping
  else
    match t.options.find? fun o => o.letter? == some letter, rest with
    | some o, [] => r.expecting o
    | some o, '=' :: text => r.attached o (String.ofList text)
    | some o, text => r.attached o (String.ofList text)
    | none, _ => .error .unknownArgument

/-- Reads a word that is no option. -/
def Reading.plain (r : Reading) (t : Topic) (afterHyphens : Bool) (word : String) :
    Except UsageFault Reading :=
  if t.takesWord ∧ r.word = none then do
    let r ← r.settled
    return { r with word := some word }
  else if t.leadsOn ∧ !(afterHyphens ∧ (word = "help" ∨ (t.next.lookup word).isSome)) then
    .error .unknownCommand
  else .error .unknownArgument

/-- What is to be done, by its topic, with its options and its word. -/
structure Chosen where
  topic : Topic
  options : Options
  word : Option String

/-- The end of a command line. -/
def Reading.chosen (r : Reading) (t : Topic) : Except UsageFault Chosen := do
  let r ← r.settled
  if t.leadsOn then .error (if r.given.hasShared then .missingCommand else .nothingGiven)
  else if (t.takesWord ∧ r.word = none) ∨ (.symbol ∈ t.options ∧ r.given.symbol = none)
      ∨ (.factor ∈ t.options ∧ r.given.factors = []) then .error .missingArgument
  else return ⟨t, r.given, r.word⟩

/-- The end of a request for help on the topic to which words lead. -/
def help : Topic → List String → UsageFault
  | _, [] => .help
  | t, word :: rest =>
    match t.next.lookup word with
    | some sub => help sub rest
    | none => if t.leadsOn ∧ word = "help" ∧ rest = [] then .help else .unknownCommand

/-- The option that stands without its value so far. -/
def Reading.awaits (r : Reading) : Option Opt :=
  match r.pending with
  | .awaiting o => some o
  | _ => none

/-- Reads words under a topic. -/
def read (t : Topic) (r : Reading) (afterHyphens : Bool) : List String → Except UsageFault Chosen
  | [] => r.chosen t
  | word :: rest =>
    if afterHyphens then do read t (← r.plain t true word) true rest
    else
      match r.awaits, t.next.lookup word with
      | none, some sub => do
        let c ← read sub .start false rest
        let r ← r.settled
        return { c with options := c.options.within r.given }
      | awaited, _ =>
        if awaited = none ∧ t.leadsOn ∧ word = "help" then .error (help t rest)
        else
          match word.toList, awaited with
          | ['-', '-'], _ => read t r true rest
          | '-' :: '-' :: body, _ => do read t (← r.long t body) false rest
          | '-' :: letter :: body, _ => do read t (← r.short t letter body) false rest
          | _, some o => read t { r with pending := .valued o word } false rest
          | _, none => do read t (← r.plain t false word) false rest

end Arguments

/-- What is done with a study. -/
structure StudyOrder where
  scope : Scope
  save : Option String
  description : String
  output : Option Path

/-- What is to be done. -/
inductive Command where
  | evaluate (expression : String) (order : StudyOrder)
  | combine (factors : List String) (order : StudyOrder)
  | check (expression : String)
  | functions
  | symbols
  | listReports (key : SortKey) (limit : Option Nat)
  | showReport (id : String)
  | deleteReport (id : String)

/-- A command line. -/
structure Invocation where
  config : Option Path
  logLevel : Option String
  command : Command

namespace Options

/-- The study that options ask for. -/
def order (o : Options) : StudyOrder where
  scope := {
    query := {
      symbol := o.symbol.getD ""
      interval := o.interval.getD .daily
      start := o.start
      finish := o.finish }
    periods := (o.periods.getD 1).toUInt64
    quantile := o.quantile.getD 5 }
  save := o.save
  description := o.description.getD ""
  output := o.output

end Options

/-- The command that is chosen. The topics that lead on choose none. -/
def Arguments.Chosen.command? (c : Chosen) : Option Command :=
  let word := c.word.getD ""
  match c.topic with
  | .root | .reports => none
  | .evaluate => some (.evaluate word c.options.order)
  | .combine => some (.combine c.options.factors c.options.order)
  | .check => some (.check word)
  | .functions => some .functions
  | .symbols => some .symbols
  | .listReports => some (.listReports (.ofText (c.options.sort.getD "score")) c.options.limit)
  | .showReport => some (.showReport word)
  | .deleteReport => some (.deleteReport word)

/-- The command line of words. -/
def Invocation.ofWords (words : List String) : Except UsageFault Invocation := do
  let c ← Arguments.read .root .start false words
  match c.command? with
  | some command => return ⟨c.options.config, c.options.logLevel, command⟩
  | none => .error .missingCommand

end FactorStudy

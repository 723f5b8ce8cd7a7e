import CpuScheduling.Algorithm
import CpuScheduling.Settings
import CpuScheduling.Text.Numeral
/-!
The arguments of the program. Every option is given at most once, by its long name or by its
letter; its value stands behind an equals sign, directly behind the letter, or in the next
argument. An argument in the place of a value may start with a dash only if it is a dash alone or
a negative number that the option accepts. The first fault or request for help decides.
-/
namespace CpuScheduling.CommandLine

inductive Key where
  | file
  | algorithm
  | cpus
  | quantum
  | maxTicks
  | csv
  | noColor
  | dumpTrace
deriving DecidableEq

namespace Key

def all : List Key := [.file, .algorithm, .cpus, .quantum, .maxTicks, .csv, .noColor, .dumpTrace]

def long : Key → String
  | .file => "file"
  | .algorithm => "algorithm"
  | .cpus => "cpus"
  | .quantum => "quantum"
  | .maxTicks => "max-ticks"
  | .csv => "csv"
  | .noColor => "no-color"
  | .dumpTrace => "dump-trace"

def letter? : Key → Option Char
  | .file => some 'f'
  | .algorithm => some 'a'
  | .cpus => some 'c'
  | .quantum => some 'q'
  | .maxTicks | .csv | .noColor | .dumpTrace => none

def takesValue : Key → Bool
  | .noColor | .dumpTrace => false
  | .file | .algorithm | .cpus | .quantum | .maxTicks | .csv => true

/-- Whether a text can be the value of an option. -/
def accepts (key : Key) (value : List Char) : Bool :=
  match key with
  | .file | .csv => !value.isEmpty
  | .algorithm => (Algorithm.ofName (String.ofList value)).toOption.isSome
  | .cpus | .quantum => (Text.int64? value).isSome
  | .maxTicks => (Text.tick? value).isSome
  | .noColor | .dumpTrace => false

/-- Whether the next argument can stand in the place of a value. -/
def acceptsNext (key : Key) : List Char → Bool
  | '-' :: c :: rest =>
    match key with
    | .cpus | .quantum => key.accepts ('-' :: c :: rest)
    | _ => false
  | value => key.accepts value

end Key

/-- Why the program does not run. -/
inductive Refusal where
  | usage
  | help
deriving DecidableEq

/-- The options given so far, each with its value; options without a value have an empty one. -/
abbrev Given := List (Key × List Char)

/-- One more option, which must be new. -/
def give (given : Given) (key : Key) (value : List Char) : Except Refusal Given :=
  if given.any fun g => g.1 == key then .error .usage else .ok (given ++ [(key, value)])

/-- The value behind an equals sign, and what stands before the sign. -/
def cutAtEquals (text : List Char) : List Char × Option (List Char) :=
  match text.dropWhile (· != '=') with
  | [] => (text, none)
  | _ :: value => (text.takeWhile (· != '='), some value)

/-- An option as an argument names it, with the value that the same argument holds. -/
inductive Mention where
  | option (key : Key) (value : Option (List Char))
  /-- The end of all options. -/
  | endOfOptions
  | help
  | unknown

def mentionOf : List Char → Mention
  | ['-', '-'] => .endOfOptions
  | '-' :: '-' :: text =>
    let (name, value) := cutAtEquals text
    match Key.all.find? fun key => key.long.toList == name with
    | some key => .option key value
    | none => if name == "help".toList && value.isNone then .help else .unknown
  | '-' :: letter :: rest =>
    match Key.all.find? fun key => key.letter? == some letter with
    | some key =>
      .option key <|
        match rest with
        | [] => none
        | '=' :: value => some value
        | value => some value
    | none => if letter == 'h' then .help else .unknown
  | _ => .unknown

/-- Reads arguments one after another. -/
def scan (given : Given) : List (List Char) → Except Refusal Given
  | [] => .ok given
  | arg :: rest =>
    match mentionOf arg with
    | .help => .error .help
    | .unknown => .error .usage
    | .endOfOptions => if rest.isEmpty then .ok given else .error .usage
    | .option key (some value) =>
      if key.takesValue && key.accepts value then do scan (← give given key value) rest
      else .error .usage
    | .option key none =>
      if key.takesValue then
        match rest with
        | value :: rest =>
          if key.acceptsNext value then do scan (← give given key value) rest else .error .usage
        | [] => .error .usage
      else do scan (← give given key []) rest

/-- What the program is asked to do. -/
structure Options where
  file : String
  algorithm : Algorithm := .fcfs
  cpus : Int := 1
  quantum : Int := defaultQuantum
  maxTicks : Option Nat := none
  csv : Option String := none
  color : Bool := true
  dumpTrace : Bool := false
deriving DecidableEq

namespace Options

/-- The changes that the options make to the standard settings, in the order in which they are
made. -/
def changes (o : Options) : List Settings.Change :=
  [.algorithm o.algorithm, .cpus o.cpus, .quantum o.quantum, .limit o.maxTicks]

def settings (o : Options) : Settings := o.changes.foldl Settings.apply {}

/-- The options that were given. The algorithm may also come from a variable of the environment,
which counts only if no argument names one. -/
def ofGiven (given : Given) (algorithmVariable : Option String) : Except Refusal Options :=
  let value? (key : Key) : Option (List Char) := given.lookup key
  let named := ((value? .algorithm).map String.ofList).or algorithmVariable
  match value? .file, Algorithm.ofName (named.getD Algorithm.fcfs.code) with
  | some file, .ok algorithm =>
    .ok {
      file := String.ofList file
      algorithm
      cpus := ((value? .cpus).bind Text.int64?).getD 1
      quantum := ((value? .quantum).bind Text.int64?).getD defaultQuantum
      maxTicks := (value? .maxTicks).bind Text.tick?
      csv := (value? .csv).map String.ofList
      color := (value? .noColor).isNone
      dumpTrace := (value? .dumpTrace).isSome }
  | _, _ => .error .usage

def read (args : List String) (algorithmVariable : Option String) : Except Refusal Options := do
  ofGiven (← scan [] (args.map String.toList)) algorithmVariable

end Options
end CpuScheduling.CommandLine

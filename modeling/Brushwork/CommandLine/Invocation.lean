import Brushwork.Config
import Brushwork.Text.Numeral

/-!
# Reading a command line

A command line names a subcommand and gives it operands and switches. A switch is
given at most once; its value stands in the next word, after an equals sign, or
right behind the letter of a short switch. A value in a word of its own does not
look like a switch, and after `--` every word is an operand.
-/

namespace Brushwork.CommandLine

inductive Switch where
  | size | maxSteps | output | showCanvas | showVariables | json | logLevel
  deriving DecidableEq

namespace Switch

def long : Switch → String
  | .size => "--size"
  | .maxSteps => "--max-steps"
  | .output => "--output"
  | .showCanvas => "--show-canvas"
  | .showVariables => "--show-variables"
  | .json => "--json"
  | .logLevel => "--log-level"

def short? : Switch → Option String
  | .size => some "-s"
  | .output => some "-o"
  | _ => none

def hasValue : Switch → Bool
  | .size | .maxSteps | .output | .logLevel => true
  | _ => false

end Switch

/-- What one word of a command line is. -/
inductive Word where
  | operand
  /-- A switch that is complete, with its value if it has one. -/
  | given (switch : Switch) (value : Text)
  /-- A switch whose value is the next word. -/
  | awaiting (switch : Switch)
  | unknown
  deriving DecidableEq

/-- Whether a word looks like a switch. A single hyphen does not. -/
def looksLikeSwitch : Text → Bool
  | '-' :: _ :: _ => true
  | _ => false

/-- A switch under its long name, with a value after an equals sign. -/
def longWord? (word : Text) (switch : Switch) : Option Word :=
  match dropStart? switch.long.toList word with
  | some [] => some (if switch.hasValue then .awaiting switch else .given switch [])
  | some ('=' :: value) => some (if switch.hasValue then .given switch value else .unknown)
  | _ => none

/-- A switch under its short name, with a value right behind it or after an equals sign. -/
def shortWord? (word : Text) (switch : Switch) : Option Word := do
  let rest ← dropStart? (← switch.short?).toList word
  match rest with
  | [] => return .awaiting switch
  | '=' :: value => return .given switch value
  | value => return .given switch value

def Word.read (allowed : List Switch) (word : Text) : Word :=
  if !looksLikeSwitch word then .operand
  else
    match allowed.findSome? fun switch => longWord? word switch <|> shortWord? word switch with
    | some read => read
    | none => .unknown

/-- Switches with their values, and operands, as they have been given so far. -/
structure Given where
  switches : List (Switch × Text) := []
  operands : List Text := []

namespace Given

def addSwitch? (given : Given) (switch : Switch) (value : Text) : Option Given :=
  if given.switches.any (·.1 == switch) then none
  else some { given with switches := given.switches ++ [(switch, value)] }

def addOperand (given : Given) (operand : Text) : Given :=
  { given with operands := given.operands ++ [operand] }

def value? (given : Given) (switch : Switch) : Option Text :=
  (given.switches.find? (·.1 == switch)).map Prod.snd

def has (given : Given) (switch : Switch) : Bool := (given.value? switch).isSome

def read? (allowed : List Switch) (given : Given) : List Text → Option Given
  | [] => some given
  | word :: rest =>
    if word = "--".toList then some { given with operands := given.operands ++ rest }
    else match Word.read allowed word with
      | .operand => read? allowed (given.addOperand word) rest
      | .given switch value => do read? allowed (← given.addSwitch? switch value) rest
      | .awaiting switch =>
        match rest with
        | [] => none
        | value :: rest =>
          if looksLikeSwitch value then none
          else do read? allowed (← given.addSwitch? switch value) rest
      | .unknown => none

end Given

/-- The greatest number of an unsigned 64-bit word. -/
def greatestCount : Nat := 18446744073709551615

/-- The number that a text of digits spells, after an optional plus sign, if it is not too great. -/
def count? (t : Text) : Option Nat :=
  let digits := match t with
    | '+' :: rest => rest
    | rest => rest
  if !digits.isEmpty && digits.all Char.isDigit && digitsValue digits ≤ greatestCount then
    some (digitsValue digits)
  else none

/-- The count that a switch was given, or the usual one if it was not given. -/
def Given.count? (given : Given) (switch : Switch) (usual : Nat) : Option Nat :=
  match given.value? switch with
  | some value => CommandLine.count? value
  | none => some usual

structure RunRequest where
  input : Text
  size : Nat
  maxSteps : Nat
  /-- Where the picture is to be written. -/
  output : Option Text
  showCanvas : Bool
  showVariables : Bool
  json : Bool
  deriving DecidableEq

structure CheckRequest where
  input : Text
  size : Nat
  json : Bool
  deriving DecidableEq

inductive Invocation where
  | run (request : RunRequest)
  | check (request : CheckRequest)
  | colors
  | version
  deriving DecidableEq

/-- How many statements are run when nothing else is asked for. -/
def usualMaxSteps : Nat := 1000000

def Given.file? (given : Given) : Option Text :=
  match given.operands with
  | [path] => if path.isEmpty then none else some path
  | _ => none

namespace Invocation

def ofRun? (words : List Text) : Option Invocation := do
  let given ← Given.read?
    [.size, .maxSteps, .output, .showCanvas, .showVariables, .json, .logLevel] {} words
  let input ← given.file?
  let size ← given.count? .size ({} : Config).canvasSize
  let maxSteps ← given.count? .maxSteps usualMaxSteps
  let output := given.value? .output
  if output = some [] then none
  else
    return .run {
      input, size, maxSteps, output
      showCanvas := given.has .showCanvas
      showVariables := given.has .showVariables
      json := given.has .json }

def ofCheck? (words : List Text) : Option Invocation := do
  let given ← Given.read? [.size, .json, .logLevel] {} words
  let input ← given.file?
  let size ← given.count? .size ({} : Config).canvasSize
  return .check { input, size, json := given.has .json }

def ofColors? (words : List Text) : Option Invocation := do
  let given ← Given.read? [.logLevel] {} words
  if given.operands.isEmpty then return .colors else none

/-- Reads a command line, of which the switches before the subcommand have been taken in. -/
def readFrom? (given : Given) : List Text → Option Invocation
  | [] => none
  | word :: rest =>
    if word = "run".toList then ofRun? rest
    else if word = "check".toList then ofCheck? rest
    else if word = "colors".toList then ofColors? rest
    else if word = "--version".toList || "-V".toList.isPrefixOf word then some .version
    else match Word.read [.logLevel] word with
      | .given switch value => do readFrom? (← given.addSwitch? switch value) rest
      | .awaiting switch =>
        match rest with
        | [] => none
        | value :: rest =>
          if looksLikeSwitch value then none
          else do readFrom? (← given.addSwitch? switch value) rest
      | _ => none

/-- Reads a command line; one that cannot be read asks for nothing. -/
def read? (words : List Text) : Option Invocation := readFrom? {} words

end Invocation

end Brushwork.CommandLine

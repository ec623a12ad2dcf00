import Brushwork.CommandLine.Directory
import Brushwork.CommandLine.Invocation
import Brushwork.CommandLine.Json
import Brushwork.Picture.Framed
import Brushwork.Picture.Ppm
import Brushwork.Program.Check

/-!
# Answering a command line

A command line is answered in two steps. First everything is computed: the input
is read, the settings are checked, the program is checked or run, and the text to
print and the picture to write are made up. Then the picture is written, and only
if that succeeds is anything printed. Whatever is refused on the way leaves no
file changed and nothing printed but the reason.
-/

namespace Brushwork.CommandLine

inductive Refusal where
  | usage
  | cannotRead (path : Text) (fault : FileFault)
  | cannotWrite (path : Text) (fault : FileFault)
  | settings (fault : Fault)
  deriving DecidableEq

def Refusal.message : Refusal → String
  | .usage => "usage"
  | .cannotRead path fault =>
    "error: cannot read " ++ String.ofList path ++ ": " ++ fault.message
  | .cannotWrite path fault =>
    "error: cannot write " ++ String.ofList path ++ ": " ++ fault.message
  | .settings fault => "error: " ++ fault.message

/-- What is left to do once everything is computed. -/
structure Plan where
  /-- The path and the text of the file to write. -/
  file : Option (Text × Text)
  print : String
  success : Bool

def line (s : String) : String := s ++ "\n"

/-- Diagnostics with their number below; no diagnostics leave nothing. -/
def listing (ds : List Diagnostic) : String :=
  if ds.isEmpty then ""
  else
    String.join (ds.map fun d => line d.display) ++
      line (toString ds.length ++ " problem(s) found")

def runSummary (run : Run) : String :=
  listing run.log.toList ++
    (if run.success then line ("ok: " ++ toString run.steps ++ " steps") else "") ++
    match run.lastValue with
    | some n => line ("value: " ++ String.ofList (decimal n))
    | none => ""

def variableLines (vars : Variables) : String :=
  String.join (vars.entries.map fun (name, value) =>
    line (String.ofList name ++ " = " ++ value.display))

/-- Six hexadecimal digits in capitals. -/
def hexSix (n : Nat) : String :=
  let digits := (Nat.toDigits 16 n).map Char.toUpper
  String.ofList (List.replicate (6 - digits.length) '0' ++ digits)

/-- The line of a color: its name in twelve columns, its value and its symbol. -/
def colorLine (color : Color) : String :=
  let name := color.name ++ List.replicate (12 - color.name.length) ' '
  line ("  " ++ String.ofList name ++ " #" ++ hexSix color.rgb ++ "  " ++ quoted [color.symbol])

def colorListing : String :=
  line "Available colors:" ++ String.join (Color.palette.map colorLine)

def runPlan (request : RunRequest) (run : Run) : Plan where
  file := request.output.map fun path => (path, Picture.ppm run.scene.agent.canvas)
  print :=
    (if request.json then line (String.ofList ((runJson run).layout 0)) else runSummary run) ++
    (if request.showVariables then variableLines run.scene.vars else "") ++
    (if request.showCanvas then String.ofList (Picture.framed run.scene.agent.canvas) else "")
  success := run.success

def checkPlan (request : CheckRequest) (ds : List Diagnostic) : Plan where
  file := none
  print :=
    if request.json then line (String.ofList ((diagnosticsJson ds).layout 0))
    else if ds.isEmpty then line "no problems found"
    else listing ds
  success := ds.isEmpty

def readInput (read : Text → Except FileFault Text) (path : Text) : Except Refusal Text :=
  (read path).mapError (.cannotRead path)

def runSource (size maxSteps : Nat) (source : Text) : Except Refusal Run := do
  (checkCanvasSize size).mapError .settings
  return Program.executeWithin size maxSteps source

/-- Everything that can be computed for a command line. -/
def plan (read : Text → Except FileFault Text) (words : List Text) : Except Refusal Plan :=
  match Invocation.read? words with
  | none => .error .usage
  | some .version => .ok ⟨none, line "walle 0.1.0", true⟩
  | some .colors => .ok ⟨none, colorListing, true⟩
  | some (.run request) => do
    let source ← readInput read request.input
    let run ← runSource request.size request.maxSteps source
    return runPlan request run
  | some (.check request) => do
    let source ← readInput read request.input
    let ds ← (Program.check { canvasSize := request.size } source).mapError .settings
    return checkPlan request ds

structure Answer where
  exitCode : Nat
  printed : String
  reason : Option Refusal

def Plan.answer (plan : Plan) : Answer := ⟨if plan.success then 0 else 1, plan.print, none⟩

def Refusal.answer (refusal : Refusal) : Answer := ⟨2, "", some refusal⟩

/-- Answers a command line in a directory, which may have one more or one other file afterwards. -/
def perform (directory : Directory) (words : List Text) : Answer × Directory :=
  match plan directory.read words with
  | .error refusal => (refusal.answer, directory)
  | .ok plan =>
    match plan.file with
    | none => (plan.answer, directory)
    | some (path, text) =>
      match directory.write path text with
      | .ok changed => (plan.answer, changed)
      | .error fault => ((Refusal.cannotWrite path fault).answer, directory)

/-- Whether a machine stops in the run that a command line asks for. -/
def stops (machine : Machine) (read : Text → Except FileFault Text) (words : List Text) : Bool :=
  match Invocation.read? words with
  | some (.run request) =>
    match readInput read request.input with
    | .error _ => false
    | .ok source =>
      match runSource request.size request.maxSteps source with
      | .error _ => false
      | .ok run => Program.stops machine request.size source run.steps
  | _ => false

/-- Answers a command line on a machine. There is no answer, and nothing is written, if the machine
stops in the run. -/
def performOn (machine : Machine) (directory : Directory) (words : List Text) :
    Option (Answer × Directory) :=
  if stops machine directory.read words then none else some (perform directory words)

end Brushwork.CommandLine

import Brushwork.Command.Effect
import Brushwork.Config
import Brushwork.Program.Basic

/-!
# Running a program

A run goes from statement to statement. Each is inspected and then processed; a
statement that fails is reported and passed over. A fault whose category the
inspection has already reported for the same statement is not reported again,
unless it depends on the state of the run.

`advance n` runs at most `n` statements and says whether one is still waiting.
Both ways to run a program are read off it: with a budget, a waiting statement
is reported as the one that broke the limit; without one, a run has an answer
when no statement is waiting after as many statements as the caller will allow.

A machine that traps goes the same way until a statement overflows, and stops there
without an answer.
-/

namespace Brushwork

/-- What becomes of one statement. -/
structure Step where
  scene : Scene
  /-- The position, counted from zero, of the line to go on with. -/
  position : Nat
  value : Option Int
  findings : List Finding

namespace Step

/-- Whether a fault is covered by what the inspections have found in the same statement. -/
def alreadyFound (findings : List Finding) (fault : Fault) : Bool :=
  fault.category != .runtime && findings.any (·.category == fault.category)

/-- What the inspections have found in a statement, with the fault for which it was refused. -/
def withFault (findings : List Finding) (fault : Fault) : List Finding :=
  if alreadyFound findings fault then findings else findings ++ [fault.finding]

def ofCommand (labels : Labels) (scene : Scene) (position : Nat) (findings : List Finding)
    (command : Except Fault Command) : Step :=
  match Command.runParsed labels scene command with
  | (scene, .ok .next) => ⟨scene, position + 1, none, findings⟩
  | (scene, .ok (.jump target)) => ⟨scene, target, none, findings⟩
  | (scene, .ok (.value n)) => ⟨scene, position + 1, some n, findings⟩
  | (scene, .error fault) => ⟨scene, position + 1, none, withFault findings fault⟩

def ofStatement (labels : Labels) (scene : Scene) (position : Nat) (statement : Statement) :
    Step :=
  match statement.command with
  | none => ⟨scene, position + 1, none, statement.staticFindings⟩
  | some (kind, command) =>
    ofCommand labels scene position
      (statement.findings ++ Inspection.kindReadiness scene.agent.spawned kind) command

end Step

def Statement.overflows (scene : Scene) (statement : Statement) : Bool :=
  match statement.command with
  | some (_, .ok command) => command.overflows scene
  | _ => false

structure Run where
  scene : Scene
  /-- The position, counted from zero, of the line to go on with. -/
  position : Nat
  steps : Nat
  lastValue : Option Int
  log : Log

namespace Run

def start (size : Nat) (log : Log) : Run where
  scene := ⟨.fresh size, .empty⟩
  position := 0
  steps := 0
  lastValue := none
  log := log

def dispatch (labels : Labels) (run : Run) (position : Nat) (statement : Statement) : Run :=
  let ⟨scene, _, steps, lastValue, log⟩ := run
  let step := Step.ofStatement labels scene position statement
  { scene := step.scene
    position := step.position
    steps := steps + 1
    lastValue := step.value.or lastValue
    log := log ++ step.findings.map (·.at (position + 1) statement.line) }

/-- Whether a run has nothing to report. -/
def success (run : Run) : Bool := run.log.isEmpty

end Run

namespace Program

/-- Runs at most as many statements as the budget says; the answer holds the statement that is
still waiting, if there is one. -/
def advance (program : Program) : (budget : Nat) → Run → Run × Option (Nat × Statement)
  | 0, run => (run, nextStatement program.statements run.position)
  | budget + 1, run =>
    match nextStatement program.statements run.position with
    | none => (run, none)
    | some (position, statement) =>
      advance program budget (run.dispatch program.labels position statement)

/-- Whether one of so many statements that are run next overflows. -/
def overflowsWithin (program : Program) : Nat → Run → Bool
  | 0, _ => false
  | n + 1, run =>
    match nextStatement program.statements run.position with
    | none => false
    | some (position, statement) =>
      statement.overflows run.scene ||
        overflowsWithin program n (run.dispatch program.labels position statement)

def start (program : Program) (size : Nat) : Run := .start size program.refused.toArray

/-- The run that is stopped when its budget is used up. -/
def runWithin (program : Program) (size budget : Nat) : Run :=
  match program.advance budget (program.start size) with
  | (run, none) => run
  | (run, some (position, statement)) =>
    { run with
      log := run.log.push ((Fault.stepLimit budget).finding.at (position + 1) statement.line) }

/-- The run that is never stopped, if it ends within the given number of statements. -/
def runToEnd? (program : Program) (size patience : Nat) : Option Run :=
  match program.advance patience (program.start size) with
  | (run, none) => some run
  | (_, some _) => none

def emptyRun (size : Nat) : Run := .start size #[emptyProgram]

/-- The run of a source that is stopped when its budget is used up. -/
def executeWithin (size budget : Nat) (source : Text) : Run :=
  if isBlankSource source then emptyRun size
  else (ofSource size source).runWithin size budget

def executeToEnd? (size patience : Nat) (source : Text) : Option Run :=
  if isBlankSource source then some (emptyRun size)
  else (ofSource size source).runToEnd? size patience

/-- The run of a source with given settings. Without a budget there is an answer only if the run
ends within `patience` statements. -/
def execute (config : Config) (patience : Nat) (source : Text) : Option Run :=
  match config.maxSteps with
  | some budget => some (executeWithin config.canvasSize budget source)
  | none => executeToEnd? config.canvasSize patience source

/-- Whether a machine stops in one of the first statements of a source. -/
def stops (machine : Machine) (size : Nat) (source : Text) (steps : Nat) : Bool :=
  machine == .trapping &&
    (ofSource size source).overflowsWithin steps ((ofSource size source).start size)

/-- The run of a source on a machine, which has no answer if the machine stops in it. -/
def executeOn (machine : Machine) (config : Config) (patience : Nat) (source : Text) :
    Option Run :=
  (execute config patience source).filter fun run =>
    !stops machine config.canvasSize source run.steps

end Program

end Brushwork

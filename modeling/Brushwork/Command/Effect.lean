import Brushwork.Agent.Drawing
import Brushwork.Command.Basic
import Brushwork.Expr.Meaning
import Brushwork.Labels

/-!
# What commands do

A command turns a scene into another one and either says how the program goes on
or is refused. All arguments are evaluated, from left to right, before anything
changes, so a refused command leaves the scene as it was. What a command does is
told for a machine whose words wrap round; on a trapping machine it is the same, but
for the commands that overflow, which do not come to an end there.
-/

namespace Brushwork

/-- How a program goes on after a command. -/
inductive Outcome where
  | next
  /-- With the line at a position, counted from zero. -/
  | jump (line : Nat)
  /-- With the next line, after yielding a value. -/
  | value (n : Int)
  deriving DecidableEq

namespace Scene

/-- The scene with the agent that a change has led to, or as it was if the change is refused. -/
def change (scene : Scene) (agent : Except Fault Agent) : Scene × Except Fault Outcome :=
  match agent with
  | .ok agent => ({ scene with agent }, .ok .next)
  | .error fault => (scene, .error fault)

def draw (scene : Scene) (figure : Except Fault Figure) : Scene × Except Fault Outcome :=
  match figure with
  | .ok figure => ({ scene with agent := scene.agent.draw figure }, .ok .next)
  | .error fault => (scene, .error fault)

def assign (scene : Scene) (vars : Except Fault Variables) : Scene × Except Fault Outcome :=
  match vars with
  | .ok vars => ({ scene with vars }, .ok .next)
  | .error fault => (scene, .error fault)

/-- Whether a figure in the given direction is drawn with an overflow. All its arguments are
evaluated before its direction is looked at. -/
def overflows (scene : Scene) (dx dy : Text) (lengths : List Text) : Bool :=
  match scene.evaluateNumber dx, scene.evaluateNumber dy, lengths.mapM scene.evaluateNumber with
  | .ok dx, .ok dy, .ok _ => Agent.directionOverflows dx dy
  | _, _, _ => false

end Scene

namespace Command

def jump (labels : Labels) (scene : Scene) (label condition : Text) : Except Fault Outcome :=
  match labels.resolve? label with
  | none => .error (.unknownLabel label)
  | some line => do
    if ← scene.evaluateTruth condition then return .jump line else return .next

def run (labels : Labels) (scene : Scene) : Command → Scene × Except Fault Outcome
  | .goTo label condition => (scene, jump labels scene label condition)
  | .assign name expression => scene.assign do
    let value ← scene.evaluate expression
    scene.vars.assign name value
  | .spawn x y => scene.change do
    let x ← scene.evaluateNumber x
    let y ← scene.evaluateNumber y
    scene.agent.spawn ⟨x, y⟩
  | .color name => scene.change (scene.agent.setColor name)
  | .size n => scene.change do
    let n ← scene.evaluateNumber n
    scene.agent.setBrush n
  | .drawLine dx dy distance => scene.draw do
    let dx ← scene.evaluateNumber dx
    let dy ← scene.evaluateNumber dy
    let distance ← scene.evaluateNumber distance
    scene.agent.line dx dy distance
  | .drawCircle dx dy radius => scene.draw do
    let dx ← scene.evaluateNumber dx
    let dy ← scene.evaluateNumber dy
    let radius ← scene.evaluateNumber radius
    scene.agent.circle dx dy radius
  | .drawRectangle dx dy distance width height => scene.draw do
    let dx ← scene.evaluateNumber dx
    let dy ← scene.evaluateNumber dy
    let distance ← scene.evaluateNumber distance
    let width ← scene.evaluateNumber width
    let height ← scene.evaluateNumber height
    scene.agent.rectangle dx dy distance width height
  | .fill => scene.change scene.agent.fill
  | .colorCount query => (scene, (scene.evaluateNumber query).map .value)

/-- Whether a command overflows in a scene: a trapping machine stops there, and one that wraps
runs it. -/
def overflows (scene : Scene) : Command → Bool
  | .drawLine dx dy distance => scene.overflows dx dy [distance]
  | .drawCircle dx dy radius => scene.overflows dx dy [radius]
  | .drawRectangle dx dy distance width height => scene.overflows dx dy [distance, width, height]
  | _ => false

def runParsed (labels : Labels) (scene : Scene) :
    Except Fault Command → Scene × Except Fault Outcome
  | .ok command => command.run labels scene
  | .error fault => (scene, .error fault)

def process (labels : Labels) (scene : Scene) (kind : Kind) (line : Text) :
    Scene × Except Fault Outcome :=
  runParsed labels scene (ofLine kind line)

end Command

end Brushwork

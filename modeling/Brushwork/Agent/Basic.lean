import Brushwork.Canvas.Region
import Brushwork.Canvas.Sweep
import Brushwork.Operator

/-!
# The agent

The agent stands at a place, has a brush of some color and size, and owns the
canvas it paints on. Its place may lie outside the canvas. Every operation that
can be refused answers with the agent it leaves behind or with the fault, so a
refused operation leaves nothing behind.
-/

namespace Brushwork

def Color.named (name : Text) : Except Fault Color :=
  match Color.ofName? name with
  | some color => .ok color
  | none => .error (.unknownColor name)

/-- The drawing cursor and its canvas. -/
structure Agent where
  position : Point
  color : Color
  /-- The side length of the square brush. -/
  brush : Int
  spawned : Bool
  canvas : Canvas

namespace Agent

def fresh (size : Nat) : Agent where
  position := ⟨0, 0⟩
  color := .black
  brush := 1
  spawned := false
  canvas := .blank size .white

def spawn (agent : Agent) (p : Point) : Except Fault Agent :=
  if agent.canvas.inBounds p then .ok { agent with position := p, spawned := true }
  else .error (.outOfBounds p.x p.y)

def setColor (agent : Agent) (name : Text) : Except Fault Agent := do
  let color ← Color.named name
  return { agent with color }

/-- Takes a brush of the given size, or of the odd size below an even one. -/
def setBrush (agent : Agent) (size : Int) : Except Fault Agent :=
  if size ≤ 0 then .error (.invalidBrushSize size)
  else .ok { agent with brush := if size % 2 = 0 then size - 1 else size }

/-- Paints along a path. A transparent brush paints nothing. -/
def paint (agent : Agent) (path : Path) : Agent :=
  if agent.color = .transparent then agent
  else { agent with canvas := agent.canvas.sweep path agent.color agent.brush }

def fill (agent : Agent) : Except Fault Agent := do
  if agent.color = .transparent then throw .transparentFill
  let canvas ← agent.canvas.fill agent.position agent.color
  return { agent with canvas }

end Agent

end Brushwork

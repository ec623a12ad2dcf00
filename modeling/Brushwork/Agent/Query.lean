import Brushwork.Agent.Basic

/-!
# Questions to the agent

Questions about the brush and the canvas. The answers to yes-or-no questions are
the numbers one and zero; a place outside the canvas has no color, and a
rectangle with a corner outside the canvas has no cells.
-/

namespace Brushwork

def truthNumber (b : Bool) : Int := if b then 1 else 0

namespace Agent

def canvasSize (agent : Agent) : Int := agent.canvas.size

def isBrushColor (agent : Agent) (name : Text) : Except Fault Int := do
  let color ← Color.named name
  return truthNumber (agent.color = color)

def isBrushSize (agent : Agent) (size : Int) : Int := truthNumber (agent.brush = size)

/-- Whether the place so many rows below and columns right of the agent has the color of the
given name. -/
def isCanvasColor (agent : Agent) (name : Text) (vertical horizontal : Int) :
    Except Fault Int := do
  let color ← Color.named name
  let place : Point := ⟨agent.position.x + horizontal, agent.position.y + vertical⟩
  return truthNumber (agent.canvas.pixel? place = some color)

def colorCount (agent : Agent) (name : Text) (a b : Point) : Except Fault Int := do
  let color ← Color.named name
  if agent.canvas.inBounds a && agent.canvas.inBounds b then
    return agent.canvas.countWithin color a b
  else
    return 0

end Agent

end Brushwork

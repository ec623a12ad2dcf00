import Brushwork.Agent.Basic
import Brushwork.Agent.Octant

/-!
# Drawing lines, circles and rectangles

Each figure lies in one of eight directions, or around the agent itself. A
figure is refused when its direction is no direction, then when a length is
negative, then when the place the agent would end on does not fit the word. A
figure that is not refused is a list of paths and the place to end on; drawing it
cannot fail.
-/

namespace Brushwork

/-- Paths to paint along, and the place where the agent ends. -/
structure Figure where
  paths : List Path
  stop : Point

namespace Agent

/-- Refuses directions other than -1, 0 and 1, but for the least word, whose magnitude is not
above one. -/
def checkDirection (dx dy : Int) : Except Fault Unit :=
  if magnitude dx ≤ 1 && magnitude dy ≤ 1 then .ok () else .error (.invalidDirection dx dy)

/-- Whether the check of a direction comes to the least word. The second component is not looked
at where the first one is refused. -/
def directionOverflows (dx dy : Int) : Bool :=
  dx == leastWord || (magnitude dx ≤ 1 && dy == leastWord)

def checkLength (length : Length) (value : Int) : Except Fault Unit :=
  if value < 0 then .error (.negativeLength length value) else .ok ()

/-- The coordinate reached from `start` by going `distance` in direction `d`. Both the way and
the coordinate reached have to fit the word. -/
def offset (start d distance : Int) : Except Fault Int := do
  let way ← inWord (d * distance)
  inWord (start + way)

def destination (agent : Agent) (dx dy distance : Int) : Except Fault Point := do
  let x ← offset agent.position.x dx distance
  let y ← offset agent.position.y dy distance
  return ⟨x, y⟩

def draw (agent : Agent) (figure : Figure) : Agent :=
  { figure.paths.foldl paint agent with position := figure.stop }

/-- The line over the places after the agent's own, up to the given distance. -/
def line (agent : Agent) (dx dy distance : Int) : Except Fault Figure := do
  checkDirection dx dy
  checkLength .distance distance
  let stop ← agent.destination dx dy distance
  return ⟨[.straight 1 distance agent.position dx dy], stop⟩

/-- The eight arcs of a circle: for each pair of signs the octant next to the vertical axis and
the one next to the horizontal axis. -/
def arcs (center : Point) (radius : Nat) : List Path :=
  let last : Int := Octant.lastColumn radius
  let height (t : Int) : Int := Octant.height radius t.toNat
  [((1 : Int), (1 : Int)), (-1, 1), (1, -1), (-1, -1)].flatMap fun (sx, sy) =>
    [{ first := 0, last, x := fun t => center.x + sx * t, y := fun t => center.y + sy * height t },
     { first := 0, last, x := fun t => center.x + sx * height t, y := fun t => center.y + sy * t }]

/-- The circle around the place at the radius's distance, which is where the agent ends. -/
def circle (agent : Agent) (dx dy radius : Int) : Except Fault Figure := do
  checkDirection dx dy
  checkLength .radius radius
  let center ← agent.destination dx dy radius
  return ⟨arcs center radius.toNat, center⟩

def sides (center : Point) (width height : Int) : List Path :=
  let left := center.x - width / 2
  let right := center.x + width / 2
  let top := center.y - height / 2
  let bottom := center.y + height / 2
  [{ first := left, last := right, x := fun x => x, y := fun _ => top },
   { first := left, last := right, x := fun x => x, y := fun _ => bottom },
   { first := top, last := bottom, x := fun _ => left, y := fun y => y },
   { first := top, last := bottom, x := fun _ => right, y := fun y => y }]

def rectangle (agent : Agent) (dx dy distance width height : Int) : Except Fault Figure := do
  checkDirection dx dy
  checkLength .distance distance
  checkLength .width width
  checkLength .height height
  let center ← agent.destination dx dy distance
  return ⟨sides center width height, center⟩

def drawLine (agent : Agent) (dx dy distance : Int) : Except Fault Agent := do
  return agent.draw (← agent.line dx dy distance)

def drawCircle (agent : Agent) (dx dy radius : Int) : Except Fault Agent := do
  return agent.draw (← agent.circle dx dy radius)

def drawRectangle (agent : Agent) (dx dy distance width height : Int) : Except Fault Agent := do
  return agent.draw (← agent.rectangle dx dy distance width height)

end Agent

end Brushwork

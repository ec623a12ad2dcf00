import Brushwork.Canvas.Region
import Brushwork.Canvas.Sweep

/-!
# Sweeping in numbers of 128 bits

A sweep is computed in numbers of 128 bits, which is more than places on the plane
need, and less than there are numbers. Here every number that comes up on the way is
tested: a computation is trapped at the first one that its words do not hold, and at a
position where no cell is. Every row of the canvas is searched in the whole path,
however long that is, and the places of the path are computed as they are asked for.
The half of a number, and the smaller and the greater one of two, are as short as the
numbers themselves, so there is no test for them. As long as nothing is trapped, words
that wrap round hold the same numbers.
-/

namespace Brushwork

/-- The least number of a signed word of 128 bits. -/
def leastWide : Int := -170141183460469231731687303715884105728

def greatestWide : Int := 170141183460469231731687303715884105727

/-- The greatest number of an unsigned word of 128 bits. -/
def greatestUnsigned : Int := 340282366920938463463374607431768211455

/-- What a computation in numbers of 128 bits can be trapped by. -/
inductive Trap where
  | signed (n : Int)
  | unsigned (n : Int)
  /-- The height of a circle at a column beyond its radius. -/
  | beyondRadius (radius column : Int)
  /-- A position that no cell of the canvas has. -/
  | noCell (position : Nat)
  deriving DecidableEq

abbrev Wide := Except Trap

namespace Wide

def signed (n : Int) : Wide Int :=
  if leastWide ≤ n ∧ n ≤ greatestWide then .ok n else .error (.signed n)

def unsigned (n : Int) : Wide Int :=
  if 0 ≤ n ∧ n ≤ greatestUnsigned then .ok n else .error (.unsigned n)

end Wide

open Wide

/-- `turningPoint`, with a predicate that is computed. -/
def turningPointWide (p : Int → Wide Bool) (lo hi : Int) : Wide Int :=
  if lo < hi then do
    let _ ← signed (hi - lo)
    let mid := lo + (hi - lo) / 2
    let _ ← signed mid
    if ← p mid then
      let _ ← signed (mid + 1)
      turningPointWide p (mid + 1) hi
    else turningPointWide p lo mid
  else return lo
termination_by (hi - lo).toNat
decreasing_by all_goals omega

/-- The turning point of a predicate on the values of a function between `first` and `last`. -/
def searchWide (f : Int → Wide Int) (first last : Int) (p : Int → Bool) : Wide Int := do
  let beyond ← signed (last + 1)
  turningPointWide (fun k => do return p (← f k)) first beyond

/-- `rangeWithin`, with a function that is computed. -/
def rangeWithinWide (f : Int → Wide Int) (first last low high : Int) :
    Wide (Option (Int × Int)) := do
  let a ← f first
  let b ← f last
  let start ← searchWide f first last fun v => if a ≤ b then v < low else high < v
  let beyond ← searchWide f first last fun v => if a ≤ b then v ≤ high else low ≤ v
  let stop ← signed (beyond - 1)
  return if start ≤ stop then some (start, stop) else none

/-- A path whose places are computed. -/
structure WidePath where
  first : Int
  last : Int
  place : Int → Wide Point

def WidePath.known (path : Path) : WidePath :=
  ⟨path.first, path.last, fun k => return path.point k⟩

namespace Canvas

def recolorWide (canvas : Canvas) (i : Nat) (color : Color) : Wide Canvas :=
  if i < canvas.size * canvas.size then .ok (canvas.recolor i color) else .error (.noCell i)

def paintRunWide (color : Color) (row : Int) (canvas : Canvas) (column : Int) :
    (count : Nat) → Wide Canvas
  | 0 => return canvas
  | count + 1 => do
    let canvas ← canvas.recolorWide (canvas.index ⟨column, row⟩) color
    paintRunWide color row canvas (column + 1) count

def paintRowWide (path : WidePath) (color : Color) (reach edge : Int) (canvas : Canvas)
    (row : Int) : Wide Canvas := do
  let low ← signed (row - reach)
  let high ← signed (row + reach)
  let range ← rangeWithinWide (fun k => return (← path.place k).y) path.first path.last low high
  match range with
  | none => return canvas
  | some (start, stop) =>
    let a ← path.place start
    let b ← path.place stop
    let left ← signed (min a.x b.x - reach)
    let right ← signed (max a.x b.x + reach)
    paintRunWide color row canvas (max left 0) (min right edge - max left 0 + 1).toNat

def paintRowsWide (path : WidePath) (color : Color) (reach edge : Int) (canvas : Canvas)
    (row : Int) : (count : Nat) → Wide Canvas
  | 0 => return canvas
  | count + 1 => do
    let canvas ← canvas.paintRowWide path color reach edge row
    paintRowsWide path color reach edge canvas (row + 1) count

/-- `sweep`, along a path that is computed. -/
def sweepWide (canvas : Canvas) (path : WidePath) (color : Color) (brush : Int) : Wide Canvas :=
  if path.last < path.first ∨ canvas.size = 0 then return canvas
  else do
    let reach ← signed (brushReach brush)
    let edge ← signed (canvas.size - 1)
    let a ← path.place path.first
    let b ← path.place path.last
    let top ← signed (min a.y b.y - reach)
    let bottom ← signed (max a.y b.y + reach)
    canvas.paintRowsWide path color reach edge (max top 0) (min bottom edge - max top 0 + 1).toNat

def stampAllWide (canvas : Canvas) (points : List Point) (color : Color) (brush : Int) :
    Wide Canvas :=
  points.foldlM (fun canvas p => canvas.sweepWide (.known (.dot p)) color brush) canvas

end Canvas

end Brushwork

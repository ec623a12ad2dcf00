import Brushwork.Canvas.Basic
import Brushwork.Canvas.Search

/-!
# Sweeping the brush along a path

A path gives a place for every number of an interval. Sweeping stamps a square
brush on each of these places. For a path whose coordinates are monotone and move
by at most one cell at a time, the stamped cells of a row form a single run, so
`Canvas.sweep` searches the two ends of that run and paints it: the work depends
on the size of the canvas, not on the length of the path or the brush. Places far
from the canvas are left out before, which shortens the searches. The numbers are
as long as need be; `Brushwork.Canvas.Wide` has the sweep in words of 128 bits.
-/

namespace Brushwork

/-- Places `(x k, y k)` for `k` from `first` to `last`; none if `last` comes before `first`. -/
structure Path where
  first : Int
  last : Int
  x : Int → Int
  y : Int → Int

namespace Path

def point (path : Path) (k : Int) : Point := ⟨path.x k, path.y k⟩

def dot (p : Point) : Path := ⟨0, 0, fun _ => p.x, fun _ => p.y⟩

def straight (first last : Int) (start : Point) (dx dy : Int) : Path :=
  ⟨first, last, fun k => start.x + k * dx, fun k => start.y + k * dy⟩

/-- The part of a path that can matter to a grid with the cells `0, …, edge` on each side: the
places from which a brush of the given reach touches it, and one place more on each side. -/
def near (path : Path) (reach edge : Int) : Path :=
  let (first, last) := rangeAround path.x path.first path.last (-reach) (edge + reach)
  let (first, last) := rangeAround path.y first last (-reach) (edge + reach)
  { path with first, last }

/-- The columns, cut to `0, …, edge`, that a brush of the given reach covers on a row. -/
def runOnRow (path : Path) (reach edge row : Int) : Option (Int × Int) :=
  match rangeWithin path.y path.first path.last (row - reach) (row + reach) with
  | none => none
  | some (start, stop) =>
    let a := path.x start
    let b := path.x stop
    some (max (min a b - reach) 0, min (max a b + reach) edge)

/-- The rows, cut to `0, …, edge`, between which a brush of the given reach moves. -/
def rowSpan (path : Path) (reach edge : Int) : Int × Int :=
  let a := path.y path.first
  let b := path.y path.last
  (max (min a b - reach) 0, min (max a b + reach) edge)

end Path

/-- How many cells a brush covers beyond its middle in each direction. Sizes below one count
as one, and of an even size one cell is lost. -/
def brushReach (brush : Int) : Int := (max brush 1 - 1) / 2

def paintRun (color : Color) (pixels : Array Color) (start : Nat) : (count : Nat) → Array Color
  | 0 => pixels
  | count + 1 => paintRun color (pixels.setIfInBounds start color) (start + 1) count

@[simp] theorem size_paintRun (color : Color) (pixels : Array Color) (start count : Nat) :
    (paintRun color pixels start count).size = pixels.size := by
  induction count generalizing pixels start with
  | zero => rfl
  | succ count ih => simp [paintRun, ih]

def paintRows (path : Path) (color : Color) (reach : Int) (size : Nat) (pixels : Array Color)
    (row : Int) : (count : Nat) → Array Color
  | 0 => pixels
  | count + 1 =>
    let pixels := match path.runOnRow reach (size - 1) row with
      | none => pixels
      | some (left, right) =>
        paintRun color pixels (row.toNat * size + left.toNat) (right - left + 1).toNat
    paintRows path color reach size pixels (row + 1) count

@[simp] theorem size_paintRows (path : Path) (color : Color) (reach : Int) (size : Nat)
    (pixels : Array Color) (row : Int) (count : Nat) :
    (paintRows path color reach size pixels row count).size = pixels.size := by
  induction count generalizing pixels row with
  | zero => rfl
  | succ count ih =>
    simp only [paintRows, ih]
    split <;> simp

namespace Canvas

/-- Stamps the brush on every place of a path, one run of cells per row. -/
def sweep (canvas : Canvas) (path : Path) (color : Color) (brush : Int) : Canvas :=
  if path.last < path.first then canvas
  else
    let reach := brushReach brush
    let near := path.near reach (canvas.size - 1)
    let (top, bottom) := near.rowSpan reach (canvas.size - 1)
    { canvas with
      pixels := paintRows near color reach canvas.size canvas.pixels top
        (bottom - top + 1).toNat
      size_pixels := by rw [size_paintRows]; exact canvas.size_pixels }

def stamp (canvas : Canvas) (p : Point) (color : Color) (brush : Int) : Canvas :=
  canvas.sweep (.dot p) color brush

@[simp] theorem size_sweep (canvas : Canvas) (path : Path) (color : Color) (brush : Int) :
    (canvas.sweep path color brush).size = canvas.size := by
  simp only [sweep]
  split <;> rfl

@[simp] theorem background_sweep (canvas : Canvas) (path : Path) (color : Color) (brush : Int) :
    (canvas.sweep path color brush).background = canvas.background := by
  simp only [sweep]
  split <;> rfl

end Canvas

end Brushwork

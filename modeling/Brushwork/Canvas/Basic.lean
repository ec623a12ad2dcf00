import Brushwork.Color
import Brushwork.Fault

/-!
# The canvas

A square grid of colors, stored row by row with the origin in the top left
corner. Coordinates are integers of any size; only those from zero to the side
length lie on the canvas.
-/

namespace Brushwork

/-- A place on the plane that the canvas is a part of. -/
structure Point where
  x : Int
  y : Int
  deriving DecidableEq

/-- Whether a place lies in the square of the given side length with its corner at the origin. -/
@[inline] def Point.inSquare (p : Point) (size : Nat) : Bool :=
  0 ≤ p.x && p.x < size && 0 ≤ p.y && p.y < size

structure Canvas where
  size : Nat
  /-- The color of a cleared cell. -/
  background : Color
  /-- The cells, row by row. -/
  pixels : Array Color
  size_pixels : pixels.size = size * size

namespace Canvas

def blank (size : Nat) (background : Color) : Canvas where
  size := size
  background := background
  pixels := Array.replicate (size * size) background
  size_pixels := Array.size_replicate

@[inline] def inBounds (canvas : Canvas) (p : Point) : Bool := p.inSquare canvas.size

/-- The position of a place of the canvas in the row-by-row order of its cells. -/
@[inline] def index (canvas : Canvas) (p : Point) : Nat := p.y.toNat * canvas.size + p.x.toNat

@[inline] def pixel? (canvas : Canvas) (p : Point) : Option Color :=
  if canvas.inBounds p then canvas.pixels[canvas.index p]? else none

/-- Whether a color was found, and it is the given one. -/
@[inline] def isColor (color : Color) : (found : Option Color) → Bool
  | some c => c = color
  | none => false

@[simp] theorem isColor_iff (color : Color) (found : Option Color) :
    isColor color found = true ↔ found = some color := by
  cases found <;> simp [isColor]

def pixel (canvas : Canvas) (p : Point) : Except Fault Color :=
  match canvas.pixel? p with
  | some color => .ok color
  | none => .error (.outOfBounds p.x p.y)

def clear (canvas : Canvas) : Canvas := blank canvas.size canvas.background

def row (canvas : Canvas) (y : Nat) : List Color :=
  (canvas.pixels.extract (y * canvas.size) (y * canvas.size + canvas.size)).toList

def rows (canvas : Canvas) : List (List Color) := (List.range canvas.size).map canvas.row

def total (canvas : Canvas) (color : Color) : Nat := canvas.pixels.count color

def values (canvas : Canvas) : List Nat := canvas.pixels.toList.map Color.rgb

theorem inBounds_iff (canvas : Canvas) (p : Point) :
    canvas.inBounds p = true ↔
      0 ≤ p.x ∧ p.x < canvas.size ∧ 0 ≤ p.y ∧ p.y < canvas.size := by
  simp [inBounds, Point.inSquare, and_assoc]

theorem index_lt (canvas : Canvas) {p : Point} (h : canvas.inBounds p = true) :
    canvas.index p < canvas.pixels.size := by
  obtain ⟨hx, hx', hy, hy'⟩ := (canvas.inBounds_iff p).1 h
  rw [canvas.size_pixels, index]
  have hrow : p.y.toNat + 1 ≤ canvas.size := by omega
  have hcol : p.x.toNat < canvas.size := by omega
  calc p.y.toNat * canvas.size + p.x.toNat
      < p.y.toNat * canvas.size + canvas.size := by omega
    _ = (p.y.toNat + 1) * canvas.size := by rw [Nat.succ_mul]
    _ ≤ canvas.size * canvas.size := Nat.mul_le_mul_right _ hrow

@[simp] theorem size_blank (size : Nat) (background : Color) :
    (blank size background).size = size := rfl

@[simp] theorem size_clear (canvas : Canvas) : canvas.clear.size = canvas.size := rfl

end Canvas

end Brushwork

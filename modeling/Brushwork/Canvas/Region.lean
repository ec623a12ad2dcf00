import Brushwork.Canvas.Basic

/-!
# Regions of one color

Filling recolors the cells that are joined to a seed by steps to one of the four
neighbors over cells of the seed's color. A cell is recolored when it is put on
the worklist, so that cells of the old color and entries of the worklist together
become fewer with every entry that is taken off: that is why the filling ends.
-/

namespace Brushwork

@[inline] def Point.neighbors (p : Point) : List Point :=
  [⟨p.x + 1, p.y⟩, ⟨p.x - 1, p.y⟩, ⟨p.x, p.y + 1⟩, ⟨p.x, p.y - 1⟩]

namespace Canvas

@[inline] def recolor (canvas : Canvas) (i : Nat) (color : Color) : Canvas :=
  { canvas with
    pixels := canvas.pixels.setIfInBounds i color
    size_pixels := by rw [Array.size_setIfInBounds]; exact canvas.size_pixels }

/-- Recolors a cell of the old color and puts it on the worklist; leaves any other place alone. -/
@[inline] def reach (old new : Color) (state : Canvas × List Point) (p : Point) :
    Canvas × List Point :=
  if isColor old (state.1.pixel? p) then (state.1.recolor (state.1.index p) new, p :: state.2)
  else state

/-- Cells of the old color together with the entries of the worklist. -/
def pending (old : Color) (state : Canvas × List Point) : Nat :=
  state.1.total old + state.2.length

/-- A cell that moves to the worklist is no longer of the old color. -/
theorem pending_reach {old new : Color} (h : new ≠ old) (state : Canvas × List Point)
    (p : Point) : pending old (reach old new state p) = pending old state := by
  simp only [reach]
  split
  · rename_i hp
    rw [isColor_iff, pixel?] at hp
    split at hp
    · rename_i hb
      have hlt := state.1.index_lt hb
      have hget : state.1.pixels[state.1.index p] = old := by
        rw [Array.getElem?_eq_getElem hlt] at hp
        exact Option.some.inj hp
      have hpos : 0 < state.1.pixels.count old :=
        Array.count_pos_iff.2 (hget ▸ Array.getElem_mem hlt)
      simp only [pending, total, recolor, List.length_cons, Array.setIfInBounds, dif_pos hlt,
        Array.count_set, hget]
      simp only [beq_self_eq_true, if_true, beq_iff_eq, h, if_false]
      omega
    · simp at hp
  · rfl

/-- Recolors everything joined to the places of the worklist over cells of the old color. -/
def spread (old new : Color) (h : new ≠ old) : Canvas → List Point → Canvas
  | canvas, [] => canvas
  | canvas, p :: work =>
    let state := p.neighbors.foldl (reach old new) (canvas, work)
    spread old new h state.1 state.2
termination_by canvas work => pending old (canvas, work)
decreasing_by
  have hfold : ∀ (ps : List Point) (s : Canvas × List Point),
      pending old (ps.foldl (reach old new) s) = pending old s := by
    intro ps
    induction ps with
    | nil => intro s; rfl
    | cons q ps ih => intro s; rw [List.foldl_cons, ih, pending_reach h]
  have := hfold p.neighbors (canvas, work)
  simp only [pending, List.length_cons] at this ⊢
  omega

/-- Recolors the region of a place, which has to lie on the canvas. -/
def fill (canvas : Canvas) (seed : Point) (new : Color) : Except Fault Canvas := do
  let old ← canvas.pixel seed
  if h : new ≠ old then
    return spread old new h (canvas.recolor (canvas.index seed) new) [seed]
  else
    return canvas

def countRun (pixels : Array Color) (color : Color) (start : Nat) : (count : Nat) → Nat
  | 0 => 0
  | count + 1 =>
    countRun pixels color (start + 1) count +
      (if isColor color pixels[start]? then 1 else 0)

def countRows (canvas : Canvas) (color : Color) (left width row : Nat) : (count : Nat) → Nat
  | 0 => 0
  | count + 1 =>
    countRows canvas color left width (row + 1) count +
      countRun canvas.pixels color (row * canvas.size + left) width

/-- The number of cells of a color in the rectangle between two corners, in either order; the
part of the rectangle outside the canvas counts for nothing. -/
def countWithin (canvas : Canvas) (color : Color) (a b : Point) : Nat :=
  let edge : Int := canvas.size - 1
  let left := max (min a.x b.x) 0
  let right := min (max a.x b.x) edge
  let top := max (min a.y b.y) 0
  let bottom := min (max a.y b.y) edge
  canvas.countRows color left.toNat (right - left + 1).toNat top.toNat (bottom - top + 1).toNat

end Canvas

end Brushwork

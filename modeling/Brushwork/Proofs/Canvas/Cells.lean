import Brushwork.Canvas.Region
import Brushwork.Canvas.Sweep

/-!
# Canvases cell by cell

A canvas is its size, its background and the colors of its places. Painting a run
or recoloring a cell is described by the colors it leaves at every place.
-/

namespace Brushwork.Canvas

theorem inBounds_of_pixel?_eq_some {canvas : Canvas} {p : Point} {color : Color}
    (h : canvas.pixel? p = some color) : canvas.inBounds p = true := by
  by_cases hp : canvas.inBounds p = true
  · exact hp
  · simp [pixel?, hp] at h

theorem pixel?_eq_getElem? {canvas : Canvas} {p : Point} (h : canvas.inBounds p = true) :
    canvas.pixel? p = canvas.pixels[canvas.index p]? := by
  rw [pixel?, if_pos h]

theorem pixel?_eq_none {canvas : Canvas} {p : Point} (h : ¬ canvas.inBounds p = true) :
    canvas.pixel? p = none := by
  rw [pixel?, if_neg h]

theorem exists_pixel?_eq_some {canvas : Canvas} {p : Point} (h : canvas.inBounds p = true) :
    ∃ color, canvas.pixel? p = some color := by
  have hlt := canvas.index_lt h
  exact ⟨canvas.pixels[canvas.index p], by
    rw [pixel?_eq_getElem? h, Array.getElem?_eq_getElem hlt]⟩

/-- Rows do not overlap: a position tells the row and the column. -/
theorem row_eq_of_position {size x x' y y' : Nat} (hx : x < size) (hx' : x' < size)
    (h : y * size + x = y' * size + x') : y = y' ∧ x = x' := by
  have hrow : y = y' := by
    have hdiv := congrArg (· / size) h
    simpa [Nat.add_comm _ x, Nat.add_comm _ x', Nat.add_mul_div_right _ _ (Nat.zero_lt_of_lt hx),
      Nat.div_eq_of_lt hx, Nat.div_eq_of_lt hx'] using hdiv
  subst hrow
  exact ⟨rfl, by omega⟩

theorem index_inj {canvas : Canvas} {p q : Point} (hp : canvas.inBounds p = true)
    (hq : canvas.inBounds q = true) (h : canvas.index p = canvas.index q) : p = q := by
  obtain ⟨hpx, hpx', hpy, hpy'⟩ := (canvas.inBounds_iff p).1 hp
  obtain ⟨hqx, hqx', hqy, hqy'⟩ := (canvas.inBounds_iff q).1 hq
  obtain ⟨hy, hx⟩ := row_eq_of_position (by omega) (by omega) h
  obtain ⟨px, py⟩ := p
  obtain ⟨qx, qy⟩ := q
  simp only [Point.mk.injEq] at *
  omega

theorem exists_index_eq (canvas : Canvas) {i : Nat} (h : i < canvas.pixels.size) :
    ∃ p, canvas.inBounds p = true ∧ canvas.index p = i := by
  rw [canvas.size_pixels] at h
  have hpos : 0 < canvas.size := Nat.pos_of_ne_zero fun hzero => by simp [hzero] at h
  have hrow : i / canvas.size < canvas.size := Nat.div_lt_of_lt_mul h
  have hcol : i % canvas.size < canvas.size := Nat.mod_lt _ hpos
  refine ⟨⟨(i % canvas.size : Nat), (i / canvas.size : Nat)⟩, ?_, ?_⟩
  · rw [inBounds_iff]
    exact ⟨Int.natCast_nonneg _, Int.ofNat_lt.2 hcol, Int.natCast_nonneg _, Int.ofNat_lt.2 hrow⟩
  · simp only [index, Int.toNat_natCast]
    rw [Nat.mul_comm, Nat.div_add_mod]

/-- Canvases with the same size, background and colors are the same. -/
theorem ext_pixel? {a b : Canvas} (hsize : a.size = b.size)
    (hbackground : a.background = b.background)
    (hpixel : ∀ p, a.inBounds p = true → a.pixel? p = b.pixel? p) : a = b := by
  have hbounds : ∀ p, a.inBounds p = b.inBounds p := fun p => by simp only [inBounds, hsize]
  have hindex : ∀ p, a.index p = b.index p := fun p => by simp only [index, hsize]
  have hpixels : a.pixels = b.pixels := by
    apply Array.ext
    · rw [a.size_pixels, b.size_pixels, hsize]
    · intro i hi hi'
      obtain ⟨p, hp, rfl⟩ := a.exists_index_eq hi
      have h := hpixel p hp
      rw [pixel?_eq_getElem? hp, pixel?_eq_getElem? (hbounds p ▸ hp), ← hindex,
        Array.getElem?_eq_getElem hi, Array.getElem?_eq_getElem hi'] at h
      exact Option.some.inj h
  cases a
  cases b
  simp only [Canvas.mk.injEq]
  exact ⟨hsize, hbackground, hpixels⟩

def repaint (canvas : Canvas) (pixels : Array Color) (h : pixels.size = canvas.pixels.size) :
    Canvas :=
  { canvas with pixels, size_pixels := h.trans canvas.size_pixels }

theorem length_rows (canvas : Canvas) : canvas.rows.length = canvas.size := by
  rw [rows, List.length_map, List.length_range]

/-- The rows one after another are the cells. -/
theorem flatten_rows (canvas : Canvas) : canvas.rows.flatten = canvas.pixels.toList := by
  have hrows : ∀ count, ((List.range count).map canvas.row).flatten =
      canvas.pixels.toList.take (count * canvas.size) := by
    intro count
    induction count with
    | zero => simp
    | succ count ih =>
      rw [List.range_succ, List.map_append, List.flatten_append, ih, Nat.succ_mul, List.take_add]
      simp [row, Array.toList_extract]
  have hlength : canvas.pixels.toList.length = canvas.size * canvas.size :=
    Array.length_toList.trans canvas.size_pixels
  rw [rows, hrows, List.take_of_length_le (Nat.le_of_eq hlength)]

@[simp] theorem size_recolor (canvas : Canvas) (i : Nat) (color : Color) :
    (canvas.recolor i color).size = canvas.size := rfl

@[simp] theorem background_recolor (canvas : Canvas) (i : Nat) (color : Color) :
    (canvas.recolor i color).background = canvas.background := rfl

/-- Recoloring the cell of one place changes the color there and nowhere else. -/
theorem pixel?_recolor {canvas : Canvas} {p : Point} (hp : canvas.inBounds p = true)
    (color : Color) (q : Point) :
    (canvas.recolor (canvas.index p) color).pixel? q =
      if q = p then some color else canvas.pixel? q := by
  have hbounds : (canvas.recolor (canvas.index p) color).inBounds q = canvas.inBounds q := rfl
  by_cases hq : canvas.inBounds q = true
  · rw [pixel?_eq_getElem? (hbounds ▸ hq), pixel?_eq_getElem? hq]
    change (canvas.pixels.setIfInBounds _ color)[canvas.index q]? = _
    rw [Array.getElem?_setIfInBounds]
    by_cases heq : q = p
    · rw [heq, if_pos rfl, if_pos rfl, if_pos (canvas.index_lt hp)]
    · rw [if_neg heq, if_neg fun h => heq (index_inj hq hp h.symm)]
  · have hne : q ≠ p := fun h => hq (h ▸ hp)
    rw [if_neg hne, pixel?_eq_none hq, pixel?_eq_none (hbounds ▸ hq)]

end Brushwork.Canvas

namespace Brushwork

theorem getElem?_paintRun (color : Color) (pixels : Array Color) (start count i : Nat) :
    (paintRun color pixels start count)[i]? =
      if start ≤ i ∧ i < start + count ∧ i < pixels.size then some color else pixels[i]? := by
  induction count generalizing pixels start with
  | zero => rw [paintRun, if_neg (by omega)]
  | succ count ih =>
    rw [paintRun, ih, Array.size_setIfInBounds, Array.getElem?_setIfInBounds]
    by_cases hi : i < pixels.size
    · by_cases heq : start = i
      · rw [if_neg (by omega), if_pos heq, if_pos (heq ▸ hi), if_pos (by omega)]
      · rw [if_neg heq]
        by_cases hrun : start ≤ i ∧ i < start + (count + 1) ∧ i < pixels.size
        · rw [if_pos hrun, if_pos (by omega)]
        · rw [if_neg hrun, if_neg (by omega)]
    · have hrun : ¬ (start ≤ i ∧ i < start + (count + 1) ∧ i < pixels.size) := by omega
      rw [if_neg (by omega), if_neg hrun, Array.getElem?_eq_none (by omega)]
      split
      · rw [if_neg (by omega)]
      · rfl

end Brushwork

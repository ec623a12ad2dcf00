import Brushwork.Proofs.Agent.Figure
import Brushwork.Proofs.Canvas.Region

/-!
# Painting with one color

Whatever is drawn or filled, each cell of the canvas keeps its color or takes the
color of the brush, and a transparent brush changes no cell.
-/

namespace Brushwork

theorem getElem?_paintRow_or (path : Path) (color : Color) (reach : Int) (size : Nat)
    (pixels : Array Color) (row : Int) (i : Nat) :
    (paintRow path color reach size pixels row)[i]? = pixels[i]? ∨
      (paintRow path color reach size pixels row)[i]? = some color := by
  rw [paintRow]
  split
  · exact .inl rfl
  · rw [getElem?_paintRun]
    split
    · exact .inr rfl
    · exact .inl rfl

theorem getElem?_paintRows_or (path : Path) (color : Color) (reach : Int) (size : Nat)
    (pixels : Array Color) (row : Int) (count i : Nat) :
    (paintRows path color reach size pixels row count)[i]? = pixels[i]? ∨
      (paintRows path color reach size pixels row count)[i]? = some color := by
  induction count generalizing pixels row with
  | zero => exact .inl rfl
  | succ count ih =>
    rw [paintRows_succ]
    rcases ih (paintRow path color reach size pixels row) (row + 1) with hkept | hpainted
    · rw [hkept]
      exact getElem?_paintRow_or path color reach size pixels row i
    · exact .inr hpainted

namespace Canvas

/-- Some cells have taken a color, which is not the transparent one, and all others are as they
were. -/
structure Painted (color : Color) (before after : Canvas) : Prop where
  size : after.size = before.size
  background : after.background = before.background
  pixel : ∀ p, after.pixel? p = before.pixel? p ∨
    color ≠ .transparent ∧ after.pixel? p = some color

namespace Painted

variable {color : Color} {a b c : Canvas}

theorem refl (color : Color) (canvas : Canvas) : Painted color canvas canvas where
  size := rfl
  background := rfl
  pixel _ := .inl rfl

theorem trans (hab : Painted color a b) (hbc : Painted color b c) : Painted color a c where
  size := hbc.size.trans hab.size
  background := hbc.background.trans hab.background
  pixel p := by
    rcases hbc.pixel p with hkept | hpainted
    · rw [hkept]
      exact hab.pixel p
    · exact .inr hpainted

/-- Painting does not make a cell transparent. -/
theorem transparent_notMem (h : Painted color a b) (ha : Color.transparent ∉ a.pixels) :
    Color.transparent ∉ b.pixels := by
  intro hb
  obtain ⟨i, hi, hcell⟩ := Array.mem_iff_getElem.1 hb
  obtain ⟨p, hp, rfl⟩ := b.exists_index_eq hi
  have hp' : a.inBounds p = true := by rwa [inBounds, ← h.size]
  have hb' : b.pixel? p = some .transparent := by
    rw [pixel?_eq_getElem? hp, Array.getElem?_eq_getElem hi, hcell]
  rcases h.pixel p with hkept | ⟨hcolor, hpainted⟩
  · rw [hb', pixel?_eq_getElem? hp'] at hkept
    exact ha (Array.mem_of_getElem? hkept.symm)
  · rw [hb', Option.some.injEq] at hpainted
    exact hcolor hpainted.symm

end Painted

theorem painted_sweep (canvas : Canvas) (path : Path) {color : Color}
    (hcolor : color ≠ .transparent) (brush : Int) :
    Painted color canvas (canvas.sweep path color brush) where
  size := size_sweep canvas path color brush
  background := background_sweep canvas path color brush
  pixel p := by
    by_cases hle : path.first ≤ path.last
    · by_cases hp : canvas.inBounds p = true
      · have hp' : (canvas.sweep path color brush).inBounds p = true := by
          rwa [inBounds, size_sweep]
        have hindex : (canvas.sweep path color brush).index p = canvas.index p := by
          rw [index, size_sweep, index]
        rw [pixel?_eq_getElem? hp', pixel?_eq_getElem? hp, hindex, sweep_of_le canvas hle]
        exact (getElem?_paintRows_or _ _ _ _ _ _ _ _).imp_right fun h => ⟨hcolor, h⟩
      · have hp' : ¬ (canvas.sweep path color brush).inBounds p = true := by
          rwa [inBounds, size_sweep]
        rw [pixel?_eq_none hp', pixel?_eq_none hp]
        exact .inl rfl
    · rw [sweep_of_lt canvas (not_le.1 hle)]
      exact .inl rfl

theorem painted_sweepAll (canvas : Canvas) (paths : List Path) {color : Color}
    (hcolor : color ≠ .transparent) (brush : Int) :
    Painted color canvas (canvas.sweepAll paths color brush) := by
  induction paths generalizing canvas with
  | nil => exact .refl color canvas
  | cons path paths ih =>
    rw [sweepAll_cons]
    exact (painted_sweep canvas path hcolor brush).trans (ih _)

theorem IsFilled.painted {before after : Canvas} {seed : Point} {new : Color}
    (h : IsFilled before seed new after) (hnew : new ≠ .transparent) :
    Painted new before after where
  size := h.size
  background := h.background
  pixel p := by
    by_cases hp : before.Joined seed p
    · exact .inr ⟨hnew, h.region p hp⟩
    · exact .inl (h.outside p hp)

end Canvas

theorem Agent.painted_paintedCanvas (agent : Agent) (paths : List Path) :
    agent.canvas.Painted agent.color (agent.paintedCanvas paths) := by
  by_cases hcolor : agent.color = .transparent
  · rw [paintedCanvas_of_transparent hcolor]
    exact .refl _ _
  · rw [paintedCanvas, if_neg hcolor]
    exact agent.canvas.painted_sweepAll paths hcolor agent.brush

end Brushwork

import Brushwork.Agent.Query
import Brushwork.Proofs.Agent.Line
import Brushwork.Proofs.Canvas.Count

/-!
# What the agent finds on its canvas

The agent's questions about colors are answered from the places of its canvas: a count is
the number of places of the color between two corners of the canvas, and a look at a place
tells whether it has the color. So a line of single cells over places that do not yet have
its color is found again by counting: as many places as the line is long.
-/

namespace Brushwork

/-- A fine brush covers on a straight way the places of the way. -/
theorem Path.covers_straight_zero_iff (first last : Int) (start : Point) (dx dy : Int) (p : Point) :
    (straight first last start dx dy).Covers 0 p ↔
      ∃ k, first ≤ k ∧ k ≤ last ∧ p = ⟨start.x + dx * k, start.y + dy * k⟩ := by
  obtain ⟨x, y⟩ := p
  simp only [Covers, straight, abs_nonpos_iff, sub_eq_zero, Point.mk.injEq, eq_comm, mul_comm]

/-- A place with a coordinate that does not fit the word lies on no canvas whose side does. -/
theorem Canvas.fitsWord_of_inBounds {canvas : Canvas} (hsize : canvas.size ≤ greatestWord)
    {p : Point} (h : canvas.inBounds p = true) :
    fitsWord p.x = true ∧ fitsWord p.y = true := by
  rw [inBounds_iff] at h
  simp only [fitsWord_iff, leastWord, greatestWord] at hsize ⊢
  omega

namespace Agent

section Questions

variable (agent : Agent) {name : Text} {color : Color}

theorem colorCount_eq (h : Color.named name = .ok color) (a b : Point) :
    agent.colorCount name a b =
      .ok (if agent.canvas.inBounds a = true ∧ agent.canvas.inBounds b = true then
        (agent.canvas.colored color a b).card else 0) := by
  rw [colorCount, h, ok_bind, Canvas.countWithin_eq_card]
  by_cases hcorners : agent.canvas.inBounds a = true ∧ agent.canvas.inBounds b = true
  · rw [if_pos hcorners, if_pos (by rwa [Bool.and_eq_true])]
    rfl
  · rw [if_neg hcorners, if_neg (by rwa [Bool.and_eq_true])]
    rfl

theorem isCanvasColor_eq (h : Color.named name = .ok color) (vertical horizontal : Int) :
    let place : Point := ⟨agent.position.x + horizontal, agent.position.y + vertical⟩
    agent.isCanvasColor name vertical horizontal =
      .ok (if agent.canvas.inBounds place = true ∧ agent.canvas.pixel? place = some color then 1
        else 0) := by
  intro place
  have hplace : (agent.canvas.inBounds place = true ∧ agent.canvas.pixel? place = some color) ↔
      agent.canvas.pixel? place = some color :=
    and_iff_right_of_imp Canvas.inBounds_of_pixel?_eq_some
  rw [isCanvasColor, h, ok_bind]
  simp only [hplace, truthNumber, decide_eq_true_eq]
  rfl

end Questions

end Agent

/-- The count of a color is the number of places of the canvas between the corners that have it.
So the order of the corners does not matter, the colors of the palette together count every place
between the corners once, the count over the whole canvas is the total, and a single place counts
for the color it has. The agent answers with this count if its corners lie on the canvas, and with
zero otherwise. It finds a color at the place that it is asked about exactly if that place lies on
the canvas and has the color; a place whose coordinates do not fit the word never does. -/
theorem Canvas.countWithin_counts_places (canvas : Canvas) (color : Color) (a b : Point) :
    canvas.countWithin color a b = (canvas.colored color a b).card ∧
    canvas.countWithin color b a = canvas.countWithin color a b ∧
    canvas.countWithin color ⟨b.x, a.y⟩ ⟨a.x, b.y⟩ = canvas.countWithin color a b ∧
    (Color.palette.map fun color => canvas.countWithin color a b).sum =
      (canvas.placesBetween a b).card ∧
    canvas.countWithin color ⟨0, 0⟩ ⟨canvas.size - 1, canvas.size - 1⟩ = canvas.total color ∧
    (∀ p, canvas.countWithin color p p = 1 ↔ canvas.pixel p = .ok color) ∧
    ∀ (agent : Agent) (name : Text), Color.named name = .ok color →
      agent.colorCount name a b =
        .ok (if agent.canvas.inBounds a = true ∧ agent.canvas.inBounds b = true then
          (agent.canvas.colored color a b).card else 0) ∧
      ∀ vertical horizontal,
        let place : Point := ⟨agent.position.x + horizontal, agent.position.y + vertical⟩
        agent.isCanvasColor name vertical horizontal =
          .ok (if agent.canvas.inBounds place = true ∧ agent.canvas.pixel? place = some color then 1
            else 0) ∧
        (agent.canvas.size ≤ greatestWord → (fitsWord place.x && fitsWord place.y) = false →
          agent.isCanvasColor name vertical horizontal = .ok 0) := by
  refine ⟨canvas.countWithin_eq_card color a b, canvas.countWithin_congr color fun p => ?_,
    canvas.countWithin_congr color fun p => ?_, canvas.sum_countWithin_palette a b,
    canvas.countWithin_whole color, fun p => ?_, fun agent name hname => ⟨?_, ?_⟩⟩
  · simp only [Point.Between]
    omega
  · simp only [Point.Between]
    omega
  · rw [countWithin_self, pixel_eq_ok_iff]
    simp
  · exact agent.colorCount_eq hname a b
  · intro vertical horizontal place
    have hanswer := agent.isCanvasColor_eq hname vertical horizontal
    refine ⟨hanswer, fun hsize hword => ?_⟩
    rw [hanswer, if_neg]
    rintro ⟨hplace, -⟩
    obtain ⟨hx, hy⟩ := fitsWord_of_inBounds hsize hplace
    rw [hx, hy] at hword
    cases hword

namespace Agent

section Lines

variable {agent : Agent} {dx dy distance : Int}

theorem drawLine_of_inBounds (hsize : agent.canvas.size ≤ greatestWord) (hdx : |dx| ≤ 1)
    (hdy : |dy| ≤ 1) (hturn : ¬ (dx = 0 ∧ dy = 0)) (hdistance : 1 ≤ distance)
    (hfirst : agent.canvas.inBounds (agent.ahead dx dy 1) = true)
    (hlast : agent.canvas.inBounds (agent.ahead dx dy distance) = true) :
    agent.drawLine dx dy distance = .ok (agent.afterLine dx dy distance) := by
  have hfits : fitsWord distance = true := by
    simp only [Canvas.inBounds_iff, ahead] at hfirst hlast
    rw [fitsWord_iff, leastWord]
    obtain rfl | rfl | rfl := Int.abs_le_one_iff.1 hdx <;>
      obtain rfl | rfl | rfl := Int.abs_le_one_iff.1 hdy <;> omega
  obtain ⟨hx, hy⟩ := Canvas.fitsWord_of_inBounds hsize hlast
  exact (drawLine_eq_ok_iff agent hdx hdy hfits).2 ⟨by omega, hx, hy, rfl⟩

theorem ahead_inj (hturn : ¬ (dx = 0 ∧ dy = 0)) {k k' : Int}
    (h : agent.ahead dx dy k = agent.ahead dx dy k') : k = k' := by
  simp only [ahead, Point.mk.injEq, add_right_inj, mul_eq_mul_left_iff] at h
  omega

/-- A line stays between its first and its last place. -/
theorem between_ahead (hdx : |dx| ≤ 1) (hdy : |dy| ≤ 1) {k : Int} (hk : 1 ≤ k)
    (hk' : k ≤ distance) :
    Point.Between (agent.ahead dx dy 1) (agent.ahead dx dy distance) (agent.ahead dx dy k) := by
  have hcoordinate : ∀ {start d : Int}, |d| ≤ 1 →
      min (start + d * 1) (start + d * distance) ≤ start + d * k ∧
        start + d * k ≤ max (start + d * 1) (start + d * distance) := by
    intro start d hd
    obtain rfl | rfl | rfl := Int.abs_le_one_iff.1 hd <;> omega
  exact ⟨(hcoordinate hdx).1, (hcoordinate hdx).2, (hcoordinate hdy).1, (hcoordinate hdy).2⟩

theorem inBounds_afterLine (p : Point) :
    (agent.afterLine dx dy distance).canvas.inBounds p = agent.canvas.inBounds p := by
  rw [afterLine_eq, Canvas.inBounds, size_paintedCanvas]
  rfl

/-- The places of a line of single cells have its color afterwards, and the others keep theirs. -/
theorem pixel?_afterLine (hcolor : agent.color ≠ .transparent) (hbrush : agent.brush = 1)
    (hdx : |dx| ≤ 1) {p : Point} (hp : agent.canvas.inBounds p = true) :
    ((∃ k, 1 ≤ k ∧ k ≤ distance ∧ p = agent.ahead dx dy k) →
        (agent.afterLine dx dy distance).canvas.pixel? p = some agent.color) ∧
      ((¬ ∃ k, 1 ≤ k ∧ k ≤ distance ∧ p = agent.ahead dx dy k) →
        (agent.afterLine dx dy distance).canvas.pixel? p = agent.canvas.pixel? p) := by
  have hsteady : ∀ path ∈ [Path.straight 1 distance agent.position dx dy], path.Steady := by
    simpa using Canvas.steady_straight 1 distance agent.position hdx dy
  have hpixel := pixel?_paintedCanvas hcolor hsteady hp
  have hreach : brushReach agent.brush = 0 := by rw [hbrush]; rfl
  simp only [hreach, List.mem_singleton, exists_eq_left, Path.covers_straight_zero_iff] at hpixel
  rw [afterLine_eq]
  exact hpixel

/-- Where no place between the ends of a line has its color before, the places that have it
afterwards are those of the line. -/
theorem colored_afterLine (hcolor : agent.color ≠ .transparent) (hbrush : agent.brush = 1)
    (hdx : |dx| ≤ 1) (hdy : |dy| ≤ 1)
    (hcanvas : ∀ k, 1 ≤ k → k ≤ distance → agent.canvas.inBounds (agent.ahead dx dy k) = true)
    (hfree : ∀ p, Point.Between (agent.ahead dx dy 1) (agent.ahead dx dy distance) p →
      agent.canvas.pixel? p ≠ some agent.color) :
    (agent.afterLine dx dy distance).canvas.colored agent.color (agent.ahead dx dy 1)
        (agent.ahead dx dy distance) =
      (Finset.range distance.toNat).image fun i : Nat => agent.ahead dx dy (i + 1) := by
  ext p
  simp only [Canvas.mem_colored, Finset.mem_image, Finset.mem_range]
  constructor
  · rintro ⟨hbetween, hpixel⟩
    have hp := Canvas.inBounds_of_pixel?_eq_some hpixel
    rw [inBounds_afterLine] at hp
    by_cases hline : ∃ k, 1 ≤ k ∧ k ≤ distance ∧ p = agent.ahead dx dy k
    · obtain ⟨k, hk, hk', rfl⟩ := hline
      refine ⟨(k - 1).toNat, by omega, ?_⟩
      rw [Int.toNat_of_nonneg (by omega), Int.sub_add_cancel]
    · rw [(pixel?_afterLine hcolor hbrush hdx hp).2 hline] at hpixel
      exact absurd hpixel (hfree p hbetween)
  · rintro ⟨i, hi, rfl⟩
    obtain ⟨hk, hk'⟩ : 1 ≤ (i + 1 : Int) ∧ (i + 1 : Int) ≤ distance := by omega
    exact ⟨between_ahead hdx hdy hk hk',
      (pixel?_afterLine hcolor hbrush hdx (hcanvas _ hk hk')).1 ⟨_, hk, hk', rfl⟩⟩

/-- A line of single cells on the canvas, over places that do not have its color, is drawn, and as
many places of its color are counted between its ends as it is long. -/
theorem colorCount_after_drawLine (agent : Agent) (dx dy distance : Int)
    (hsize : agent.canvas.size ≤ greatestWord)
    (hcolor : agent.color ≠ .transparent) (hbrush : agent.brush = 1)
    (hdx : |dx| ≤ 1) (hdy : |dy| ≤ 1) (hturn : ¬ (dx = 0 ∧ dy = 0)) (hdistance : 1 ≤ distance)
    (hcanvas : ∀ k, 1 ≤ k → k ≤ distance → agent.canvas.inBounds (agent.ahead dx dy k) = true)
    (hfree : ∀ p, Point.Between (agent.ahead dx dy 1) (agent.ahead dx dy distance) p →
      agent.canvas.pixel? p ≠ some agent.color) :
    ∃ after, agent.drawLine dx dy distance = .ok after ∧
      after.colorCount agent.color.name (agent.ahead dx dy 1) (agent.ahead dx dy distance) =
        .ok distance := by
  have hfirst := hcanvas 1 le_rfl hdistance
  have hlast := hcanvas distance hdistance le_rfl
  refine ⟨_, drawLine_of_inBounds hsize hdx hdy hturn hdistance hfirst hlast, ?_⟩
  have hname : Color.named agent.color.name = .ok agent.color := by
    rw [Color.named, Color.ofName?_name]
  have hinjective : Function.Injective fun k : Nat => agent.ahead dx dy (k + 1) := by
    intro k k' h
    have hk := ahead_inj hturn h
    omega
  rw [colorCount_eq _ hname, inBounds_afterLine, inBounds_afterLine, if_pos ⟨hfirst, hlast⟩,
    colored_afterLine hcolor hbrush hdx hdy hcanvas hfree,
    Finset.card_image_of_injective _ hinjective, Finset.card_range,
    Int.toNat_of_nonneg (by omega)]

/-- A line to the upper right: its ends are the lower left and the upper right corner. -/
theorem colorCount_after_drawLine_diagonal :
    let agent : Agent := { fresh 10 with position := ⟨2, 9⟩ }
    ∃ after, agent.drawLine 1 (-1) 7 = .ok after ∧
      after.colorCount "Black".toList ⟨3, 8⟩ ⟨9, 2⟩ = .ok 7 := by
  intro agent
  refine colorCount_after_drawLine agent 1 (-1) 7 (by decide) (by decide) rfl (by decide)
    (by decide) (by decide) (by decide) ?_ ?_
  · intro k hk hk'
    simp only [Canvas.inBounds_iff, agent, ahead, fresh, Canvas.size_blank]
    omega
  · intro p _ hblack
    rw [Canvas.pixel?_eq_getElem? (Canvas.inBounds_of_pixel?_eq_some hblack)] at hblack
    simp [agent, fresh, Canvas.blank, Array.getElem?_replicate] at hblack

end Lines

end Agent

end Brushwork

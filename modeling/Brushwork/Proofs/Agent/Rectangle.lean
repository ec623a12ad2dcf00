import Brushwork.Proofs.Agent.Figure

/-!
# A drawn rectangle is the border of its box

The box of a rectangle reaches half the width and half the height beyond its
center. Two of the paths that are drawn run along its top and bottom rows and two
along its outer columns, corners included, so together they cover what the places
of the border cover: a thick brush fills a small box, and a box without width or
height is a line or a point.
-/

namespace Brushwork

namespace Path

def level (first last row : Int) : Path := ⟨first, last, fun x => x, fun _ => row⟩

def upright (first last column : Int) : Path := ⟨first, last, fun _ => column, fun y => y⟩

theorem steady_level (first last row : Int) : (level first last row).Steady where
  x_monotone := monotoneWithin_id ..
  y_monotone := .inl fun _ _ _ _ _ => le_rfl
  x_step k _ _ := by
    rw [abs_le]
    simp only [level]
    omega

theorem steady_upright (first last column : Int) : (upright first last column).Steady where
  x_monotone := .inl fun _ _ _ _ _ => le_rfl
  y_monotone := monotoneWithin_id ..
  x_step k _ _ := by simp [upright]

end Path

/-- A place on the border of the box that reaches half the width and half the height beyond its
center. -/
structure OnBorder (center : Point) (width height : Int) (m : Point) : Prop where
  left_le : center.x - width / 2 ≤ m.x
  le_right : m.x ≤ center.x + width / 2
  top_le : center.y - height / 2 ≤ m.y
  le_bottom : m.y ≤ center.y + height / 2
  edge : m.x = center.x - width / 2 ∨ m.x = center.x + width / 2 ∨
    m.y = center.y - height / 2 ∨ m.y = center.y + height / 2

namespace Agent

theorem sides_eq (center : Point) (width height : Int) :
    sides center width height =
      [.level (center.x - width / 2) (center.x + width / 2) (center.y - height / 2),
        .level (center.x - width / 2) (center.x + width / 2) (center.y + height / 2),
        .upright (center.y - height / 2) (center.y + height / 2) (center.x - width / 2),
        .upright (center.y - height / 2) (center.y + height / 2) (center.x + width / 2)] := rfl

theorem steady_of_mem_sides (center : Point) (width height : Int) (path : Path)
    (h : path ∈ sides center width height) : path.Steady := by
  simp only [sides_eq, List.mem_cons, List.not_mem_nil, or_false] at h
  rcases h with rfl | rfl | rfl | rfl
  · exact Path.steady_level ..
  · exact Path.steady_level ..
  · exact Path.steady_upright ..
  · exact Path.steady_upright ..

/-- The sides cover exactly what the places of the border cover. -/
theorem exists_side_covers_iff (center : Point) {width height : Int} (hwidth : 0 ≤ width)
    (hheight : 0 ≤ height) (reach : Int) (p : Point) :
    (∃ path ∈ sides center width height, path.Covers reach p) ↔
      ∃ m, OnBorder center width height m ∧ |m.x - p.x| ≤ reach ∧ |m.y - p.y| ≤ reach := by
  simp only [sides_eq, List.mem_cons, List.not_mem_nil, or_false]
  constructor
  · intro h
    obtain ⟨path, rfl | rfl | rfl | rfl, k, hk, hk', hcover⟩ := h
    · exact ⟨⟨k, center.y - height / 2⟩,
        ⟨hk, hk', le_rfl, by dsimp only; omega, .inr (.inr (.inl rfl))⟩, hcover⟩
    · exact ⟨⟨k, center.y + height / 2⟩,
        ⟨hk, hk', by dsimp only; omega, le_rfl, .inr (.inr (.inr rfl))⟩, hcover⟩
    · exact ⟨⟨center.x - width / 2, k⟩,
        ⟨le_rfl, by dsimp only; omega, hk, hk', .inl rfl⟩, hcover⟩
    · exact ⟨⟨center.x + width / 2, k⟩,
        ⟨by dsimp only; omega, le_rfl, hk, hk', .inr (.inl rfl)⟩, hcover⟩
  · intro h
    obtain ⟨m, ⟨hleft, hright, htop, hbottom, hedge⟩, hcover⟩ := h
    rcases hedge with hedge | hedge | hedge | hedge
    · exact ⟨_, .inr (.inr (.inl rfl)), m.y, htop, hbottom, hedge ▸ hcover⟩
    · exact ⟨_, .inr (.inr (.inr rfl)), m.y, htop, hbottom, hedge ▸ hcover⟩
    · exact ⟨_, .inl rfl, m.x, hleft, hright, hedge ▸ hcover⟩
    · exact ⟨_, .inr (.inl rfl), m.x, hleft, hright, hedge ▸ hcover⟩

theorem drawRectangle_eq_ok {agent after : Agent} {dx dy distance width height : Int}
    (h : agent.drawRectangle dx dy distance width height = .ok after) :
    0 ≤ width ∧ 0 ≤ height ∧ after = agent.draw
      ⟨sides (agent.ahead dx dy distance) width height, agent.ahead dx dy distance⟩ := by
  obtain ⟨figure, hfigure, h⟩ := bind_eq_ok_iff.1 h
  obtain ⟨⟨-, hwidth, hheight⟩, center, hcenter, rfl⟩ := rectangle_eq_ok hfigure
  obtain rfl := destination_eq_ok hcenter
  exact ⟨hwidth, hheight, (Except.ok.inj h).symm⟩

/-- A rectangle that is drawn colors exactly the cells within the reach of the brush of some place
on the border of its box, unless the brush is transparent. The agent ends on the center, and
nothing else about it changes. -/
theorem drawRectangle_paints_border (agent after : Agent) (dx dy distance width height : Int)
    (h : agent.drawRectangle dx dy distance width height = .ok after) :
    let center : Point := ⟨agent.position.x + dx * distance, agent.position.y + dy * distance⟩
    (agent.color ≠ .transparent → ∀ p, agent.canvas.inBounds p = true →
      ((∃ m, OnBorder center width height m ∧
          |m.x - p.x| ≤ brushReach agent.brush ∧ |m.y - p.y| ≤ brushReach agent.brush) →
        after.canvas.pixel? p = some agent.color) ∧
      ((¬ ∃ m, OnBorder center width height m ∧
          |m.x - p.x| ≤ brushReach agent.brush ∧ |m.y - p.y| ≤ brushReach agent.brush) →
        after.canvas.pixel? p = agent.canvas.pixel? p)) ∧
    (agent.color = .transparent → after.canvas = agent.canvas) ∧
    after.canvas.size = agent.canvas.size ∧ after.canvas.background = agent.canvas.background ∧
    after.position = center ∧ after.color = agent.color ∧ after.brush = agent.brush ∧
    after.spawned = agent.spawned := by
  intro center
  obtain ⟨hwidth, hheight, rfl⟩ := drawRectangle_eq_ok h
  rw [draw_eq]
  refine ⟨fun hcolor p hp => ?_, fun hcolor => paintedCanvas_of_transparent hcolor _,
    size_paintedCanvas .., background_paintedCanvas .., rfl, rfl, rfl, rfl⟩
  have hpixel := pixel?_paintedCanvas hcolor (steady_of_mem_sides center width height) hp
  rw [exists_side_covers_iff center hwidth hheight] at hpixel
  exact hpixel

theorem drawRectangle_paints_border_thick :
    ∃ after, Agent.drawRectangle { fresh 10 with brush := 3 } 1 1 3 5 4 = .ok after ∧
      after.position = ⟨3, 3⟩ ∧ after.canvas.pixel? ⟨6, 6⟩ = some .black ∧
      after.canvas.pixel? ⟨3, 3⟩ = some .white := by
  have hdrawn : Agent.drawRectangle { fresh 10 with brush := 3 } 1 1 3 5 4 =
      .ok (Agent.draw { fresh 10 with brush := 3 } ⟨sides ⟨3, 3⟩ 5 4, ⟨3, 3⟩⟩) := rfl
  have hborder := drawRectangle_paints_border _ _ 1 1 3 5 4 hdrawn
  have hreach : brushReach 3 = 1 := rfl
  refine ⟨_, hdrawn, hborder.2.2.2.2.1, ?_, ?_⟩
  · apply (hborder.1 (by decide) ⟨6, 6⟩ (by decide)).1
    exact ⟨⟨5, 5⟩, ⟨by decide, by decide, by decide, by decide, by decide⟩, by decide, by decide⟩
  · apply (hborder.1 (by decide) ⟨3, 3⟩ (by decide)).2
    intro h
    obtain ⟨m, ⟨hleft, hright, htop, hbottom, hedge⟩, hx, hy⟩ := h
    rw [hreach, abs_le] at hx hy
    dsimp only [fresh] at *
    omega

end Agent

end Brushwork

import Brushwork.Proofs.Agent.Circle
import Brushwork.Proofs.Canvas.Region

/-!
# A drawn circle is a closed outline

A place is measured by its two distances from the center of a circle, one along each
axis. It lies strictly inside when the greater distance is less than the height at
the smaller one. A step to a neighbor changes one of the distances by one; since the
heights come down by at most one at a time, and the octants meet on the diagonal, a
step that leaves the inside ends on the circle itself. So whatever is joined to the
center over cells of another color than that of the circle lies strictly inside, for
every brush and however the canvas cuts the circle off.
-/

namespace Brushwork

namespace Octant

variable {r x x' y : Nat}

/-- At two distances from the center, strictly inside the circle. -/
def Inside (r x y : Nat) : Prop := min x y ≤ r ∧ max x y < height r (min x y)

/-- At two distances from the center, on the circle. -/
def OnCircle (r x y : Nat) : Prop :=
  ∃ t ≤ lastColumn r, x = t ∧ y = height r t ∨ x = height r t ∧ y = t

theorem inside_iff : Inside r x y ↔ x * x + y * y + max x y < r * r := by
  have hsquares : max x y * max x y + min x y * min x y = x * x + y * y := by
    rcases Nat.le_total x y with h | h
    · rw [max_eq_right h, min_eq_left h, Nat.add_comm]
    · rw [max_eq_left h, min_eq_right h]
  constructor
  · rintro ⟨hle, hlt⟩
    have hbelow := (lt_height_iff hle _).1 hlt
    omega
  · intro h
    have hle : min x y ≤ r := by
      apply Nat.mul_self_le_mul_self_iff.1
      omega
    refine ⟨hle, (lt_height_iff hle _).2 ?_⟩
    omega

theorem Inside.squares_lt (h : Inside r x y) : x * x + y * y < r * r := by
  have hlt := inside_iff.1 h
  omega

theorem Inside.swap (h : Inside r x y) : Inside r y x := by
  rw [Inside, min_comm, max_comm]
  exact h

theorem OnCircle.swap (h : OnCircle r x y) : OnCircle r y x := by
  obtain ⟨t, ht, h | h⟩ := h
  · exact ⟨t, ht, .inr h.symm⟩
  · exact ⟨t, ht, .inl h.symm⟩

theorem inside_of_le (h : Inside r x y) (hx : x' ≤ x) : Inside r x' y := by
  rw [inside_iff] at h ⊢
  have hsquare : x' * x' ≤ x * x := Nat.mul_self_le_mul_self hx
  omega

/-- One more along the greater distance leads to the height at the smaller one at most. -/
theorem inside_or_onCircle_of_le (h : Inside r x y) (hyx : y ≤ x) :
    Inside r (x + 1) y ∨ OnCircle r (x + 1) y := by
  rw [Inside, min_eq_right hyx, max_eq_left hyx] at h
  obtain ⟨hle, hlt⟩ := h
  rcases Nat.lt_or_eq_of_le (Nat.succ_le_of_lt hlt) with hbelow | hreached
  · left
    rw [Inside, min_eq_right (by omega), max_eq_left (by omega)]
    exact ⟨hle, hbelow⟩
  · right
    exact ⟨y, (le_lastColumn_iff hle).2 (by omega), .inr ⟨hreached, rfl⟩⟩

/-- One more along the smaller distance leads to the height of the next column at most. -/
theorem inside_or_onCircle_of_lt (h : Inside r x y) (hxy : x < y) :
    Inside r (x + 1) y ∨ OnCircle r (x + 1) y := by
  rw [Inside, min_eq_left hxy.le, max_eq_right hxy.le] at h
  obtain ⟨hle, hlt⟩ := h
  have htop : height r x ≤ r := height_le hle
  have hdrop : height r x ≤ height r (x + 1) + 1 := height_le_succ_of_lt (by omega) (by omega)
  rcases Nat.lt_or_ge y (height r (x + 1)) with hbelow | hreached
  · left
    rw [Inside, min_eq_left hxy, max_eq_right hxy]
    exact ⟨by omega, hbelow⟩
  · right
    have hheight : y = height r (x + 1) := by omega
    exact ⟨x + 1, (le_lastColumn_iff (by omega)).2 (by omega), .inl ⟨rfl, hheight⟩⟩

/-- A change of one distance by one does not leave the inside but onto the circle. -/
theorem inside_or_onCircle (h : Inside r x y) (hstep : x' = x + 1 ∨ x = x' + 1) :
    Inside r x' y ∨ OnCircle r x' y := by
  rcases hstep with rfl | rfl
  · rcases Nat.lt_or_ge x y with hxy | hyx
    · exact inside_or_onCircle_of_lt h hxy
    · exact inside_or_onCircle_of_le h hyx
  · exact .inl (inside_of_le h (Nat.le_succ x'))

/-- The center lies inside a circle, unless it is the whole circle. -/
theorem inside_or_onCircle_center (r : Nat) : Inside r 0 0 ∨ OnCircle r 0 0 := by
  rcases Nat.eq_zero_or_pos r with rfl | hr
  · exact .inr ⟨0, Nat.zero_le _, .inl ⟨rfl, (height_zero 0).symm⟩⟩
  · exact .inl (inside_iff.2 (Nat.mul_pos hr hr))

end Octant

open Octant

namespace Point

def columnsTo (center p : Point) : Nat := (p.x - center.x).natAbs

def rowsTo (center p : Point) : Nat := (p.y - center.y).natAbs

theorem sq_add_sq (center p : Point) :
    (p.x - center.x) ^ 2 + (p.y - center.y) ^ 2 =
      ((center.columnsTo p * center.columnsTo p +
        center.rowsTo p * center.rowsTo p : Nat) : Int) := by
  rw [Nat.cast_add, Nat.cast_mul, Nat.cast_mul, ← sq, ← sq, columnsTo, rowsTo, Int.natAbs_sq,
    Int.natAbs_sq]

/-- A neighbor is one nearer or one farther, either in columns or in rows. -/
theorem distances_of_mem_neighbors {p q : Point} (center : Point) (h : q ∈ p.neighbors) :
    (center.columnsTo q = center.columnsTo p + 1 ∨ center.columnsTo p = center.columnsTo q + 1) ∧
        center.rowsTo q = center.rowsTo p ∨
      (center.rowsTo q = center.rowsTo p + 1 ∨ center.rowsTo p = center.rowsTo q + 1) ∧
        center.columnsTo q = center.columnsTo p := by
  obtain ⟨px, py⟩ := p
  obtain ⟨qx, qy⟩ := q
  simp only [neighbors, List.mem_cons, Point.mk.injEq, List.not_mem_nil, or_false] at h
  simp only [columnsTo, rowsTo]
  rcases h with ⟨rfl, rfl⟩ | ⟨rfl, rfl⟩ | ⟨rfl, rfl⟩ | ⟨rfl, rfl⟩
  · exact .inl ⟨by omega, rfl⟩
  · exact .inl ⟨by omega, rfl⟩
  · exact .inr ⟨by omega, rfl⟩
  · exact .inr ⟨by omega, rfl⟩

theorem natAbs_sub_eq_iff {a c : Int} {n : Nat} :
    (a - c).natAbs = n ↔ a = c + 1 * n ∨ a = c + -1 * n := by
  omega

theorem mem_mirrored_iff (center p : Point) (x y : Nat) :
    p ∈ center.mirrored x y ↔ center.columnsTo p = x ∧ center.rowsTo p = y ∨
      center.columnsTo p = y ∧ center.rowsTo p = x := by
  obtain ⟨px, py⟩ := p
  simp only [mirrored, signs, columnsTo, rowsTo, List.flatMap_cons, List.flatMap_nil,
    List.mem_append, List.mem_cons, List.not_mem_nil, or_false, Point.mk.injEq, natAbs_sub_eq_iff]
  grind

theorem mem_midpointCircle_iff_onCircle (center p : Point) (r : Nat) :
    p ∈ midpointCircle center r ↔ OnCircle r (center.columnsTo p) (center.rowsTo p) := by
  rw [mem_midpointCircle_iff]
  refine exists_congr fun t => and_congr_right fun _ => ?_
  exact mem_mirrored_iff center p t (height r t)

theorem inside_or_mem_midpointCircle_self (center : Point) (r : Nat) :
    Inside r (center.columnsTo center) (center.rowsTo center) ∨
      center ∈ midpointCircle center r := by
  have hcolumns : center.columnsTo center = 0 := by simp [columnsTo]
  have hrows : center.rowsTo center = 0 := by simp [rowsTo]
  rw [mem_midpointCircle_iff_onCircle, hcolumns, hrows]
  exact inside_or_onCircle_center r

/-- A step that leaves the inside of a circle ends on the circle. -/
theorem inside_or_mem_midpointCircle {center p q : Point} {r : Nat}
    (h : Inside r (center.columnsTo p) (center.rowsTo p)) (hstep : q ∈ p.neighbors) :
    Inside r (center.columnsTo q) (center.rowsTo q) ∨ q ∈ midpointCircle center r := by
  rw [mem_midpointCircle_iff_onCircle]
  rcases distances_of_mem_neighbors center hstep with ⟨hcolumns, hrows⟩ | ⟨hrows, hcolumns⟩
  · rw [hrows]
    exact inside_or_onCircle h hcolumns
  · rw [hcolumns]
    rcases inside_or_onCircle h.swap hrows with hinside | hcircle
    · exact .inl hinside.swap
    · exact .inr hcircle.swap

end Point

/-- A region lies within every set of places that its color cannot leave. -/
theorem Canvas.Joined.within {canvas : Canvas} {seed p : Point} {P : Point → Prop}
    (h : canvas.Joined seed p) (hseed : P seed)
    (hstep : ∀ p q, P p → q ∈ p.neighbors → canvas.pixel? q = canvas.pixel? seed → P q) : P p := by
  induction h with
  | refl => exact hseed
  | @tail p q hp hadjoins ih =>
    have hq : canvas.pixel? q = canvas.pixel? seed := Joined.pixel?_eq (hp.tail hadjoins)
    exact hstep p q ih hadjoins.1 hq

namespace Agent

variable {agent after : Agent} {dx dy radius : Int}

/-- A circle colors every place of the midpoint circle that lies on the canvas. -/
theorem pixel?_of_mem_midpointCircle (h : agent.drawCircle dx dy radius = .ok after)
    (hcolor : agent.color ≠ .transparent) {p : Point} (hp : after.canvas.inBounds p = true)
    (hmem : p ∈ midpointCircle
      ⟨agent.position.x + dx * radius, agent.position.y + dy * radius⟩ radius.toNat) :
    after.canvas.pixel? p = some agent.color := by
  obtain ⟨-, rfl⟩ := drawCircle_eq_ok h
  rw [draw_eq] at hp ⊢
  rw [Canvas.inBounds, size_paintedCanvas] at hp
  apply (pixel?_paintedCanvas hcolor (steady_of_mem_arcs _ radius.toNat) hp).1
  rw [exists_arc_covers_iff]
  have hreach : |(0 : Int)| ≤ brushReach agent.brush := by
    rw [abs_zero]
    exact Canvas.brushReach_nonneg agent.brush
  exact ⟨p, hmem, by rwa [sub_self], by rwa [sub_self]⟩

/-- The region of the center of a circle lies inside the circle, unless the center has its color. -/
theorem inside_of_joined (h : agent.drawCircle dx dy radius = .ok after)
    (hcolor : agent.color ≠ .transparent) {center p : Point}
    (hcenter : center = ⟨agent.position.x + dx * radius, agent.position.y + dy * radius⟩)
    (hbounds : after.canvas.inBounds center = true)
    (hother : after.canvas.pixel? center ≠ some agent.color)
    (hp : after.canvas.Joined center p) :
    Inside radius.toNat (center.columnsTo p) (center.rowsTo p) := by
  have hcircle : ∀ q, after.canvas.pixel? q = after.canvas.pixel? center →
      q ∉ midpointCircle center radius.toNat := by
    intro q hq hmem
    obtain ⟨color, hpixel⟩ := Canvas.exists_pixel?_eq_some hbounds
    have hqbounds := Canvas.inBounds_of_pixel?_eq_some (hq.trans hpixel)
    subst hcenter
    apply hother
    rw [← hq]
    exact pixel?_of_mem_midpointCircle h hcolor hqbounds hmem
  apply hp.within
  · exact (center.inside_or_mem_midpointCircle_self radius.toNat).resolve_right (hcircle center rfl)
  · intro p q hp hstep hq
    exact (Point.inside_or_mem_midpointCircle hp hstep).resolve_right (hcircle q hq)

/-- A fill from the center of a circle that has been drawn stays strictly inside it, unless the
center has the color of the circle: at every place that changes, the greater of the distances from
the center is less than the height of the circle at the smaller one. So no place changes that is
farther from the center than the radius. -/
theorem circle_contains_fill (h : agent.drawCircle dx dy radius = .ok after)
    (hcolor : agent.color ≠ .transparent) :
    let center : Point := ⟨agent.position.x + dx * radius, agent.position.y + dy * radius⟩
    after.canvas.inBounds center = true → after.canvas.pixel? center ≠ some agent.color →
      ∀ color, ∃ filled, after.canvas.fill center color = .ok filled ∧
        ∀ p, filled.pixel? p ≠ after.canvas.pixel? p →
          let a := min (p.x - center.x).natAbs (p.y - center.y).natAbs
          let b := max (p.x - center.x).natAbs (p.y - center.y).natAbs
          (a ≤ radius.toNat ∧ b < height radius.toNat a) ∧
            (p.x - center.x) ^ 2 + (p.y - center.y) ^ 2 < radius ^ 2 := by
  intro center hbounds hother color
  obtain ⟨filled, hfilled, hregion⟩ := Canvas.exists_fill_eq_ok hbounds color
  refine ⟨filled, hfilled, fun p hp => ?_⟩
  have hjoined : after.canvas.Joined center p := by
    by_contra hnot
    exact hp (hregion.outside p hnot)
  have hinside : Inside radius.toNat (center.columnsTo p) (center.rowsTo p) :=
    inside_of_joined h hcolor rfl hbounds hother hjoined
  obtain ⟨hradius, -⟩ := drawCircle_eq_ok h
  refine ⟨hinside, ?_⟩
  calc (p.x - center.x) ^ 2 + (p.y - center.y) ^ 2
      = ((center.columnsTo p * center.columnsTo p +
          center.rowsTo p * center.rowsTo p : Nat) : Int) := center.sq_add_sq p
    _ < ((radius.toNat * radius.toNat : Nat) : Int) := Int.ofNat_lt.2 hinside.squares_lt
    _ = radius ^ 2 := by rw [Nat.cast_mul, Int.toNat_of_nonneg hradius, sq]

theorem circle_contains_fill_two :
    ∃ after filled, (fresh 10).drawCircle 1 1 2 = .ok after ∧
      after.canvas.fill ⟨2, 2⟩ .red = .ok filled ∧ filled.pixel? ⟨2, 2⟩ = some .red ∧
      filled.pixel? ⟨0, 0⟩ = after.canvas.pixel? ⟨0, 0⟩ := by
  have hdrawn : (fresh 10).drawCircle 1 1 2 = .ok ((fresh 10).draw ⟨arcs ⟨2, 2⟩ 2, ⟨2, 2⟩⟩) := rfl
  have hfree : ¬ ∃ m ∈ midpointCircle ⟨2, 2⟩ 2,
      |m.x - 2| ≤ brushReach 1 ∧ |m.y - 2| ≤ brushReach 1 := by
    simp [midpointCircle, midpointFrom, Point.mirrored, signs, brushReach]
  have hcenter : ((fresh 10).draw ⟨arcs ⟨2, 2⟩ 2, ⟨2, 2⟩⟩).canvas.pixel? ⟨2, 2⟩ = some .white := by
    have hblank : (fresh 10).canvas.pixel? ⟨2, 2⟩ = some .white := by decide +kernel
    rw [draw_eq, ← hblank]
    apply (pixel?_paintedCanvas (by decide) (steady_of_mem_arcs ⟨2, 2⟩ 2) (by decide)).2
    rw [exists_arc_covers_iff]
    exact hfree
  have hother : ((fresh 10).draw ⟨arcs ⟨2, 2⟩ 2, ⟨2, 2⟩⟩).canvas.pixel? ⟨2, 2⟩ ≠ some .black := by
    rw [hcenter]
    decide
  obtain ⟨filled, hfilled, hinside⟩ := circle_contains_fill hdrawn (by decide)
    (Canvas.inBounds_of_pixel?_eq_some hcenter) hother .red
  refine ⟨_, filled, hdrawn, hfilled, ?_, ?_⟩
  · exact (Canvas.isFilled_of_fill hfilled).region ⟨2, 2⟩ .refl
  · by_contra hchanged
    have hnear := (hinside ⟨0, 0⟩ hchanged).2
    revert hnear
    decide

end Agent

end Brushwork

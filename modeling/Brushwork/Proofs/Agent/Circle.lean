import Brushwork.Proofs.Agent.Figure
import Brushwork.Proofs.Agent.Octant

/-!
# A drawn circle is the midpoint circle

The midpoint circle is made by a loop that keeps, at each column `x` of the octant
next to the vertical axis, a row `y` and the number `(x + 1)² + y² - y - r²`. The
sign of that number tells whether the middle between the rows `y - 1` and `y` of
the next column lies inside the circle, so the loop visits the heights of the
octant, and it stops after its last column. The arcs that are drawn cover
therefore exactly what the mirrored places of the loop cover.
-/

namespace Brushwork

/-- The pairs that the midpoint loop visits from a column, a row and a decision number on. -/
def midpointFrom (x y d : Int) : List (Int × Int) :=
  if x ≤ y then
    (x, y) ::
      if d < 0 then midpointFrom (x + 1) y (d + (2 * x + 3))
      else midpointFrom (x + 1) (y - 1) (d + (2 * (x - y) + 5))
  else []
termination_by (y + 1 - x).toNat
decreasing_by all_goals omega

def signs : List (Int × Int) := [(1, 1), (-1, 1), (1, -1), (-1, -1)]

/-- The eight places at two distances from a center, one along each axis. -/
def Point.mirrored (center : Point) (x y : Int) : List Point :=
  signs.flatMap fun (sx, sy) =>
    [⟨center.x + sx * x, center.y + sy * y⟩, ⟨center.x + sx * y, center.y + sy * x⟩]

/-- The places of the midpoint circle of a radius around a center. -/
def midpointCircle (center : Point) (r : Int) : List Point :=
  (midpointFrom 0 r (1 - r)).flatMap fun pair => center.mirrored pair.1 pair.2

namespace Octant

def decision (r x y : Int) : Int := (x + 1) * (x + 1) + y * y - y - r * r

theorem decision_start (r : Int) : decision r 0 r = 1 - r := by
  rw [decision]
  ring

theorem decision_same_row (r x y : Int) :
    decision r x y + (2 * x + 3) = decision r (x + 1) y := by
  simp only [decision]
  ring

theorem decision_next_row (r x y : Int) :
    decision r x y + (2 * (x - y) + 5) = decision r (x + 1) (y - 1) := by
  simp only [decision]
  ring

/-- The decision number is negative exactly when the next column reaches the row. -/
theorem decision_neg_iff {r t y : Nat} (ht : t < r) (hy : 0 < y) :
    decision r t y < 0 ↔ y ≤ height r (t + 1) := by
  obtain ⟨y, rfl⟩ : ∃ y', y = y' + 1 := ⟨y - 1, by omega⟩
  rw [Nat.succ_le_iff, lt_height_iff (by omega : t + 1 ≤ r), decision]
  zify
  constructor <;> intro h <;> linarith

/-- After a column before the last one the loop goes on at the height of the next column. -/
theorem midpointFrom_of_lt {r t : Nat} (ht : t < lastColumn r) :
    midpointFrom t (height r t) (decision r t (height r t)) =
      ((t : Int), (height r t : Int)) ::
        midpointFrom (t + 1 : Nat) (height r (t + 1))
          (decision r (t + 1 : Nat) (height r (t + 1))) := by
  have htr : t < r := ht.trans_le (lastColumn_le r)
  have hnext : t + 1 ≤ height r (t + 1) := (le_lastColumn_iff htr).1 ht
  have hanti : height r (t + 1) ≤ height r t := height_anti (Nat.le_succ t) htr
  have hdrop := height_le_succ ht
  have hsign := decision_neg_iff htr (by omega : 0 < height r t)
  rw [midpointFrom, if_pos (by omega), decision_same_row, decision_next_row]
  split
  · rename_i hneg
    have heq : height r (t + 1) = height r t := le_antisymm hanti (hsign.1 hneg)
    rw [heq, Nat.cast_succ]
  · rename_i hneg
    have heq : height r t = height r (t + 1) + 1 := by
      have := mt hsign.2 hneg
      omega
    rw [heq, Nat.cast_succ, Nat.cast_succ, add_sub_cancel_right]

theorem midpointFrom_last (r : Nat) :
    midpointFrom (lastColumn r) (height r (lastColumn r))
        (decision r (lastColumn r) (height r (lastColumn r))) =
      [((lastColumn r : Int), (height r (lastColumn r) : Int))] := by
  have hle := lastColumn_le r
  have hmeet := height_lastColumn_le r
  have hdiagonal : lastColumn r ≤ height r (lastColumn r) := (le_lastColumn_iff hle).1 le_rfl
  rw [midpointFrom, if_pos (by omega)]
  congr 1
  split
  · rename_i hneg
    rw [midpointFrom, if_neg]
    intro hbelow
    have htr : lastColumn r < r := by
      have := height_le hle
      omega
    have hnext := (decision_neg_iff htr (by omega)).1 hneg
    have hpast := (le_lastColumn_iff (by omega : lastColumn r + 1 ≤ r)).2 (by omega)
    omega
  · rw [midpointFrom, if_neg (by omega)]

/-- From a column of the octant on the loop visits the heights up to the last column. -/
theorem midpointFrom_height {r t : Nat} (ht : t ≤ lastColumn r) :
    midpointFrom t (height r t) (decision r t (height r t)) =
      (List.range' t (lastColumn r + 1 - t)).map
        fun (k : Nat) => ((k : Int), (height r k : Int)) := by
  obtain ⟨n, hn⟩ : ∃ n, lastColumn r = t + n := ⟨lastColumn r - t, by omega⟩
  rw [show lastColumn r + 1 - t = n + 1 by omega]
  induction n generalizing t with
  | zero =>
    obtain rfl : t = lastColumn r := by omega
    exact midpointFrom_last r
  | succ n ih =>
    rw [midpointFrom_of_lt (by omega), ih (by omega) (by omega)]
    rfl

end Octant

open Octant

theorem mem_midpointCircle_iff (center : Point) (r : Nat) (m : Point) :
    m ∈ midpointCircle center r ↔
      ∃ t : Nat, t ≤ lastColumn r ∧ m ∈ center.mirrored t (height r t) := by
  have hloop := midpointFrom_height (Nat.zero_le (lastColumn r))
  rw [height_zero, Nat.cast_zero, decision_start] at hloop
  rw [midpointCircle, hloop]
  simp only [List.mem_flatMap, List.mem_map, List.mem_range'_1, exists_exists_and_eq_and]
  refine exists_congr fun t => and_congr_left fun _ => ?_
  omega

namespace Agent

def verticalArc (center : Point) (r : Nat) (sign : Int × Int) : Path where
  first := 0
  last := lastColumn r
  x t := center.x + sign.1 * t
  y t := center.y + sign.2 * height r t.toNat

def horizontalArc (center : Point) (r : Nat) (sign : Int × Int) : Path where
  first := 0
  last := lastColumn r
  x t := center.x + sign.1 * height r t.toNat
  y t := center.y + sign.2 * t

theorem arcs_eq (center : Point) (r : Nat) :
    arcs center r =
      signs.flatMap fun sign => [verticalArc center r sign, horizontalArc center r sign] := rfl

theorem height_monotoneWithin (r : Nat) :
    MonotoneWithin (fun t => (height r t.toNat : Int)) 0 (lastColumn r) := by
  refine .inr fun a b ha hab hb => ?_
  have hle := lastColumn_le r
  exact Int.ofNat_le.2 (height_anti (by omega) (by omega))

theorem sign_eq {sign : Int × Int} (h : sign ∈ signs) : sign.1 = 1 ∨ sign.1 = -1 := by
  simp only [signs, List.mem_cons, List.not_mem_nil, or_false] at h
  rcases h with rfl | rfl | rfl | rfl <;> simp

theorem steady_verticalArc (center : Point) (r : Nat) {sign : Int × Int} (h : sign ∈ signs) :
    (verticalArc center r sign).Steady where
  x_monotone := (monotoneWithin_id ..).affine center.x sign.1
  y_monotone := (height_monotoneWithin r).affine center.y sign.2
  x_step k _ _ := by
    rw [abs_le]
    simp only [verticalArc]
    rcases sign_eq h with hs | hs <;> rw [hs] <;> omega

theorem steady_horizontalArc (center : Point) (r : Nat) {sign : Int × Int} (h : sign ∈ signs) :
    (horizontalArc center r sign).Steady where
  x_monotone := (height_monotoneWithin r).affine center.x sign.1
  y_monotone := (monotoneWithin_id ..).affine center.y sign.2
  x_step k hk hk' := by
    simp only [horizontalArc] at hk hk'
    obtain ⟨t, rfl⟩ := Int.eq_ofNat_of_zero_le hk
    have hlast := lastColumn_le r
    have hdrop : height r t ≤ height r (t + 1) + 1 := height_le_succ (by omega)
    have hanti : height r (t + 1) ≤ height r t := height_anti (Nat.le_succ t) (by omega)
    have htoNat : ((t : Int) + 1).toNat = t + 1 := by omega
    rw [abs_le]
    simp only [horizontalArc, htoNat, Int.toNat_natCast]
    rcases sign_eq h with hs | hs <;> rw [hs] <;> omega

theorem steady_of_mem_arcs (center : Point) (r : Nat) (path : Path)
    (h : path ∈ arcs center r) : path.Steady := by
  rw [arcs_eq, List.mem_flatMap] at h
  obtain ⟨sign, hsign, hpath⟩ := h
  simp only [List.mem_cons, List.not_mem_nil, or_false] at hpath
  rcases hpath with rfl | rfl
  · exact steady_verticalArc center r hsign
  · exact steady_horizontalArc center r hsign

/-- The arcs cover exactly what the places of the midpoint circle cover. -/
theorem exists_arc_covers_iff (center : Point) (r : Nat) (reach : Int) (p : Point) :
    (∃ path ∈ arcs center r, path.Covers reach p) ↔
      ∃ m ∈ midpointCircle center r, |m.x - p.x| ≤ reach ∧ |m.y - p.y| ≤ reach := by
  simp only [mem_midpointCircle_iff, arcs_eq, Point.mirrored, List.mem_flatMap, List.mem_cons,
    List.not_mem_nil, or_false]
  constructor
  · rintro ⟨path, ⟨sign, hsign, rfl | rfl⟩, k, hk, hk', hcover⟩
    · obtain ⟨t, rfl⟩ := Int.eq_ofNat_of_zero_le hk
      exact ⟨_, ⟨t, Int.ofNat_le.1 hk', sign, hsign, .inl rfl⟩, hcover⟩
    · obtain ⟨t, rfl⟩ := Int.eq_ofNat_of_zero_le hk
      exact ⟨_, ⟨t, Int.ofNat_le.1 hk', sign, hsign, .inr rfl⟩, hcover⟩
  · rintro ⟨m, ⟨t, ht, sign, hsign, rfl | rfl⟩, hcover⟩
    · exact ⟨_, ⟨sign, hsign, .inl rfl⟩, t, Int.natCast_nonneg t, Int.ofNat_le.2 ht, hcover⟩
    · exact ⟨_, ⟨sign, hsign, .inr rfl⟩, t, Int.natCast_nonneg t, Int.ofNat_le.2 ht, hcover⟩

theorem drawCircle_eq_ok {agent after : Agent} {dx dy radius : Int}
    (h : agent.drawCircle dx dy radius = .ok after) :
    0 ≤ radius ∧ after = agent.draw
      ⟨arcs ⟨agent.position.x + dx * radius, agent.position.y + dy * radius⟩ radius.toNat,
        ⟨agent.position.x + dx * radius, agent.position.y + dy * radius⟩⟩ := by
  obtain ⟨figure, hfigure, h⟩ := bind_eq_ok_iff.1 h
  obtain ⟨hradius, center, hcenter, rfl⟩ := circle_eq_ok hfigure
  obtain rfl := destination_eq_ok hcenter
  exact ⟨hradius, (Except.ok.inj h).symm⟩

/-- A circle that is drawn colors exactly the cells within the reach of the brush of some place of
the midpoint circle, unless the brush is transparent. The agent ends on the center, and nothing
else about it changes. -/
theorem drawCircle_paints_midpointCircle (agent after : Agent) (dx dy radius : Int)
    (h : agent.drawCircle dx dy radius = .ok after) :
    let center : Point := ⟨agent.position.x + dx * radius, agent.position.y + dy * radius⟩
    (agent.color ≠ .transparent → ∀ p, agent.canvas.inBounds p = true →
      ((∃ m ∈ midpointCircle center radius,
          |m.x - p.x| ≤ brushReach agent.brush ∧ |m.y - p.y| ≤ brushReach agent.brush) →
        after.canvas.pixel? p = some agent.color) ∧
      ((¬ ∃ m ∈ midpointCircle center radius,
          |m.x - p.x| ≤ brushReach agent.brush ∧ |m.y - p.y| ≤ brushReach agent.brush) →
        after.canvas.pixel? p = agent.canvas.pixel? p)) ∧
    (agent.color = .transparent → after.canvas = agent.canvas) ∧
    after.canvas.size = agent.canvas.size ∧ after.canvas.background = agent.canvas.background ∧
    after.position = center ∧ after.color = agent.color ∧ after.brush = agent.brush ∧
    after.spawned = agent.spawned := by
  intro center
  obtain ⟨hradius, rfl⟩ := drawCircle_eq_ok h
  rw [draw_eq]
  refine ⟨fun hcolor p hp => ?_, fun hcolor => paintedCanvas_of_transparent hcolor _,
    size_paintedCanvas .., background_paintedCanvas .., rfl, rfl, rfl, rfl⟩
  have hpixel := pixel?_paintedCanvas hcolor (steady_of_mem_arcs center radius.toNat) hp
  rw [exists_arc_covers_iff, Int.toNat_of_nonneg hradius] at hpixel
  exact hpixel

theorem drawCircle_paints_midpointCircle_two :
    ∃ after, (fresh 10).drawCircle 1 1 2 = .ok after ∧ after.position = ⟨2, 2⟩ ∧
      after.canvas.pixel? ⟨3, 0⟩ = some .black := by
  have hdrawn : (fresh 10).drawCircle 1 1 2 = .ok ((fresh 10).draw ⟨arcs ⟨2, 2⟩ 2, ⟨2, 2⟩⟩) := rfl
  have hpoint : (⟨3, 0⟩ : Point) ∈ midpointCircle ⟨2, 2⟩ 2 := by
    simp [midpointCircle, midpointFrom, Point.mirrored, signs]
  have hcircle := drawCircle_paints_midpointCircle (fresh 10) _ 1 1 2 hdrawn
  refine ⟨_, hdrawn, hcircle.2.2.2.2.1, (hcircle.1 (by decide) ⟨3, 0⟩ (by decide)).1 ?_⟩
  exact ⟨⟨3, 0⟩, hpoint, by decide, by decide⟩

end Agent

end Brushwork

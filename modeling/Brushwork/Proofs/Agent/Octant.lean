import Mathlib.Data.Nat.Sqrt
import Mathlib.Tactic.Linarith
import Mathlib.Tactic.Ring
import Brushwork.Agent.Octant

/-!
# The heights of an octant

The height at a column is determined by one comparison: `y` lies below it exactly
when `y² + y + t² < r²`. From this follow its order in the columns, the unit drop
between two columns above the diagonal, the place where the octant ends, and that
no other number comes as close to the circle.
-/

namespace Brushwork.Octant

theorem floorSqrtFrom_eq (n guess : Nat) : floorSqrtFrom n guess = Nat.sqrt.iter n guess := by
  fun_induction floorSqrtFrom n guess with
  | case1 guess next hlt ih => rw [Nat.sqrt.iter, dif_pos hlt, ih]
  | case2 guess next hlt => rw [Nat.sqrt.iter, dif_neg hlt]

theorem floorSqrt_eq (n : Nat) : floorSqrt n = Nat.sqrt n := by
  rw [floorSqrt, Nat.sqrt, floorSqrtFrom_eq]

private theorem mul_self_add_mono {a b : Nat} (h : a ≤ b) : a * a + a ≤ b * b + b :=
  Nat.add_le_add (Nat.mul_self_le_mul_self h) h

/-- A number lies below the height exactly when the middle between it and the next one lies inside
the circle. -/
theorem lt_height_iff {r t : Nat} (ht : t ≤ r) (y : Nat) :
    y < height r t ↔ y * y + y + t * t < r * r := by
  have htr : t * t ≤ r * r := Nat.mul_self_le_mul_self ht
  obtain ⟨rest, hrest⟩ : ∃ rest, r * r - t * t = rest := ⟨_, rfl⟩
  have hlow := Nat.sqrt_le rest
  have hhigh := Nat.lt_succ_sqrt rest
  rw [height, floorSqrt_eq, hrest]
  generalize Nat.sqrt rest = s at hlow hhigh ⊢
  have hsquare : (s + 1) * (s + 1) = s * s + 2 * s + 1 := by ring
  rw [Nat.succ_eq_add_one, hsquare] at hhigh
  simp only [hsquare]
  have hmiddle : y * y + y + t * t < r * r ↔ y * y + y < rest := by omega
  rw [hmiddle]
  split
  · rcases Nat.lt_or_ge y (s + 1) with hy | hy
    · have := mul_self_add_mono (Nat.le_of_lt_succ hy)
      omega
    · have := mul_self_add_mono hy
      omega
  · rcases Nat.lt_or_ge y s with hy | hy
    · obtain ⟨s, rfl⟩ : ∃ s', s = s' + 1 := ⟨s - 1, by omega⟩
      have := mul_self_add_mono (Nat.le_of_lt_succ hy)
      have hprevious : (s + 1) * (s + 1) = s * s + 2 * s + 1 := by ring
      omega
    · have := mul_self_add_mono hy
      omega

theorem height_zero (r : Nat) : height r 0 = r := by
  apply Nat.le_antisymm
  · apply Nat.le_of_not_lt
    rw [lt_height_iff (Nat.zero_le r)]
    omega
  · cases r with
    | zero => exact Nat.zero_le _
    | succ r =>
      rw [Nat.succ_le_iff, lt_height_iff (Nat.zero_le _)]
      have hsquare : (r + 1) * (r + 1) = r * r + 2 * r + 1 := by ring
      omega

/-- The circle never rises from the vertical axis on. -/
theorem height_anti {r t t' : Nat} (h : t ≤ t') (ht : t' ≤ r) : height r t' ≤ height r t := by
  apply Nat.le_of_not_lt
  intro hlt
  have hbelow := (lt_height_iff ht _).1 hlt
  have hsquares : t * t ≤ t' * t' := Nat.mul_self_le_mul_self h
  exact lt_irrefl _ ((lt_height_iff (h.trans ht) _).2 (by omega))

theorem height_le {r t : Nat} (ht : t ≤ r) : height r t ≤ r :=
  (height_anti (Nat.zero_le t) ht).trans_eq (height_zero r)

/-- More than one above the diagonal the circle comes down by at most one. -/
theorem height_le_succ_of_lt {r t : Nat} (ht : t < r) (h : t + 1 < height r t) :
    height r t ≤ height r (t + 1) + 1 := by
  obtain ⟨y, hy⟩ : ∃ y, height r t = y + 2 := ⟨height r t - 2, by omega⟩
  have habove : (y + 1) * (y + 1) + (y + 1) + t * t < r * r :=
    (lt_height_iff ht.le _).1 (by omega)
  have hnext : y < height r (t + 1) := by
    rw [lt_height_iff (by omega : t + 1 ≤ r)]
    have h₁ : (y + 1) * (y + 1) = y * y + 2 * y + 1 := by ring
    have h₂ : (t + 1) * (t + 1) = t * t + 2 * t + 1 := by ring
    omega
  omega

private theorem lastColumnFrom_spec {r lo hi : Nat} (hle : lo ≤ hi) (hhi : hi ≤ r)
    (hlo : lo ≤ height r lo) (hbeyond : ∀ t, hi < t → t ≤ r → height r t < t) :
    lastColumnFrom r lo hi ≤ hi ∧
      lastColumnFrom r lo hi ≤ height r (lastColumnFrom r lo hi) ∧
      ∀ t, lastColumnFrom r lo hi < t → t ≤ r → height r t < t := by
  fun_induction lastColumnFrom r lo hi with
  | case1 lo hi hlt mid hmid ih => exact ih (by omega) hhi hmid hbeyond
  | case2 lo hi hlt mid hmid ih =>
    obtain ⟨hbound, hlast, hrest⟩ := ih (by omega) (by omega) hlo fun t ht ht' =>
      calc height r t ≤ height r mid := height_anti (by omega) ht'
        _ < mid := not_le.1 hmid
        _ ≤ t := by omega
    exact ⟨by omega, hlast, hrest⟩
  | case3 lo hi hlt =>
    exact ⟨hle, hlo, fun t ht => hbeyond t (by omega)⟩

theorem lastColumn_le (r : Nat) : lastColumn r ≤ r :=
  (lastColumnFrom_spec (Nat.zero_le r) le_rfl (Nat.zero_le _) fun _ h h' => by omega).1

theorem le_lastColumn_iff {r t : Nat} (ht : t ≤ r) : t ≤ lastColumn r ↔ t ≤ height r t := by
  obtain ⟨hbound, hlast, hbeyond⟩ :=
    lastColumnFrom_spec (Nat.zero_le r) le_rfl (Nat.zero_le _) fun t h h' => by omega
  constructor
  · intro hle
    calc t ≤ lastColumn r := hle
      _ ≤ height r (lastColumn r) := hlast
      _ ≤ height r t := height_anti hle hbound
  · intro hle
    apply Nat.le_of_not_lt
    intro hlt
    exact not_lt.2 hle (hbeyond t hlt ht)

/-- Inside the octant the circle comes down by at most one at a time. -/
theorem height_le_succ {r t : Nat} (ht : t < lastColumn r) :
    height r t ≤ height r (t + 1) + 1 := by
  have htr : t + 1 ≤ r := ht.trans_le (lastColumn_le r)
  have hnext : t + 1 ≤ height r (t + 1) := (le_lastColumn_iff htr).1 ht
  by_cases h : t + 1 < height r t
  · exact height_le_succ_of_lt htr h
  · omega

theorem height_lastColumn_le (r : Nat) : height r (lastColumn r) ≤ lastColumn r + 1 := by
  apply Nat.le_of_not_lt
  intro hlt
  have hle := lastColumn_le r
  have htr : lastColumn r < r := by
    have := height_le hle
    omega
  have hnext := height_le_succ_of_lt htr hlt
  have hbeyond : ¬ lastColumn r + 1 ≤ height r (lastColumn r + 1) := fun h =>
    Nat.not_succ_le_self _ ((le_lastColumn_iff htr).2 h)
  omega

/-- How far the square of the radius is from the squares of a column and a height together. -/
def deviation (r t y : Nat) : Nat := ((t * t + y * y : Nat) - (r * r : Nat) : Int).natAbs

/-- Every other height is farther off. -/
theorem deviation_height_lt {r t y : Nat} (ht : t ≤ r) (hy : y ≠ height r t) :
    deviation r t (height r t) < deviation r t y := by
  have htr : t * t ≤ r * r := Nat.mul_self_le_mul_self ht
  have hbelow := lt_height_iff ht
  generalize height r t = h at hy hbelow ⊢
  unfold deviation
  rcases Nat.lt_or_gt_of_ne hy with hlt | hgt
  · obtain ⟨k, rfl⟩ : ∃ k, h = k + 1 := ⟨h - 1, by omega⟩
    have hinside : k * k + k + t * t < r * r := (hbelow k).1 k.lt_succ_self
    have hsquare : (k + 1) * (k + 1) = k * k + 2 * k + 1 := by ring
    have hle : y * y ≤ k * k := Nat.mul_self_le_mul_self (Nat.le_of_lt_succ hlt)
    omega
  · have hinside : ¬ h * h + h + t * t < r * r := fun hlt => lt_irrefl h ((hbelow h).2 hlt)
    have hsquare : (h + 1) * (h + 1) = h * h + 2 * h + 1 := by ring
    have hle : (h + 1) * (h + 1) ≤ y * y := Nat.mul_self_le_mul_self hgt
    omega

theorem forall_deviation_le_iff {r t : Nat} (ht : t ≤ r) (y : Nat) :
    (∀ z, deviation r t y ≤ deviation r t z) ↔ y = height r t := by
  constructor
  · intro hleast
    by_contra hy
    exact not_lt.2 (hleast (height r t)) (deviation_height_lt ht hy)
  · rintro rfl z
    by_cases hz : z = height r t
    · rw [hz]
    · exact (deviation_height_lt ht hz).le

theorem isGreatest_lastColumn (r : Nat) :
    IsGreatest {t | t ≤ r ∧ t ≤ height r t} (lastColumn r) := by
  have hle := lastColumn_le r
  constructor
  · exact ⟨hle, (le_lastColumn_iff hle).1 le_rfl⟩
  · rintro t ⟨ht, hheight⟩
    exact (le_lastColumn_iff ht).2 hheight

/-- At every column the height of the circle is the one number whose square, with that of the
column, comes closest to the square of the radius. The heights do not rise; the octant goes as far
as they are not below the diagonal, comes down by at most one from column to column and ends on the
diagonal or one above it. -/
theorem heights_follow_circle (r : Nat) :
    (∀ t ≤ r, ∀ y, (∀ z, deviation r t y ≤ deviation r t z) ↔ y = height r t) ∧
    AntitoneOn (height r) (Set.Iic r) ∧
    IsGreatest {t | t ≤ r ∧ t ≤ height r t} (lastColumn r) ∧
    (∀ t < lastColumn r,
      height r t = height r (t + 1) ∨ height r t = height r (t + 1) + 1) ∧
    (height r (lastColumn r) = lastColumn r ∨ height r (lastColumn r) = lastColumn r + 1) := by
  have hlast := (isGreatest_lastColumn r).1
  refine ⟨fun t ht => forall_deviation_le_iff ht, fun t _ t' ht' h => height_anti h ht',
    isGreatest_lastColumn r, fun t ht => ?_, ?_⟩
  · have hdown : height r (t + 1) ≤ height r t :=
      height_anti t.le_succ (Nat.le_trans ht hlast.1)
    have hunit := height_le_succ ht
    omega
  · have habove := hlast.2
    have hend := height_lastColumn_le r
    omega

end Brushwork.Octant

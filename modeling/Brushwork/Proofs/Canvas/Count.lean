import Mathlib.Algebra.BigOperators.Intervals
import Mathlib.Algebra.Order.Group.Int
import Brushwork.Proofs.Canvas.Cells

/-!
# Counting is exact

The places between two corners form a rectangle, whichever corner comes first. Counting a
color row by row over the part of the rectangle on the canvas finds every place of that
color once. So the count is the number of these places, and what holds of finite sets of
places holds of counts.
-/

namespace Brushwork

/-- The place lies in the rectangle between two corners. -/
def Point.Between (a b p : Point) : Prop :=
  min a.x b.x ≤ p.x ∧ p.x ≤ max a.x b.x ∧ min a.y b.y ≤ p.y ∧ p.y ≤ max a.y b.y

instance (a b p : Point) : Decidable (Point.Between a b p) :=
  inferInstanceAs (Decidable (_ ∧ _ ∧ _ ∧ _))

theorem Point.between_self {a p : Point} : Between a a p ↔ p = a := by
  obtain ⟨ax, ay⟩ := a
  obtain ⟨px, py⟩ := p
  simp only [Between, min_self, max_self, Point.mk.injEq]
  omega

namespace Canvas

variable (canvas : Canvas) (color : Color)

def places : Finset Point :=
  (Finset.range canvas.size ×ˢ Finset.range canvas.size).image fun q => ⟨q.1, q.2⟩

def placesBetween (a b : Point) : Finset Point := canvas.places.filter (Point.Between a b)

def colored (a b : Point) : Finset Point :=
  (canvas.placesBetween a b).filter fun p => canvas.pixel? p = some color

@[simp] theorem mem_places {canvas : Canvas} {p : Point} :
    p ∈ canvas.places ↔ canvas.inBounds p = true := by
  simp only [places, Finset.mem_image, Finset.mem_product, Finset.mem_range, inBounds_iff]
  constructor
  · rintro ⟨⟨i, j⟩, ⟨hi, hj⟩, rfl⟩
    dsimp only at hi hj ⊢
    omega
  · rintro ⟨hx, hx', hy, hy'⟩
    refine ⟨(p.x.toNat, p.y.toNat), by omega, ?_⟩
    rw [Int.toNat_of_nonneg hx, Int.toNat_of_nonneg hy]

@[simp] theorem mem_placesBetween {canvas : Canvas} {a b p : Point} :
    p ∈ canvas.placesBetween a b ↔ canvas.inBounds p = true ∧ Point.Between a b p := by
  simp [placesBetween]

/-- A place that has a color lies on the canvas. -/
@[simp] theorem mem_colored {canvas : Canvas} {color : Color} {a b p : Point} :
    p ∈ canvas.colored color a b ↔ Point.Between a b p ∧ canvas.pixel? p = some color := by
  rw [colored, Finset.mem_filter, mem_placesBetween, and_assoc, and_iff_right_iff_imp]
  exact fun h => inBounds_of_pixel?_eq_some h.2

theorem card_places : canvas.places.card = canvas.size * canvas.size := by
  rw [places, Finset.card_image_of_injective]
  · simp
  · intro q q' h
    simp only [Point.mk.injEq] at h
    exact Prod.ext (by omega) (by omega)

section Loops

theorem countRun_eq_sum (pixels : Array Color) (start count : Nat) :
    countRun pixels color start count =
      ∑ i ∈ Finset.range count, if pixels[start + i]? = some color then 1 else 0 := by
  induction count generalizing start with
  | zero => rfl
  | succ count ih =>
    rw [countRun, ih, Finset.sum_range_succ']
    simp only [isColor_iff, Nat.add_assoc, Nat.add_comm 1, Nat.add_zero]

theorem countRows_eq_sum (left width row count : Nat) :
    canvas.countRows color left width row count =
      ∑ j ∈ Finset.range count,
        countRun canvas.pixels color ((row + j) * canvas.size + left) width := by
  induction count generalizing row with
  | zero => rfl
  | succ count ih =>
    rw [countRows, ih, Finset.sum_range_succ']
    simp only [Nat.add_assoc, Nat.add_comm 1, Nat.add_zero]

theorem pixel?_natCast {canvas : Canvas} {x y : Nat} (hx : x < canvas.size)
    (hy : y < canvas.size) : canvas.pixel? ⟨x, y⟩ = canvas.pixels[y * canvas.size + x]? := by
  rw [pixel?_eq_getElem? (by simp only [inBounds_iff]; omega), index, Int.toNat_natCast,
    Int.toNat_natCast]

/-- Counting rows of the canvas finds the places of the color, each of them once. -/
theorem countRows_eq_card {left width row count : Nat}
    (hwidth : ∀ i < width, left + i < canvas.size) (hcount : ∀ j < count, row + j < canvas.size) :
    canvas.countRows color left width row count =
      (canvas.places.filter fun p : Point =>
        (left ≤ p.x ∧ p.x < left + width ∧ row ≤ p.y ∧ p.y < row + count) ∧
          canvas.pixel? p = some color).card := by
  have hloops : canvas.countRows color left width row count =
      ((Finset.range count ×ˢ Finset.range width).filter fun q =>
        canvas.pixel? ⟨(left + q.2 : Nat), (row + q.1 : Nat)⟩ = some color).card := by
    rw [countRows_eq_sum, Finset.card_filter, Finset.sum_product]
    refine Finset.sum_congr rfl fun j hj => ?_
    rw [countRun_eq_sum]
    refine Finset.sum_congr rfl fun i hi => ?_
    rw [pixel?_natCast (hwidth i (Finset.mem_range.1 hi)) (hcount j (Finset.mem_range.1 hj)),
      Nat.add_assoc]
  rw [hloops]
  refine Finset.card_bij (fun q _ => ⟨(left + q.2 : Nat), (row + q.1 : Nat)⟩) ?_ ?_ ?_
  · intro q hq
    simp only [Finset.mem_filter, Finset.mem_product, Finset.mem_range] at hq
    refine Finset.mem_filter.2 ⟨mem_places.2 (inBounds_of_pixel?_eq_some hq.2), ?_, hq.2⟩
    dsimp only
    omega
  · intro q _ q' _ h
    simp only [Point.mk.injEq] at h
    exact Prod.ext (by omega) (by omega)
  · intro p hp
    obtain ⟨-, hrectangle, hpixel⟩ := Finset.mem_filter.1 hp
    obtain ⟨i, hi⟩ := Int.eq_ofNat_of_zero_le (by omega : 0 ≤ p.x - left)
    obtain ⟨j, hj⟩ := Int.eq_ofNat_of_zero_le (by omega : 0 ≤ p.y - row)
    have hplace : (⟨(left + i : Nat), (row + j : Nat)⟩ : Point) = p := by
      obtain ⟨x, y⟩ := p
      simp only [Point.mk.injEq] at hi hj ⊢
      omega
    refine ⟨(j, i), ?_, hplace⟩
    simp only [Finset.mem_filter, Finset.mem_product, Finset.mem_range, hplace]
    exact ⟨by omega, hpixel⟩

end Loops

/-- Of the coordinates on the canvas, cutting the span of two corners at its edges loses none. -/
theorem clipped_iff {size : Nat} {x : Int} (hx : 0 ≤ x) (hx' : x < size) (u v : Int) :
    ((max (min u v) 0).toNat ≤ x ∧
        x < (max (min u v) 0).toNat + (min (max u v) (size - 1) - max (min u v) 0 + 1).toNat) ↔
      min u v ≤ x ∧ x ≤ max u v := by
  omega

/-- The count is the number of places between the corners that have the color. -/
theorem countWithin_eq_card (a b : Point) :
    canvas.countWithin color a b = (canvas.colored color a b).card := by
  rw [countWithin, countRows_eq_card canvas color (by omega) (by omega), colored, placesBetween,
    Finset.filter_filter]
  congr 1
  refine Finset.filter_congr fun p hp => and_congr_left' ?_
  obtain ⟨hx, hx', hy, hy'⟩ := (canvas.inBounds_iff p).1 (mem_places.1 hp)
  rw [Point.Between, ← and_assoc, ← and_assoc, clipped_iff hx hx', and_assoc, clipped_iff hy hy',
    and_assoc]

theorem countWithin_le (a b : Point) :
    canvas.countWithin color a b ≤ canvas.size * canvas.size := by
  rw [countWithin_eq_card, ← card_places]
  exact Finset.card_le_card ((Finset.filter_subset _ _).trans (Finset.filter_subset _ _))

/-- Corners that span the same rectangle give the same count. -/
theorem countWithin_congr {a b a' b' : Point}
    (h : ∀ p, Point.Between a b p ↔ Point.Between a' b' p) :
    canvas.countWithin color a b = canvas.countWithin color a' b' := by
  have hplaces : canvas.colored color a b = canvas.colored color a' b' := by
    ext p
    rw [mem_colored, mem_colored, h]
  rw [countWithin_eq_card, countWithin_eq_card, hplaces]

/-- Every place has one color of the palette. -/
theorem sum_countWithin_palette (a b : Point) :
    (Color.palette.map fun color => canvas.countWithin color a b).sum =
      (canvas.placesBetween a b).card := by
  have hnodup : Color.palette.Nodup := by decide
  have hcolored : ∀ p ∈ canvas.placesBetween a b,
      canvas.pixel? p ∈ Color.palette.toFinset.map Function.Embedding.some := by
    intro p hp
    obtain ⟨color, hcolor⟩ := exists_pixel?_eq_some (mem_placesBetween.1 hp).1
    rw [hcolor, Finset.mem_map]
    exact ⟨color, List.mem_toFinset.2 color.mem_palette, rfl⟩
  rw [← List.sum_toFinset _ hnodup, Finset.card_eq_sum_card_fiberwise hcolored, Finset.sum_map]
  exact Finset.sum_congr rfl fun color _ => canvas.countWithin_eq_card color a b

theorem pixel_eq_ok_iff {canvas : Canvas} {p : Point} {color : Color} :
    canvas.pixel p = .ok color ↔ canvas.pixel? p = some color := by
  rw [pixel]
  cases canvas.pixel? p with
  | none => simp
  | some found => simp

/-- A single place counts one for its own color and nothing for the others. -/
theorem countWithin_self (p : Point) :
    canvas.countWithin color p p = if canvas.pixel? p = some color then 1 else 0 := by
  rw [countWithin_eq_card]
  split
  · rename_i h
    have hplaces : canvas.colored color p p = {p} := by
      ext q
      rw [mem_colored, Point.between_self, Finset.mem_singleton, and_iff_left_iff_imp]
      rintro rfl
      exact h
    rw [hplaces, Finset.card_singleton]
  · rename_i h
    rw [Finset.card_eq_zero, Finset.eq_empty_iff_forall_notMem]
    intro q hq
    rw [mem_colored, Point.between_self] at hq
    obtain ⟨rfl, hcolor⟩ := hq
    exact h hcolor

section Whole

theorem countRun_add (pixels : Array Color) (start m n : Nat) :
    countRun pixels color start (m + n) =
      countRun pixels color start m + countRun pixels color (start + m) n := by
  simp only [countRun_eq_sum, Finset.sum_range_add, Nat.add_assoc]

theorem countRun_eq_count (pixels : Array Color) (start count : Nat) :
    countRun pixels color start count = ((pixels.toList.drop start).take count).count color := by
  induction count generalizing start with
  | zero => rfl
  | succ count ih =>
    rw [countRun, ih]
    by_cases hstart : start < pixels.size
    · have hlength : start < pixels.toList.length := hstart
      rw [List.drop_eq_getElem_cons hlength, List.take_succ_cons, List.count_cons]
      simp [hstart]
    · have hlength : pixels.toList.length ≤ start := Nat.le_of_not_lt hstart
      rw [List.drop_eq_nil_of_le hlength, List.drop_eq_nil_of_le (Nat.le_succ_of_le hlength)]
      simp [hstart]

/-- Whole rows follow one another without a gap. -/
theorem countRows_whole (row count : Nat) :
    canvas.countRows color 0 canvas.size row count =
      countRun canvas.pixels color (row * canvas.size) (count * canvas.size) := by
  induction count generalizing row with
  | zero => simp [countRows, countRun]
  | succ count ih =>
    rw [countRows, ih, Nat.succ_mul, Nat.succ_mul, Nat.add_comm (count * _), countRun_add,
      Nat.add_comm]
    rfl

theorem countWithin_whole :
    canvas.countWithin color ⟨0, 0⟩ ⟨canvas.size - 1, canvas.size - 1⟩ = canvas.total color := by
  have hloops : canvas.countWithin color ⟨0, 0⟩ ⟨canvas.size - 1, canvas.size - 1⟩ =
      canvas.countRows color 0 canvas.size 0 canvas.size := by
    rw [countWithin]
    congr 1 <;> dsimp only <;> omega
  rw [hloops, countRows_whole, countRun_eq_count, Nat.zero_mul, List.drop_zero,
    ← canvas.size_pixels, ← Array.length_toList, List.take_length, Array.count_toList, total]

end Whole

end Canvas

end Brushwork

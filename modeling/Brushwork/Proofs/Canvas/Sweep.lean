import Mathlib.Algebra.Order.Group.Int
import Mathlib.Algebra.Order.Group.Abs
import Mathlib.Data.Int.Init
import Brushwork.Proofs.Canvas.Cells
import Brushwork.Proofs.Canvas.Search

/-!
# A sweep stamps every place of its path

The cells that a brush covers on the way along a path are those within its reach
of some place of the path. For a path with monotone coordinates whose columns
move by at most one at a time the covered cells of a row form one run, and the
run that `Path.runOnRow` finds is that run. So a sweep colors exactly the covered
cells, and it is the same as stamping the brush on one place after another.
-/

namespace Brushwork

/-- A function that moves by at most one at a time takes every value between those at the ends. -/
theorem exists_eq_of_unit_steps {f : Int → Int} {a b : Int} (v : Int) (hab : a ≤ b)
    (hstep : ∀ k, a ≤ k → k < b → |f (k + 1) - f k| ≤ 1)
    (hlow : min (f a) (f b) ≤ v) (hhigh : v ≤ max (f a) (f b)) :
    ∃ k, a ≤ k ∧ k ≤ b ∧ f k = v := by
  induction b, hab using Int.leInduction with
  | base => exact ⟨a, le_refl a, le_refl a, by omega⟩
  | succ b hab ih =>
    by_cases hv : f (b + 1) = v
    · exact ⟨b + 1, by omega, le_refl _, hv⟩
    · obtain ⟨hup, hdown⟩ := abs_le.1 (hstep b hab (by omega))
      obtain ⟨k, hk, hk', hfk⟩ := ih (fun k hk hk' => hstep k hk (by omega)) (by omega) (by omega)
      exact ⟨k, hk, by omega, hfk⟩

/-- The numbers around the stretch between two bounds miss none of the stretch. -/
theorem rangeAround_spec {f : Int → Int} {first last : Int} (low high : Int)
    (hle : first ≤ last) (h : MonotoneWithin f first last) (hbounds : low ≤ high + 1) :
    first ≤ (rangeAround f first last low high).1 ∧
      (rangeAround f first last low high).1 ≤ (rangeAround f first last low high).2 ∧
      (rangeAround f first last low high).2 ≤ last ∧
      ∀ k, first ≤ k → k ≤ last → low ≤ f k → f k ≤ high →
        (rangeAround f first last low high).1 ≤ k ∧ k ≤ (rangeAround f first last low high).2 := by
  have hs := isStretch_stretchWithin low high hle h
  have h₁ := hs.first_le_start
  have h₂ := hs.start_le
  have h₃ := hs.first_le_stop
  have h₄ := hs.stop_le
  have h₅ := hs.start_le_stop hbounds
  simp only [rangeAround]
  refine ⟨by omega, by omega, by omega, fun k hk hk' hlow hhigh => ?_⟩
  have hmem := (hs.mem_iff k hk hk').1 ⟨hlow, hhigh⟩
  omega

namespace Path

/-- A path whose coordinates are monotone and whose columns move by at most one at a time. The
rows may jump. -/
structure Steady (path : Path) : Prop where
  x_monotone : MonotoneWithin path.x path.first path.last
  y_monotone : MonotoneWithin path.y path.first path.last
  x_step : ∀ k, path.first ≤ k → k < path.last → |path.x (k + 1) - path.x k| ≤ 1

/-- Whether a brush of the given reach covers a place on its way along a path. -/
def Covers (path : Path) (reach : Int) (p : Point) : Prop :=
  ∃ k, path.first ≤ k ∧ k ≤ path.last ∧ |path.x k - p.x| ≤ reach ∧ |path.y k - p.y| ≤ reach

theorem covers_iff (path : Path) (reach : Int) (p : Point) :
    path.Covers reach p ↔ ∃ k, path.first ≤ k ∧ k ≤ path.last ∧
      (p.x - reach ≤ path.x k ∧ path.x k ≤ p.x + reach) ∧
      (p.y - reach ≤ path.y k ∧ path.y k ≤ p.y + reach) := by
  simp only [Covers, abs_le, neg_le_sub_iff_le_add, sub_le_iff_le_add]
  refine exists_congr fun k => ?_
  omega

def points (path : Path) : List Point :=
  (List.range (path.last + 1 - path.first).toNat).map fun (i : Nat) => path.point (path.first + i)

def restrict (path : Path) (first last : Int) : Path := { path with first, last }

theorem Steady.restrict {path : Path} (h : path.Steady) {first last : Int}
    (hfirst : path.first ≤ first) (hlast : last ≤ path.last) :
    (path.restrict first last).Steady where
  x_monotone := h.x_monotone.subinterval hfirst hlast
  y_monotone := h.y_monotone.subinterval hfirst hlast
  x_step k hk hk' := h.x_step k (hfirst.trans hk) (lt_of_lt_of_le hk' hlast)

/-- The part of a path near a grid covers the same cells of the grid. -/
theorem near_spec {path : Path} (h : path.Steady) (hle : path.first ≤ path.last)
    {reach edge : Int} (hreach : 0 ≤ reach) (hedge : -1 ≤ edge) :
    (path.near reach edge).Steady ∧
      (path.near reach edge).first ≤ (path.near reach edge).last ∧
      ∀ p : Point, 0 ≤ p.x → p.x ≤ edge → 0 ≤ p.y → p.y ≤ edge →
        ((path.near reach edge).Covers reach p ↔ path.Covers reach p) := by
  obtain ⟨hx₁, hx₂, hx₃, hx⟩ := rangeAround_spec (-reach) (edge + reach) hle h.x_monotone (by omega)
  have hrestrict := h.restrict hx₁ hx₃
  obtain ⟨hy₁, hy₂, hy₃, hy⟩ := rangeAround_spec (-reach) (edge + reach) hx₂
    hrestrict.y_monotone (by omega)
  refine ⟨hrestrict.restrict hy₁ hy₃, hy₂, fun p hpx hpx' hpy hpy' => ⟨?_, ?_⟩⟩
  · rintro ⟨k, hk, hk', hcover⟩
    exact ⟨k, hx₁.trans (hy₁.trans hk), hk'.trans (hy₃.trans hx₃), hcover⟩
  · rw [covers_iff, covers_iff]
    rintro ⟨k, hk, hk', hkx, hky⟩
    obtain ⟨hk₁, hk₂⟩ := hx k hk hk' (by omega) (by omega)
    have hky' : -reach ≤ path.y k ∧ path.y k ≤ edge + reach := by omega
    obtain ⟨hk₃, hk₄⟩ := hy k hk₁ hk₂ hky'.1 hky'.2
    exact ⟨k, hk₃, hk₄, hkx, hky⟩

def onRun (path : Path) (reach edge row col : Int) : Bool :=
  match path.runOnRow reach edge row with
  | none => false
  | some (left, right) => left ≤ col && col ≤ right

/-- The run of a row holds exactly the covered columns of the grid. -/
theorem onRun_iff {path : Path} (h : path.Steady) (hle : path.first ≤ path.last)
    {reach edge : Int} {p : Point} (hreach : 0 ≤ reach) (hp : 0 ≤ p.x) (hp' : p.x ≤ edge) :
    path.onRun reach edge p.y p.x = true ↔ path.Covers reach p := by
  have hs := isStretch_stretchWithin (p.y - reach) (p.y + reach) hle h.y_monotone
  rw [covers_iff]
  simp only [onRun, runOnRow, rangeWithin]
  generalize stretchWithin path.y path.first path.last (p.y - reach) (p.y + reach) = s at hs ⊢
  have hfirst := hs.first_le_start
  have hlast := hs.stop_le
  by_cases hlt : s.1 < s.2
  · rw [if_pos hlt]
    simp only [Bool.and_eq_true, decide_eq_true_eq]
    constructor
    · rintro ⟨hleft, hright⟩
      have hstep : ∀ k, s.1 ≤ k → k < s.2 - 1 → |path.x (k + 1) - path.x k| ≤ 1 :=
        fun k hk hk' => h.x_step k (by omega) (by omega)
      have hcross := exists_eq_of_unit_steps
        (max (min (path.x s.1) (path.x (s.2 - 1))) (min p.x (max (path.x s.1) (path.x (s.2 - 1)))))
        (by omega) hstep (by omega) (by omega)
      obtain ⟨k, hk, hk', hxk⟩ := hcross
      have hrow := (hs.mem_iff k (by omega) (by omega)).2 ⟨hk, by omega⟩
      exact ⟨k, by omega, by omega, by omega, by omega⟩
    · rintro ⟨k, hk, hk', hkx, hky⟩
      obtain ⟨hstart, hstop⟩ := (hs.mem_iff k hk hk').1 hky
      have hmono : MonotoneWithin path.x s.1 (s.2 - 1) :=
        h.x_monotone.subinterval hfirst (by omega)
      have hx := hmono.between hstart (by omega)
      omega
  · rw [if_neg hlt]
    simp only [Bool.false_eq_true, false_iff]
    rintro ⟨k, hk, hk', hkx, hky⟩
    have hmem := (hs.mem_iff k hk hk').1 hky
    omega

theorem rowSpan_nonneg (path : Path) (reach edge : Int) : 0 ≤ (path.rowSpan reach edge).1 :=
  le_max_right _ _

theorem rowSpan_of_covers {path : Path} (h : path.Steady) {reach edge : Int} {p : Point}
    (hp : 0 ≤ p.y) (hp' : p.y ≤ edge) (hcover : path.Covers reach p) :
    (path.rowSpan reach edge).1 ≤ p.y ∧ p.y ≤ (path.rowSpan reach edge).2 := by
  obtain ⟨k, hk, hk', -, hky⟩ := (covers_iff path reach p).1 hcover
  have hy := h.y_monotone.between hk hk'
  simp only [rowSpan]
  omega

theorem runOnRow_bounds {path : Path} {reach edge row left right : Int}
    (h : path.runOnRow reach edge row = some (left, right)) : 0 ≤ left ∧ right ≤ edge := by
  simp only [runOnRow] at h
  split at h
  · cases h
  · obtain ⟨rfl, rfl⟩ := Prod.mk.inj (Option.some.inj h)
    omega

end Path

/-- The cells of a run inside one row have a run of positions. -/
private theorem position_mem_run_iff {size row left count x y : Nat} (hx : x < size)
    (hcount : 0 < count → left + count ≤ size) :
    row * size + left ≤ y * size + x ∧ y * size + x < row * size + left + count ↔
      y = row ∧ left ≤ x ∧ x < left + count := by
  constructor
  · rintro ⟨hlow, hhigh⟩
    have hposition : y * size + x = row * size + (y * size + x - row * size) := by omega
    obtain ⟨hy, hx'⟩ := Canvas.row_eq_of_position hx (by omega) hposition
    subst hy
    omega
  · rintro ⟨rfl, hlow, hhigh⟩
    omega

def paintRow (path : Path) (color : Color) (reach : Int) (size : Nat) (pixels : Array Color)
    (row : Int) : Array Color :=
  match path.runOnRow reach (size - 1) row with
  | none => pixels
  | some (left, right) =>
    paintRun color pixels (row.toNat * size + left.toNat) (right - left + 1).toNat

theorem paintRows_succ (path : Path) (color : Color) (reach : Int) (size : Nat)
    (pixels : Array Color) (row : Int) (count : Nat) :
    paintRows path color reach size pixels row (count + 1) =
      paintRows path color reach size (paintRow path color reach size pixels row) (row + 1) count :=
  rfl

@[simp] theorem size_paintRow (path : Path) (color : Color) (reach : Int) (size : Nat)
    (pixels : Array Color) (row : Int) :
    (paintRow path color reach size pixels row).size = pixels.size := by
  rw [paintRow]
  split <;> simp

section Rows

variable (path : Path) (color : Color) (reach : Int) {size x y : Nat} {pixels : Array Color}
  {row : Int}

theorem getElem?_paintRow (hpixels : pixels.size = size * size) (hrow : 0 ≤ row) (hx : x < size)
    (hy : y < size) :
    (paintRow path color reach size pixels row)[y * size + x]? =
      if y = row ∧ path.onRun reach (size - 1) y x = true then some color
      else pixels[y * size + x]? := by
  have hlt : y * size + x < size * size :=
    calc y * size + x < (y + 1) * size := by rw [Nat.succ_mul]; omega
      _ ≤ size * size := Nat.mul_le_mul_right _ hy
  cases hrun : path.runOnRow reach (size - 1) row with
  | none =>
    rw [paintRow, hrun, if_neg]
    rintro ⟨rfl, hon⟩
    simp [Path.onRun, hrun] at hon
  | some run =>
    obtain ⟨left, right⟩ := run
    obtain ⟨hleft, hright⟩ := Path.runOnRow_bounds hrun
    rw [paintRow, hrun]
    dsimp only
    rw [getElem?_paintRun]
    refine if_congr ?_ rfl rfl
    rw [← and_assoc, position_mem_run_iff hx (by omega), hpixels]
    constructor
    · rintro ⟨⟨hy', hx₁, hx₂⟩, -⟩
      obtain rfl : (y : Int) = row := by omega
      simp only [Path.onRun, hrun, Bool.and_eq_true, decide_eq_true_eq, true_and]
      omega
    · rintro ⟨rfl, hon⟩
      simp only [Path.onRun, hrun, Bool.and_eq_true, decide_eq_true_eq] at hon
      omega

theorem getElem?_paintRows (hpixels : pixels.size = size * size) (hrow : 0 ≤ row) (hx : x < size)
    (hy : y < size) (count : Nat) :
    (paintRows path color reach size pixels row count)[y * size + x]? =
      if row ≤ y ∧ y < row + count ∧ path.onRun reach (size - 1) y x = true then some color
      else pixels[y * size + x]? := by
  induction count generalizing pixels row with
  | zero => rw [paintRows, if_neg (by omega)]
  | succ count ih =>
    rw [paintRows_succ, ih (by rw [size_paintRow, hpixels]) (by omega),
      getElem?_paintRow path color reach hpixels hrow hx hy]
    cases path.onRun reach (size - 1) y x with
    | false => simp
    | true =>
      simp only [and_true]
      split
      · rw [if_pos (by omega)]
      · split
        · rw [if_pos (by omega)]
        · rw [if_neg (by omega)]

end Rows

namespace Canvas

theorem brushReach_nonneg (brush : Int) : 0 ≤ brushReach brush := by
  simp only [brushReach]
  omega

def sweepRows (canvas : Canvas) (path : Path) (color : Color) (reach : Int) : Canvas :=
  let span := path.rowSpan reach (canvas.size - 1)
  canvas.repaint
    (paintRows path color reach canvas.size canvas.pixels span.1 (span.2 - span.1 + 1).toNat)
    (size_paintRows ..)

/-- The color that the runs of a steady path leave at a place of the canvas. -/
theorem pixel?_sweepRows (canvas : Canvas) {path : Path} (h : path.Steady)
    (hle : path.first ≤ path.last) (color : Color) {reach : Int} (hreach : 0 ≤ reach) {p : Point}
    (hp : canvas.inBounds p = true) :
    (path.Covers reach p → (canvas.sweepRows path color reach).pixel? p = some color) ∧
      (¬ path.Covers reach p →
        (canvas.sweepRows path color reach).pixel? p = canvas.pixel? p) := by
  have hbounds : (canvas.sweepRows path color reach).inBounds p = true := hp
  obtain ⟨hpx, hpx', hpy, hpy'⟩ := (canvas.inBounds_iff p).1 hp
  have hcell := getElem?_paintRows path color reach canvas.size_pixels
    (path.rowSpan_nonneg reach (canvas.size - 1)) (by omega : p.x.toNat < canvas.size)
    (by omega : p.y.toNat < canvas.size)
    ((path.rowSpan reach (canvas.size - 1)).2 - (path.rowSpan reach (canvas.size - 1)).1 + 1).toNat
  rw [Int.toNat_of_nonneg hpx, Int.toNat_of_nonneg hpy] at hcell
  rw [pixel?_eq_getElem? hbounds, pixel?_eq_getElem? hp]
  have hrun := Path.onRun_iff h hle hreach hpx (by omega : p.x ≤ (canvas.size : Int) - 1)
  constructor
  · intro hcover
    have hspan := Path.rowSpan_of_covers h hpy (by omega : p.y ≤ (canvas.size : Int) - 1) hcover
    exact hcell.trans (if_pos ⟨hspan.1, by omega, hrun.2 hcover⟩)
  · intro hcover
    exact hcell.trans (if_neg fun hpainted => hcover (hrun.1 hpainted.2.2))

theorem sweep_of_lt (canvas : Canvas) {path : Path} (h : path.last < path.first) (color : Color)
    (brush : Int) : canvas.sweep path color brush = canvas := if_pos h

theorem sweep_of_le (canvas : Canvas) {path : Path} (h : path.first ≤ path.last) (color : Color)
    (brush : Int) :
    canvas.sweep path color brush =
      canvas.sweepRows (path.near (brushReach brush) (canvas.size - 1)) color (brushReach brush) :=
  if_neg (not_lt.2 h)

/-- The color that a sweep along a steady path leaves at a place of the canvas. -/
theorem pixel?_sweep (canvas : Canvas) {path : Path} (h : path.Steady) (color : Color)
    (brush : Int) {p : Point} (hp : canvas.inBounds p = true) :
    (path.Covers (brushReach brush) p → (canvas.sweep path color brush).pixel? p = some color) ∧
      (¬ path.Covers (brushReach brush) p →
        (canvas.sweep path color brush).pixel? p = canvas.pixel? p) := by
  by_cases hlt : path.last < path.first
  · have hnever : ¬ path.Covers (brushReach brush) p := by
      rintro ⟨k, hk, hk', -⟩
      omega
    exact ⟨fun hcover => absurd hcover hnever, fun _ => by rw [sweep_of_lt canvas hlt]⟩
  have hreach := brushReach_nonneg brush
  obtain ⟨hnear, hle, hcovers⟩ := Path.near_spec h (not_lt.1 hlt) hreach
    (by omega : -1 ≤ (canvas.size : Int) - 1)
  obtain ⟨hpx, hpx', hpy, hpy'⟩ := (canvas.inBounds_iff p).1 hp
  rw [sweep_of_le canvas (not_lt.1 hlt), ← hcovers p hpx (by omega) hpy (by omega)]
  exact canvas.pixel?_sweepRows hnear hle color hreach hp

/-- What is far from the canvas makes no difference. -/
theorem sweepRows_eq_sweep (canvas : Canvas) {path : Path} (h : path.Steady)
    (hle : path.first ≤ path.last) (color : Color) (brush : Int) :
    canvas.sweepRows path color (brushReach brush) = canvas.sweep path color brush := by
  apply ext_pixel?
  · exact (canvas.size_sweep path color brush).symm
  · exact (canvas.background_sweep path color brush).symm
  · intro p hp
    have hrows := canvas.pixel?_sweepRows h hle color (brushReach_nonneg brush) hp
    have hsweep := canvas.pixel?_sweep h color brush hp
    by_cases hcover : path.Covers (brushReach brush) p
    · rw [hrows.1 hcover, hsweep.1 hcover]
    · rw [hrows.2 hcover, hsweep.2 hcover]

/-- Going by at most one column at a time is steady, however many rows are passed. -/
theorem steady_straight (first last : Int) (start : Point) {dx : Int} (hdx : |dx| ≤ 1)
    (dy : Int) : (Path.straight first last start dx dy).Steady where
  x_monotone := by
    simpa only [Path.straight, mul_comm dx] using (monotoneWithin_id ..).affine start.x dx
  y_monotone := by
    simpa only [Path.straight, mul_comm dy] using (monotoneWithin_id ..).affine start.y dy
  x_step k _ _ := by
    have hstep : start.x + (k + 1) * dx - (start.x + k * dx) = dx := by rw [Int.add_mul]; omega
    exact hstep.symm ▸ hdx

theorem steady_dot (p : Point) : (Path.dot p).Steady where
  x_monotone := .inl fun _ _ _ _ _ => le_rfl
  y_monotone := .inl fun _ _ _ _ _ => le_rfl
  x_step k hk hk' := by simp [Path.dot]

theorem covers_dot_iff (p q : Point) (reach : Int) :
    (Path.dot p).Covers reach q ↔ |p.x - q.x| ≤ reach ∧ |p.y - q.y| ≤ reach := by
  constructor
  · rintro ⟨k, -, -, hcover⟩
    exact hcover
  · intro hcover
    exact ⟨0, le_refl _, le_refl _, hcover⟩

def sweepAll (canvas : Canvas) (paths : List Path) (color : Color) (brush : Int) : Canvas :=
  paths.foldl (fun canvas path => canvas.sweep path color brush) canvas

theorem sweepAll_cons (canvas : Canvas) (path : Path) (paths : List Path) (color : Color)
    (brush : Int) : canvas.sweepAll (path :: paths) color brush =
      (canvas.sweep path color brush).sweepAll paths color brush := rfl

@[simp] theorem size_sweepAll (canvas : Canvas) (paths : List Path) (color : Color)
    (brush : Int) : (canvas.sweepAll paths color brush).size = canvas.size := by
  induction paths generalizing canvas with
  | nil => rfl
  | cons path paths ih => rw [sweepAll_cons, ih, size_sweep]

@[simp] theorem background_sweepAll (canvas : Canvas) (paths : List Path) (color : Color)
    (brush : Int) : (canvas.sweepAll paths color brush).background = canvas.background := by
  induction paths generalizing canvas with
  | nil => rfl
  | cons path paths ih => rw [sweepAll_cons, ih, background_sweep]

theorem pixel?_sweepAll (canvas : Canvas) {paths : List Path} (h : ∀ path ∈ paths, path.Steady)
    (color : Color) (brush : Int) {p : Point} (hp : canvas.inBounds p = true) :
    ((∃ path ∈ paths, path.Covers (brushReach brush) p) →
        (canvas.sweepAll paths color brush).pixel? p = some color) ∧
      ((¬ ∃ path ∈ paths, path.Covers (brushReach brush) p) →
        (canvas.sweepAll paths color brush).pixel? p = canvas.pixel? p) := by
  induction paths generalizing canvas with
  | nil => simp [sweepAll]
  | cons path paths ih =>
    have hfirst := pixel?_sweep canvas (h path List.mem_cons_self) color brush hp
    have hrest := ih (canvas.sweep path color brush)
      (fun path hpath => h path (List.mem_cons_of_mem _ hpath))
      (by rw [inBounds, size_sweep]; exact hp)
    rw [sweepAll_cons]
    by_cases hlater : ∃ path ∈ paths, path.Covers (brushReach brush) p
    · obtain ⟨path', hmem, hcover⟩ := hlater
      exact ⟨fun _ => hrest.1 ⟨path', hmem, hcover⟩,
        fun hnone => absurd ⟨path', List.mem_cons_of_mem _ hmem, hcover⟩ hnone⟩
    · rw [hrest.2 hlater]
      refine ⟨fun hsome => ?_, fun hnone => ?_⟩
      · obtain ⟨path', hmem, hcover⟩ := hsome
        rcases List.mem_cons.1 hmem with rfl | hmem
        · exact hfirst.1 hcover
        · exact absurd ⟨path', hmem, hcover⟩ hlater
      · exact hfirst.2 fun hcover => hnone ⟨path, List.mem_cons_self, hcover⟩

/-- Steady paths that cover the same places leave the same canvas. -/
theorem sweepAll_congr (canvas : Canvas) {paths paths' : List Path}
    (h : ∀ path ∈ paths, path.Steady) (h' : ∀ path ∈ paths', path.Steady) (color : Color)
    (brush : Int) (hcovers : ∀ p, (∃ path ∈ paths, path.Covers (brushReach brush) p) ↔
      ∃ path ∈ paths', path.Covers (brushReach brush) p) :
    canvas.sweepAll paths color brush = canvas.sweepAll paths' color brush := by
  apply ext_pixel?
  · rw [size_sweepAll, size_sweepAll]
  · rw [background_sweepAll, background_sweepAll]
  · intro p hp
    rw [inBounds, size_sweepAll] at hp
    have hpixel := canvas.pixel?_sweepAll h color brush hp
    have hpixel' := canvas.pixel?_sweepAll h' color brush hp
    rw [← hcovers] at hpixel'
    by_cases hcover : ∃ path ∈ paths, path.Covers (brushReach brush) p
    · rw [hpixel.1 hcover, hpixel'.1 hcover]
    · rw [hpixel.2 hcover, hpixel'.2 hcover]

def stampAll (canvas : Canvas) (points : List Point) (color : Color) (brush : Int) : Canvas :=
  points.foldl (fun canvas p => canvas.stamp p color brush) canvas

theorem stampAll_eq_sweepAll (canvas : Canvas) (points : List Point) (color : Color)
    (brush : Int) :
    canvas.stampAll points color brush = canvas.sweepAll (points.map Path.dot) color brush := by
  rw [sweepAll, List.foldl_map]
  rfl

theorem exists_covers_dot_iff (path : Path) (reach : Int) (q : Point) :
    (∃ dot ∈ path.points.map Path.dot, dot.Covers reach q) ↔ path.Covers reach q := by
  simp only [List.mem_map, exists_exists_and_eq_and, covers_dot_iff]
  constructor
  · rintro ⟨p, hmem, hcover⟩
    obtain ⟨i, hi, rfl⟩ := List.mem_map.1 hmem
    have hlt := List.mem_range.1 hi
    exact ⟨path.first + i, by omega, by omega, hcover⟩
  · rintro ⟨k, hk, hk', hcover⟩
    refine ⟨path.point k, List.mem_map.2 ⟨(k - path.first).toNat, ?_, ?_⟩, hcover⟩
    · exact List.mem_range.2 (by omega)
    · rw [Int.toNat_of_nonneg (by omega), add_sub_cancel]

/-- Sweeping the brush along a path is the same as stamping it on the places of the path one after
another. -/
theorem sweep_eq_stampAll (canvas : Canvas) {path : Path} (color : Color) (brush : Int)
    (h : path.Steady) :
    canvas.sweep path color brush = canvas.stampAll path.points color brush := by
  rw [stampAll_eq_sweepAll]
  apply ext_pixel?
  · rw [size_sweep, size_sweepAll]
  · rw [background_sweep, background_sweepAll]
  · intro p hp
    rw [inBounds, size_sweep] at hp
    have hdots : ∀ dot ∈ path.points.map Path.dot, dot.Steady := by
      intro dot hdot
      obtain ⟨q, -, rfl⟩ := List.mem_map.1 hdot
      exact steady_dot q
    have hsweep := canvas.pixel?_sweep h color brush hp
    have hstamps := canvas.pixel?_sweepAll hdots color brush hp
    rw [exists_covers_dot_iff] at hstamps
    by_cases hcover : path.Covers (brushReach brush) p
    · rw [hsweep.1 hcover, hstamps.1 hcover]
    · rw [hsweep.2 hcover, hstamps.2 hcover]

end Canvas

end Brushwork

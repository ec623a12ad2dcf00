import Brushwork.Config
import Brushwork.Proofs.Canvas.Range
import Brushwork.Proofs.Canvas.Sweep

/-!
# Sweeps in numbers of 128 bits

In numbers of 128 bits a sweep is trapped or leaves the canvas of `Canvas.sweep`. It is
not trapped where the path leaves room for its searches, and its places room for the
reach of the brush, before the ends of the words; so not along a path whose numbers are
not much greater than 64 bits.
-/

namespace Brushwork

open Wide

/-- A number of not much more than 64 bits. -/
structure Moderate (n : Int) : Prop where
  neg_le : -18446744073709551616 ≤ n
  le : n ≤ 18446744073709551616

namespace Moderate

variable {a b : Int}

protected theorem min (ha : Moderate a) (hb : Moderate b) : Moderate (min a b) :=
  ⟨le_min ha.neg_le hb.neg_le, (min_le_left a b).trans ha.le⟩

protected theorem max (ha : Moderate a) (hb : Moderate b) : Moderate (max a b) :=
  ⟨ha.neg_le.trans (le_max_left a b), max_le ha.le hb.le⟩

theorem between {k : Int} (ha : Moderate a) (hb : Moderate b) (h : a ≤ k) (h' : k ≤ b) :
    Moderate k :=
  ⟨ha.neg_le.trans h, h'.trans hb.le⟩

theorem fits_add (ha : Moderate a) (hb : Moderate b) :
    leastWide ≤ a + b ∧ a + b ≤ greatestWide := by
  obtain ⟨hlow, hhigh⟩ := ha
  obtain ⟨hlow', hhigh'⟩ := hb
  simp only [leastWide, greatestWide]
  omega

theorem fits_sub (ha : Moderate a) (hb : Moderate b) :
    leastWide ≤ a - b ∧ a - b ≤ greatestWide := by
  obtain ⟨hlow, hhigh⟩ := ha
  obtain ⟨hlow', hhigh'⟩ := hb
  simp only [leastWide, greatestWide]
  omega

theorem signed_self (ha : Moderate a) : signed a = .ok a := by
  obtain ⟨hlow, hhigh⟩ := ha
  apply signed_eq_ok
  simp only [leastWide, greatestWide]
  omega

end Moderate

/-- A path has room for its searches, and its places for a brush, before the ends of the words. -/
structure Path.FitsWide (path : Path) (reach : Int) : Prop where
  before : leastWide < path.first
  room : RoomBetween path.first (path.last + 1)
  x_fits : ∀ k, path.first ≤ k → k ≤ path.last →
    leastWide ≤ path.x k - reach ∧ path.x k + reach ≤ greatestWide
  y_fits : ∀ k, path.first ≤ k → k ≤ path.last →
    leastWide ≤ path.y k - reach ∧ path.y k + reach ≤ greatestWide

/-- Between the ends of a path its places are computed as they are. -/
structure WidePath.Follows (wide : WidePath) (path : Path) : Prop where
  first_eq : wide.first = path.first
  last_eq : wide.last = path.last
  place_eq : ∀ k, path.first ≤ k → k ≤ path.last → wide.place k = .ok (path.point k)

/-- The places of a path are computed as they are, and their numbers are moderate. -/
structure WidePath.FollowsModerate (wide : WidePath) (path : Path) : Prop where
  first_eq : wide.first = path.first
  last_eq : wide.last = path.last
  first_moderate : Moderate path.first
  last_moderate : Moderate path.last
  place_spec : ∀ {k}, path.first ≤ k → k ≤ path.last →
    wide.place k = .ok (path.point k) ∧ Moderate (path.x k) ∧ Moderate (path.y k)

theorem WidePath.FollowsModerate.follows {wide : WidePath} {path : Path}
    (h : wide.FollowsModerate path) : wide.Follows path where
  first_eq := h.first_eq
  last_eq := h.last_eq
  place_eq _ hk hk' := (h.place_spec hk hk').1

theorem WidePath.FollowsModerate.fitsWide {wide : WidePath} {path : Path}
    (h : wide.FollowsModerate path) {reach : Int} (hreach : Moderate reach) :
    path.FitsWide reach where
  before := by
    obtain ⟨hlow, -⟩ := h.first_moderate
    simp only [leastWide]
    omega
  room := by
    obtain ⟨hlow, hhigh⟩ := h.first_moderate
    obtain ⟨hlow', hhigh'⟩ := h.last_moderate
    constructor
    · simp only [leastWide]
      omega
    · simp only [greatestWide]
      omega
    · simp only [greatestWide]
      omega
  x_fits k hk hk' := by
    have hx := (h.place_spec hk hk').2.1
    exact ⟨(hx.fits_sub hreach).1, (hx.fits_add hreach).2⟩
  y_fits k hk hk' := by
    have hy := (h.place_spec hk hk').2.2
    exact ⟨(hy.fits_sub hreach).1, (hy.fits_add hreach).2⟩

theorem WidePath.follows_known (path : Path) : (WidePath.known path).Follows path where
  first_eq := rfl
  last_eq := rfl
  place_eq _ _ _ := rfl

namespace Canvas

/-- Every cell of a run inside its row is found. -/
theorem paintRunWide_eq (canvas : Canvas) (color : Color) {row column : Int} {count : Nat}
    (hrow : 0 ≤ row) (hrow' : row < canvas.size) (hcolumn : 0 ≤ column)
    (hcount : 0 < count → column + count ≤ canvas.size) :
    canvas.paintRunWide color row column count = .ok (canvas.repaint
      (paintRun color canvas.pixels (row.toNat * canvas.size + column.toNat) count)
      (size_paintRun ..)) := by
  induction count generalizing canvas column with
  | zero => rfl
  | succ count ih =>
    have hbounds : canvas.inBounds ⟨column, row⟩ = true :=
      (canvas.inBounds_iff _).2 ⟨hcolumn, by dsimp only; omega, hrow, hrow'⟩
    have hcell : canvas.recolorWide (canvas.index ⟨column, row⟩) color =
        .ok (canvas.recolor (canvas.index ⟨column, row⟩) color) :=
      if_pos (canvas.size_pixels ▸ canvas.index_lt hbounds)
    have hnext : (column + 1).toNat = column.toNat + 1 := by omega
    have hrest := ih (canvas.recolor (canvas.index ⟨column, row⟩) color) hrow'
      (by omega : 0 ≤ column + 1) (by rw [size_recolor]; omega)
    simp only [hnext] at hrest
    rw [paintRunWide, hcell, ok_bind]
    exact hrest

section Sweeping

variable {wide : WidePath} {path : Path} {reach row : Int}

theorem computes_rangeOnRow (h : wide.Follows path) (hle : path.first ≤ path.last)
    (low high : Int) :
    Computes (rangeWithinWide (fun k => return (← wide.place k).y) path.first path.last low high)
      (rangeWithin path.y path.first path.last low high) (path.FitsWide reach) := by
  have hrows : ∀ k, path.first ≤ k → k ≤ path.last →
      (do return (← wide.place k).y : Wide Int) = .ok (path.y k) := by
    intro k hk hk'
    rw [h.place_eq k hk hk']
    rfl
  have hrange := computes_rangeWithinWide low high hle hrows
  exact hrange.mono fun hfits => ⟨hfits.before, hfits.room⟩

/-- A row is painted as it is, or a trap is met. -/
theorem computes_paintRowWide (h : wide.Follows path) (hle : path.first ≤ path.last)
    (canvas : Canvas) (color : Color) (hreach : Moderate reach) (hreach' : 0 ≤ reach)
    (hrow : 0 ≤ row) (hrow' : row < canvas.size) (hsize : Moderate canvas.size) :
    Computes (canvas.paintRowWide wide color reach (canvas.size - 1) row)
      (canvas.repaint (paintRow path color reach canvas.size canvas.pixels row)
        (size_paintRow ..)) (path.FitsWide reach) := by
  have hplace : Moderate row := by
    obtain ⟨-, hsize⟩ := hsize
    exact ⟨by omega, by omega⟩
  rw [paintRowWide, h.first_eq, h.last_eq]
  apply (computes_signed fun _ => hplace.fits_sub hreach).bind
  apply (computes_signed fun _ => hplace.fits_add hreach).bind
  apply (computes_rangeOnRow h hle _ _).bind
  cases hfound : rangeWithin path.y path.first path.last (row - reach) (row + reach) with
  | none =>
    have hrun : path.runOnRow reach (canvas.size - 1) row = none := by rw [Path.runOnRow, hfound]
    simp only [paintRow, hrun]
    exact computes_ok canvas _
  | some range =>
    obtain ⟨start, stop⟩ := range
    obtain ⟨hstart, hbetween, hstop⟩ := rangeWithin_bounds hle hfound
    have hrun : path.runOnRow reach (canvas.size - 1) row =
        some (max (min (path.x start) (path.x stop) - reach) 0,
          min (max (path.x start) (path.x stop) + reach) (canvas.size - 1)) := by
      rw [Path.runOnRow, hfound]
    simp only [paintRow, hrun]
    rw [h.place_eq start hstart (by omega), ok_bind, h.place_eq stop (by omega) hstop, ok_bind]
    dsimp only [Path.point]
    refine (computes_signed fun hfits => ?_).bind ((computes_signed fun hfits => ?_).bind ?_)
    · have hleft := hfits.x_fits start hstart (by omega)
      have hright := hfits.x_fits stop (by omega) hstop
      omega
    · have hleft := hfits.x_fits start hstart (by omega)
      have hright := hfits.x_fits stop (by omega) hstop
      omega
    · rw [canvas.paintRunWide_eq color hrow hrow' (le_max_right _ _) (by omega)]
      exact computes_ok _ _

theorem computes_paintRowsWide (h : wide.Follows path) (hle : path.first ≤ path.last)
    (canvas : Canvas) (color : Color) {count : Nat} (hreach : Moderate reach)
    (hreach' : 0 ≤ reach) (hrow : 0 ≤ row) (hcount : 0 < count → row + count ≤ canvas.size)
    (hsize : Moderate canvas.size) :
    Computes (canvas.paintRowsWide wide color reach (canvas.size - 1) row count)
      (canvas.repaint (paintRows path color reach canvas.size canvas.pixels row count)
        (size_paintRows ..)) (path.FitsWide reach) := by
  induction count generalizing canvas row with
  | zero => exact computes_ok canvas _
  | succ count ih =>
    have hfirst := computes_paintRowWide h hle canvas color hreach hreach' hrow (by omega) hsize
    rw [paintRowsWide]
    apply hfirst.bind
    exact ih (canvas.repaint (paintRow path color reach canvas.size canvas.pixels row)
      (size_paintRow ..)) (by omega : 0 ≤ row + 1) (by dsimp only [repaint]; omega) hsize

/-- A brush of a word does not reach far. -/
theorem moderate_brushReach {brush : Int} (h : fitsWord brush = true) :
    Moderate (brushReach brush) := by
  rw [fitsWord_iff, greatestWord] at h
  have := brushReach_nonneg brush
  exact ⟨by omega, by rw [brushReach]; omega⟩

theorem sweep_of_empty {canvas : Canvas} (h : canvas.size = 0) (path : Path) (color : Color)
    (brush : Int) : canvas.sweep path color brush = canvas := by
  apply ext_pixel?
  · rw [size_sweep]
  · rw [background_sweep]
  · intro p hp
    rw [inBounds_iff, size_sweep] at hp
    omega

/-- A sweep in numbers of 128 bits is the sweep, or a trap is met. -/
theorem computes_sweepWide (h : wide.Follows path) (hsteady : path.Steady) (canvas : Canvas)
    (color : Color) {brush : Int} (hbrush : fitsWord brush = true)
    (hsize : Moderate canvas.size) :
    Computes (canvas.sweepWide wide color brush) (canvas.sweep path color brush)
      (path.last < path.first ∨ canvas.size = 0 ∨ path.FitsWide (brushReach brush)) := by
  rw [sweepWide, h.first_eq, h.last_eq]
  by_cases hlt : path.last < path.first
  · rw [if_pos (.inl hlt), sweep_of_lt canvas hlt]
    exact computes_ok canvas _
  by_cases hempty : canvas.size = 0
  · rw [if_pos (.inr hempty), sweep_of_empty hempty]
    exact computes_ok canvas _
  rw [if_neg (not_or.2 ⟨hlt, hempty⟩)]
  have hle := not_lt.1 hlt
  have hreach := moderate_brushReach hbrush
  have hreach' := brushReach_nonneg brush
  have hedge : Moderate ((canvas.size : Int) - 1) := by
    obtain ⟨-, hsize⟩ := hsize
    exact ⟨by omega, by omega⟩
  suffices hrows : Computes _ (canvas.sweep path color brush) (path.FitsWide (brushReach brush)) by
    exact hrows.mono fun hsafe => (hsafe.resolve_left hlt).resolve_left hempty
  rw [hreach.signed_self, ok_bind, hedge.signed_self, ok_bind, h.place_eq _ le_rfl hle, ok_bind,
    h.place_eq _ hle le_rfl, ok_bind, ← canvas.sweepRows_eq_sweep hsteady hle]
  dsimp only [Path.point]
  refine (computes_signed fun hfits => ?_).bind ((computes_signed fun hfits => ?_).bind ?_)
  · have hfirst := hfits.y_fits _ le_rfl hle
    have hlast := hfits.y_fits _ hle le_rfl
    omega
  · have hfirst := hfits.y_fits _ le_rfl hle
    have hlast := hfits.y_fits _ hle le_rfl
    omega
  · exact computes_paintRowsWide h hle canvas color hreach hreach' (le_max_right _ _) (by omega)
      hsize

/-- A sweep along a path with moderate numbers meets no trap. -/
theorem sweepWide_eq (h : wide.FollowsModerate path) (hsteady : path.Steady) (canvas : Canvas)
    (color : Color) {brush : Int} (hbrush : fitsWord brush = true)
    (hsize : canvas.size ≤ greatestCanvasSize) :
    canvas.sweepWide wide color brush = .ok (canvas.sweep path color brush) := by
  have hsize' : Moderate canvas.size := by
    rw [greatestCanvasSize] at hsize
    exact ⟨by omega, by omega⟩
  have hfits := h.fitsWide (moderate_brushReach hbrush)
  exact (computes_sweepWide h.follows hsteady canvas color hbrush hsize').total (.inr (.inr hfits))

end Sweeping

section Stamping

variable {brush : Int}

theorem fitsWide_dot {p : Point} (hx : fitsWord p.x = true) (hy : fitsWord p.y = true)
    {reach : Int} (hreach : Moderate reach) : (Path.dot p).FitsWide reach := by
  rw [fitsWord_iff, leastWord, greatestWord] at hx hy
  obtain ⟨hlow, hhigh⟩ := hreach
  constructor
  · exact (by decide : leastWide < 0)
  · exact (⟨by decide, by decide, by decide⟩ : RoomBetween 0 (0 + 1))
  · intro k _ _
    simp only [Path.dot, leastWide, greatestWide]
    omega
  · intro k _ _
    simp only [Path.dot, leastWide, greatestWide]
    omega

/-- Brushes that are stamped on places of 64 bits meet no trap. -/
theorem stampAllWide_eq (canvas : Canvas) {points : List Point}
    (h : ∀ p ∈ points, fitsWord p.x = true ∧ fitsWord p.y = true) (color : Color)
    (hbrush : fitsWord brush = true) (hsize : Moderate canvas.size) :
    canvas.stampAllWide points color brush = .ok (canvas.stampAll points color brush) := by
  induction points generalizing canvas with
  | nil => rfl
  | cons p points ih =>
    obtain ⟨⟨hx, hy⟩, hrest⟩ := List.forall_mem_cons.1 h
    have hfits := fitsWide_dot hx hy (moderate_brushReach hbrush)
    have hfirst := (computes_sweepWide (WidePath.follows_known (.dot p)) (steady_dot p) canvas
      color hbrush hsize).total (.inr (.inr hfits))
    have hsize' : Moderate (canvas.sweep (.dot p) color brush).size := by
      rw [size_sweep]
      exact hsize
    rw [stampAllWide, List.foldlM_cons, hfirst, ok_bind]
    exact ih _ hrest hsize'

end Stamping

/-- A sweep of a brush of 64 bits along a path with monotone coordinates whose columns move by at
most one at a time colors exactly the cells within reach of some place of the path, unless a number
comes up that does not fit 128 bits. It is the same as stamping the brush on the places of the path
one after another, as far as these are places of 64 bits. All numbers fit if there is nothing to do,
or if there are numbers before and behind the interval of the path, its length is one, and what
the brush reaches from each place is within 128 bits. -/
theorem sweepWide_eq_stampAll (canvas : Canvas) {wide : WidePath} {path : Path}
    (hwide : wide.Follows path) (h : path.Steady) (color : Color) {brush : Int}
    (hbrush : fitsWord brush = true) (hsize : canvas.size < 18446744073709551616) :
    (∀ after, canvas.sweepWide wide color brush = .ok after →
      (∀ p, canvas.inBounds p = true →
        (path.Covers (brushReach brush) p → after.pixel? p = some color) ∧
        (¬ path.Covers (brushReach brush) p → after.pixel? p = canvas.pixel? p)) ∧
      after.size = canvas.size ∧ after.background = canvas.background ∧
      after = canvas.stampAll path.points color brush ∧
      ((∀ p ∈ path.points, fitsWord p.x = true ∧ fitsWord p.y = true) →
        canvas.stampAllWide path.points color brush = .ok after)) ∧
    (path.last < path.first ∨ canvas.size = 0 ∨ path.FitsWide (brushReach brush) →
      ∃ after, canvas.sweepWide wide color brush = .ok after) := by
  have hsize' : Moderate canvas.size := ⟨by omega, by omega⟩
  have hcomputes := computes_sweepWide hwide h canvas color hbrush hsize'
  refine ⟨fun after hafter => ?_, fun hsafe => ⟨_, hcomputes.total hsafe⟩⟩
  rw [hcomputes.sound after hafter]
  refine ⟨fun p hp => canvas.pixel?_sweep h color brush hp, size_sweep .., background_sweep ..,
    canvas.sweep_eq_stampAll color brush h, fun hpoints => ?_⟩
  rw [canvas.sweep_eq_stampAll color brush h]
  exact canvas.stampAllWide_eq hpoints color hbrush hsize'

theorem sweepWide_eq_stampAll_diagonal :
    let path := Path.straight 0 6 ⟨1, 8⟩ 1 (-1)
    path.Steady ∧ (blank 10 .white).sweepWide (.known path) .red 3 =
      .ok ((blank 10 .white).stampAll path.points .red 3) := by
  intro path
  have hsteady : path.Steady := steady_straight 0 6 ⟨1, 8⟩ (by decide : |(1 : Int)| ≤ 1) (-1)
  have hfits : path.FitsWide (brushReach 3) := by
    constructor
    · decide
    · exact ⟨by decide, by decide, by decide⟩
    · intro k hk hk'
      simp only [path, Path.straight, brushReach, leastWide, greatestWide] at *
      omega
    · intro k hk hk'
      simp only [path, Path.straight, brushReach, leastWide, greatestWide] at *
      omega
  obtain ⟨hsound, hanswer⟩ := sweepWide_eq_stampAll (blank 10 .white) (WidePath.follows_known path)
    hsteady .red (by decide : fitsWord 3 = true) (by decide)
  obtain ⟨after, hafter⟩ := hanswer (.inr (.inr hfits))
  obtain ⟨-, -, -, hstamps, -⟩ := hsound after hafter
  exact ⟨hsteady, hstamps ▸ hafter⟩

/-- Behind the last number there is none, so the search of the first row is trapped. -/
example : (blank 10 .white).sweepWide
    (.known ⟨greatestWide, greatestWide, fun _ => 0, fun _ => 0⟩) .red 1 =
      .error (.signed (greatestWide + 1)) := rfl

end Canvas

end Brushwork

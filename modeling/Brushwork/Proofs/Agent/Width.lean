import Mathlib.Data.List.Forall2
import Brushwork.Proofs.Agent.Circle
import Brushwork.Proofs.Agent.Rectangle
import Brushwork.Proofs.Canvas.Width

/-!
# Drawing in numbers of 128 bits

Radii, widths and brushes may be as great as a word of 64 bits allows, far from the
canvas and at the very end of the plane. The figures are drawn once more in numbers
of 128 bits: signed ones for places, unsigned ones for the squares under a circle.
None of them is too great and no difference is below zero, so the drawing is that in
numbers without bound.
-/

namespace Brushwork

open Wide

theorem Wide.unsigned_natCast {n : Nat} (h : n < 340282366920938463463374607431768211456) :
    unsigned n = .ok (n : Int) := by
  apply if_pos
  simp only [greatestUnsigned]
  omega

namespace Octant

/-- `height` in unsigned numbers of 128 bits, for columns within the radius. -/
def heightWide (r t : Int) : Wide Int :=
  if t ≤ r then do
    let whole ← unsigned (r * r)
    let part ← unsigned (t * t)
    let rest ← unsigned (whole - part)
    let s : Int := floorSqrt rest.toNat
    let next ← unsigned (s + 1)
    let above ← unsigned (next * next)
    let excess ← unsigned (above - rest)
    let below ← unsigned (s * s)
    let lack ← unsigned (rest - below)
    return if excess < lack then next else s
  else throw (.beyondRadius r t)

/-- `lastColumnFrom` in unsigned numbers of 128 bits. -/
def lastColumnWide (r lo hi : Int) : Wide Int :=
  if lo < hi then do
    let _ ← unsigned (hi - lo)
    let mid := lo + (hi - lo + 1) / 2
    let _ ← unsigned mid
    if mid ≤ (← heightWide r mid) then lastColumnWide r mid hi
    else
      let _ ← unsigned (mid - 1)
      lastColumnWide r lo (mid - 1)
  else return lo
termination_by (hi - lo).toNat
decreasing_by all_goals omega

/-- No square under a circle is greater than that of `2 ^ 63`. -/
theorem heightWide_eq {r t : Nat} (hr : r < 2 ^ 63) (ht : t ≤ r) :
    heightWide r t = .ok (height r t) := by
  have hsquares : t * t ≤ r * r := Nat.mul_self_le_mul_self ht
  have hwhole : r * r ≤ 2 ^ 63 * 2 ^ 63 := Nat.mul_self_le_mul_self hr.le
  obtain ⟨rest, hrest⟩ : ∃ rest, r * r - t * t = rest := ⟨_, rfl⟩
  obtain ⟨s, hs⟩ : ∃ s, floorSqrt rest = s := ⟨_, rfl⟩
  have hbelow : s * s ≤ rest := by
    rw [← hs, floorSqrt_eq]
    exact Nat.sqrt_le rest
  have habove : rest < (s + 1) * (s + 1) := by
    rw [← hs, floorSqrt_eq]
    exact Nat.lt_succ_sqrt rest
  have hsr : s ≤ r := Nat.mul_self_le_mul_self_iff.1 (by omega)
  have hnext : (s + 1) * (s + 1) ≤ 2 ^ 63 * 2 ^ 63 := Nat.mul_self_le_mul_self (by omega)
  have hheight : height r t =
      if (s + 1) * (s + 1) - rest < rest - s * s then s + 1 else s := by
    rw [← hs, ← hrest]
    rfl
  rw [heightWide, if_pos (Int.ofNat_le.2 ht), ← Nat.cast_mul, unsigned_natCast (by omega), ok_bind,
    ← Nat.cast_mul, unsigned_natCast (by omega), ok_bind, ← Nat.cast_sub hsquares, hrest,
    unsigned_natCast (by omega), ok_bind]
  simp only [Int.toNat_natCast, hs]
  rw [← Nat.cast_add_one, unsigned_natCast (by omega), ok_bind, ← Nat.cast_mul,
    unsigned_natCast (by omega), ok_bind, ← Nat.cast_sub habove.le, unsigned_natCast (by omega),
    ok_bind, ← Nat.cast_mul, unsigned_natCast (by omega), ok_bind, ← Nat.cast_sub hbelow,
    unsigned_natCast (by omega), ok_bind, hheight, Nat.cast_ite]
  exact congrArg Except.ok (if_congr Nat.cast_lt rfl rfl)

example : heightWide (2 ^ 64) 0 = .error (.unsigned (2 ^ 128)) := rfl

/-- The two halves between which the search for the last column decides. -/
theorem lastColumnWide_of_lt {r lo hi : Nat} (hr : r < 2 ^ 63) (hhi : hi ≤ r) (h : lo < hi) :
    lastColumnWide r lo hi =
      if lo + (hi - lo + 1) / 2 ≤ height r (lo + (hi - lo + 1) / 2) then
        lastColumnWide r (lo + (hi - lo + 1) / 2 : Nat) hi
      else lastColumnWide r lo (lo + (hi - lo + 1) / 2 - 1 : Nat) := by
  obtain ⟨mid, hmid⟩ : ∃ mid, lo + (hi - lo + 1) / 2 = mid := ⟨_, rfl⟩
  have hcast : (lo : Int) + (hi - lo + 1) / 2 = mid := by omega
  have hbefore : (mid : Int) - 1 = (mid - 1 : Nat) := by omega
  rw [hmid, lastColumnWide, if_pos (Int.ofNat_lt.2 h), hcast, ← Nat.cast_sub h.le,
    unsigned_natCast (by omega), ok_bind]
  dsimp only
  rw [unsigned_natCast (by omega), ok_bind, heightWide_eq hr (by omega), ok_bind, hbefore,
    unsigned_natCast (by omega), ok_bind]
  exact if_congr Int.ofNat_le rfl rfl

theorem lastColumnWide_eq {r lo hi : Nat} (hr : r < 2 ^ 63) (hhi : hi ≤ r) :
    lastColumnWide r lo hi = .ok (lastColumnFrom r lo hi) := by
  fun_induction lastColumnFrom r lo hi with
  | case1 lo hi hlt mid hmid ih =>
    rw [lastColumnWide_of_lt hr hhi hlt, if_pos hmid]
    exact ih hhi
  | case2 lo hi hlt mid hmid ih =>
    rw [lastColumnWide_of_lt hr hhi hlt, if_neg hmid]
    exact ih (by omega)
  | case3 lo hi hlt =>
    rw [lastColumnWide, if_neg (mt Int.ofNat_lt.1 hlt)]
    rfl

end Octant

theorem fitsWord_of_le {k n : Int} (hk : 0 ≤ k) (hle : k ≤ n) (hn : fitsWord n = true) :
    fitsWord k = true := by
  rw [fitsWord_iff, leastWord, greatestWord] at hn ⊢
  omega

theorem moderate_of_fitsWord {n : Int} (h : fitsWord n = true) : Moderate n := by
  rw [fitsWord_iff, leastWord, greatestWord] at h
  exact ⟨by omega, by omega⟩

namespace Wide

def along (start d distance : Int) : Wide Int := do
  let way ← signed (d * distance)
  signed (start + way)

variable {start d distance : Int}

theorem along_spec (hstart : fitsWord start = true) (hd : |d| ≤ 1)
    (hdistance : fitsWord distance = true) :
    along start d distance = .ok (start + d * distance) ∧ Moderate (start + d * distance) := by
  rw [fitsWord_iff, leastWord, greatestWord] at hstart hdistance
  obtain ⟨way, hway⟩ : ∃ way, d * distance = way := ⟨_, rfl⟩
  have hshort : -2 ^ 63 ≤ way ∧ way ≤ 2 ^ 63 := by
    obtain rfl | rfl | rfl := Int.abs_le_one_iff.1 hd
    · omega
    · omega
    · omega
  have hmoderate : Moderate way := ⟨by omega, by omega⟩
  have hmoderate' : Moderate (start + way) := ⟨by omega, by omega⟩
  rw [along, hway, hmoderate.signed_self, ok_bind, hmoderate'.signed_self]
  exact ⟨rfl, hmoderate'⟩

end Wide

namespace WidePath

def straight (first last : Int) (start : Point) (dx dy : Int) : WidePath where
  first := first
  last := last
  place k := return ⟨← along start.x dx k, ← along start.y dy k⟩

def height (r t : Int) : Wide Int := do
  let column ← unsigned t
  signed (← Octant.heightWide r column)

def verticalArc (center : Point) (r last : Int) (sign : Int × Int) : WidePath where
  first := 0
  last := last
  place t := return ⟨← along center.x sign.1 t, ← along center.y sign.2 (← height r t)⟩

def horizontalArc (center : Point) (r last : Int) (sign : Int × Int) : WidePath where
  first := 0
  last := last
  place t := return ⟨← along center.x sign.1 (← height r t), ← along center.y sign.2 t⟩

/-- Nothing is left to compute. -/
theorem followsModerate_known {path : Path} (hfirst : Moderate path.first)
    (hlast : Moderate path.last)
    (hplace : ∀ {k}, path.first ≤ k → k ≤ path.last → Moderate (path.x k) ∧ Moderate (path.y k)) :
    (known path).FollowsModerate path where
  first_eq := rfl
  last_eq := rfl
  first_moderate := hfirst
  last_moderate := hlast
  place_spec hk hk' := ⟨rfl, hplace hk hk'⟩

theorem follows_level {first last row : Int} (hfirst : Moderate first) (hlast : Moderate last)
    (hrow : Moderate row) :
    (known (.level first last row)).FollowsModerate (.level first last row) :=
  followsModerate_known hfirst hlast fun hk hk' => ⟨hfirst.between hlast hk hk', hrow⟩

theorem follows_upright {first last column : Int} (hfirst : Moderate first)
    (hlast : Moderate last) (hcolumn : Moderate column) :
    (known (.upright first last column)).FollowsModerate (.upright first last column) :=
  followsModerate_known hfirst hlast fun hk hk' => ⟨hcolumn, hfirst.between hlast hk hk'⟩

theorem follows_straight {last dx dy : Int} {start : Point} (hx : fitsWord start.x = true)
    (hy : fitsWord start.y = true) (hdx : |dx| ≤ 1) (hdy : |dy| ≤ 1)
    (hlast : fitsWord last = true) :
    (straight 1 last start dx dy).FollowsModerate (.straight 1 last start dx dy) where
  first_eq := rfl
  last_eq := rfl
  first_moderate := moderate_of_fitsWord (rfl : fitsWord 1 = true)
  last_moderate := moderate_of_fitsWord hlast
  place_spec := by
    intro k hk hk'
    have hfits : fitsWord k = true := fitsWord_of_le (Int.one_nonneg.trans hk) hk' hlast
    obtain ⟨hcolumn, hmoderate⟩ := along_spec hx hdx hfits
    obtain ⟨hrow, hmoderate'⟩ := along_spec hy hdy hfits
    simp only [straight, hcolumn, hrow, ok_bind, Path.point, Path.straight, mul_comm k]
    exact ⟨rfl, hmoderate, hmoderate'⟩

variable {r : Nat} {t : Int}

theorem height_eq (hr : fitsWord r = true) (ht : 0 ≤ t) (ht' : t ≤ r) :
    height r t = .ok (Octant.height r t.toNat : Int) := by
  obtain ⟨t, rfl⟩ := Int.eq_ofNat_of_zero_le ht
  rw [fitsWord_iff, greatestWord] at hr
  have hle : Octant.height r t ≤ r := Octant.height_le (by omega)
  have hmoderate : Moderate (Octant.height r t) := ⟨by omega, by omega⟩
  rw [height, unsigned_natCast (by omega), ok_bind, Octant.heightWide_eq (by omega) (by omega),
    ok_bind, Int.toNat_natCast, hmoderate.signed_self]

theorem fitsWord_height (hr : fitsWord r = true) (ht : 0 ≤ t) (ht' : t ≤ r) :
    fitsWord (Octant.height r t.toNat) = true :=
  fitsWord_of_le (Int.natCast_nonneg _) (Int.ofNat_le.2 (Octant.height_le (by omega))) hr

theorem abs_sign_le_one {sign : Int × Int} (h : sign ∈ signs) : |sign.1| ≤ 1 ∧ |sign.2| ≤ 1 := by
  revert sign
  decide

theorem le_of_le_lastColumn (h : t ≤ Octant.lastColumn r) : t ≤ r :=
  h.trans (Int.ofNat_le.2 (Octant.lastColumn_le r))

theorem fitsWord_lastColumn (hr : fitsWord r = true) : fitsWord (Octant.lastColumn r) = true :=
  fitsWord_of_le (Int.natCast_nonneg _) (le_of_le_lastColumn le_rfl) hr

section Arcs

variable {center : Point} {sign : Int × Int} (hx : fitsWord center.x = true)
  (hy : fitsWord center.y = true) (hr : fitsWord r = true) (hsign : sign ∈ signs)

include hx hy hr hsign

theorem follows_verticalArc :
    (verticalArc center r (Octant.lastColumn r) sign).FollowsModerate
      (Agent.verticalArc center r sign) where
  first_eq := rfl
  last_eq := rfl
  first_moderate := moderate_of_fitsWord (rfl : fitsWord 0 = true)
  last_moderate := moderate_of_fitsWord (fitsWord_lastColumn hr)
  place_spec := by
    intro t ht ht'
    have hle := le_of_le_lastColumn ht'
    obtain ⟨hsignX, hsignY⟩ := abs_sign_le_one hsign
    obtain ⟨hcolumn, hmoderate⟩ := along_spec hx hsignX (fitsWord_of_le ht hle hr)
    obtain ⟨hrow, hmoderate'⟩ := along_spec hy hsignY (fitsWord_height hr ht hle)
    simp only [verticalArc, hcolumn, height_eq hr ht hle, hrow, ok_bind]
    exact ⟨rfl, hmoderate, hmoderate'⟩

theorem follows_horizontalArc :
    (horizontalArc center r (Octant.lastColumn r) sign).FollowsModerate
      (Agent.horizontalArc center r sign) where
  first_eq := rfl
  last_eq := rfl
  first_moderate := moderate_of_fitsWord (rfl : fitsWord 0 = true)
  last_moderate := moderate_of_fitsWord (fitsWord_lastColumn hr)
  place_spec := by
    intro t ht ht'
    have hle := le_of_le_lastColumn ht'
    obtain ⟨hsignX, hsignY⟩ := abs_sign_le_one hsign
    obtain ⟨hcolumn, hmoderate⟩ := along_spec hx hsignX (fitsWord_height hr ht hle)
    obtain ⟨hrow, hmoderate'⟩ := along_spec hy hsignY (fitsWord_of_le ht hle hr)
    simp only [horizontalArc, height_eq hr ht hle, hcolumn, hrow, ok_bind]
    exact ⟨rfl, hmoderate, hmoderate'⟩

end Arcs

end WidePath

namespace Agent

/-- The paths along the arcs of a circle; the last column of the octant is searched first. -/
def arcsWide (center : Point) (radius : Int) : Wide (List WidePath) := do
  let r ← unsigned radius
  let column ← Octant.lastColumnWide r 0 r
  let last ← signed column
  return signs.flatMap fun sign =>
    [.verticalArc center r last sign, .horizontalArc center r last sign]

def sidesWide (center : Point) (width height : Int) : Wide (List WidePath) := do
  let left ← signed (center.x - width / 2)
  let right ← signed (center.x + width / 2)
  let top ← signed (center.y - height / 2)
  let bottom ← signed (center.y + height / 2)
  return [.known (.level left right top), .known (.level left right bottom),
    .known (.upright top bottom left), .known (.upright top bottom right)]

def paintWide (agent : Agent) (path : WidePath) : Wide Agent :=
  if agent.color = .transparent then return agent
  else return { agent with canvas := ← agent.canvas.sweepWide path agent.color agent.brush }

/-- Draws a figure, unless it was refused, along paths that are computed first. -/
def drawWide (agent : Agent) (figure : Except Fault Figure)
    (paths : (stop : Point) → Wide (List WidePath)) : Wide (Except Fault Agent) :=
  match figure with
  | .error fault => return .error fault
  | .ok figure => do
    let painted ← (← paths figure.stop).foldlM paintWide agent
    return .ok { painted with position := figure.stop }

def drawLineWide (agent : Agent) (dx dy distance : Int) : Wide (Except Fault Agent) :=
  agent.drawWide (agent.line dx dy distance) fun _ =>
    return [.straight 1 distance agent.position dx dy]

def drawCircleWide (agent : Agent) (dx dy radius : Int) : Wide (Except Fault Agent) :=
  agent.drawWide (agent.circle dx dy radius) fun center => arcsWide center radius

def drawRectangleWide (agent : Agent) (dx dy distance width height : Int) :
    Wide (Except Fault Agent) :=
  agent.drawWide (agent.rectangle dx dy distance width height) fun center =>
    sidesWide center width height

/-- A circle's arcs are found, and their places are computed. -/
theorem arcsWide_spec {center : Point} (hx : fitsWord center.x = true)
    (hy : fitsWord center.y = true) {radius : Int} (hradius : 0 ≤ radius)
    (hfits : fitsWord radius = true) :
    ∃ wides, arcsWide center radius = .ok wides ∧
      List.Forall₂ WidePath.FollowsModerate wides (arcs center radius.toNat) := by
  obtain ⟨r, rfl⟩ := Int.eq_ofNat_of_zero_le hradius
  have hbound : r < 2 ^ 63 := by
    rw [fitsWord_iff, greatestWord] at hfits
    omega
  have hlast := Octant.lastColumn_le r
  have hmoderate : Moderate (Octant.lastColumn r) := ⟨by omega, by omega⟩
  have hsearch : Octant.lastColumnWide r 0 r = .ok (Octant.lastColumn r : Int) :=
    Octant.lastColumnWide_eq hbound le_rfl
  have hwides : arcsWide center r = .ok (signs.flatMap fun sign =>
      [.verticalArc center r (Octant.lastColumn r) sign,
        .horizontalArc center r (Octant.lastColumn r) sign]) := by
    rw [arcsWide, unsigned_natCast (by omega), ok_bind, hsearch, ok_bind, hmoderate.signed_self,
      ok_bind]
    rfl
  refine ⟨_, hwides, ?_⟩
  rw [arcs_eq, Int.toNat_natCast, List.flatMap_def, List.flatMap_def]
  apply List.rel_flatten
  rw [List.forall₂_map_left_iff, List.forall₂_map_right_iff, List.forall₂_same]
  intro sign hsign
  exact .cons (WidePath.follows_verticalArc hx hy hfits hsign)
    (.cons (WidePath.follows_horizontalArc hx hy hfits hsign) .nil)

theorem sidesWide_spec {center : Point} (hx : fitsWord center.x = true)
    (hy : fitsWord center.y = true) {width height : Int} (hwidth : 0 ≤ width)
    (hheight : 0 ≤ height) (hwidth' : fitsWord width = true) (hheight' : fitsWord height = true) :
    ∃ wides, sidesWide center width height = .ok wides ∧
      List.Forall₂ WidePath.FollowsModerate wides (sides center width height) := by
  rw [fitsWord_iff, leastWord, greatestWord] at hx hy hwidth' hheight'
  have hleft : Moderate (center.x - width / 2) := ⟨by omega, by omega⟩
  have hright : Moderate (center.x + width / 2) := ⟨by omega, by omega⟩
  have htop : Moderate (center.y - height / 2) := ⟨by omega, by omega⟩
  have hbottom : Moderate (center.y + height / 2) := ⟨by omega, by omega⟩
  rw [sides_eq]
  refine ⟨_, ?_, .cons (WidePath.follows_level hleft hright htop)
    (.cons (WidePath.follows_level hleft hright hbottom)
      (.cons (WidePath.follows_upright htop hbottom hleft)
        (.cons (WidePath.follows_upright htop hbottom hright) .nil)))⟩
  rw [sidesWide, hleft.signed_self, ok_bind, hright.signed_self, ok_bind, htop.signed_self,
    ok_bind, hbottom.signed_self, ok_bind]
  rfl

variable {agent : Agent}

theorem paintWide_eq {wide : WidePath} {path : Path} (h : wide.FollowsModerate path)
    (hsteady : path.Steady) (hbrush : fitsWord agent.brush = true)
    (hsize : agent.canvas.size ≤ greatestCanvasSize) :
    agent.paintWide wide = .ok (agent.paint path) := by
  rw [paintWide, paint]
  split
  · rfl
  · rw [Canvas.sweepWide_eq h hsteady agent.canvas agent.color hbrush hsize]
    rfl

theorem foldlM_paintWide_eq {wides : List WidePath} {paths : List Path}
    (h : List.Forall₂ WidePath.FollowsModerate wides paths) (hsteady : ∀ path ∈ paths, path.Steady)
    (hbrush : fitsWord agent.brush = true) (hsize : agent.canvas.size ≤ greatestCanvasSize) :
    wides.foldlM paintWide agent = .ok (paths.foldl paint agent) := by
  induction h generalizing agent with
  | nil => rfl
  | @cons wide path wides paths hfirst hrest ih =>
    obtain ⟨hsteady, hsteady'⟩ := List.forall_mem_cons.1 hsteady
    have hpainted : agent.paint path = { agent with canvas := agent.paintedCanvas [path] } :=
      agent.foldl_paint [path]
    rw [List.foldlM_cons, paintWide_eq hfirst hsteady hbrush hsize, ok_bind, List.foldl_cons,
      hpainted]
    exact ih hsteady' hbrush ((size_paintedCanvas ..).trans_le hsize)

/-- Where all the paths are computed, no trap is met, and what is drawn is the figure. -/
theorem drawWide_eq {figure : Except Fault Figure} {paths : Point → Wide (List WidePath)}
    (hbrush : fitsWord agent.brush = true) (hsize : agent.canvas.size ≤ greatestCanvasSize)
    (h : ∀ found, figure = .ok found → (∃ wides, paths found.stop = .ok wides ∧
      List.Forall₂ WidePath.FollowsModerate wides found.paths) ∧
        ∀ path ∈ found.paths, path.Steady) :
    agent.drawWide figure paths = .ok (agent.draw <$> figure) := by
  cases figure with
  | error fault => rfl
  | ok figure =>
    obtain ⟨⟨wides, hwides, hcomputes⟩, hsteady⟩ := h figure rfl
    rw [drawWide, hwides, ok_bind, foldlM_paintWide_eq hcomputes hsteady hbrush hsize]
    rfl

/-- Nothing that is drawn needs more than 128 bits. -/
theorem wide_numbers_suffice (agent : Agent) (hx : fitsWord agent.position.x = true)
    (hy : fitsWord agent.position.y = true) (hbrush : fitsWord agent.brush = true)
    (hsize : agent.canvas.size ≤ 500) {dx dy : Int} (hdx : |dx| ≤ 1) (hdy : |dy| ≤ 1) :
    (∀ distance, fitsWord distance = true →
      agent.drawLineWide dx dy distance = .ok (agent.drawLine dx dy distance)) ∧
    (∀ radius, fitsWord radius = true →
      agent.drawCircleWide dx dy radius = .ok (agent.drawCircle dx dy radius)) ∧
    ∀ distance width height, fitsWord distance = true → fitsWord width = true →
      fitsWord height = true → agent.drawRectangleWide dx dy distance width height =
        .ok (agent.drawRectangle dx dy distance width height) := by
  refine ⟨fun distance hdistance => ?_, fun radius hradius => ?_,
    fun distance width height hdistance hwidth hheight => ?_⟩
  · apply drawWide_eq hbrush hsize
    intro figure hfigure
    obtain ⟨-, stop, -, rfl⟩ := line_eq_ok hfigure
    refine ⟨⟨_, rfl, .cons ?_ .nil⟩, ?_⟩
    · exact WidePath.follows_straight hx hy hdx hdy hdistance
    · exact List.forall_mem_singleton.2 (Canvas.steady_straight 1 distance _ hdx dy)
  · apply drawWide_eq hbrush hsize
    intro figure hfigure
    obtain ⟨hnonneg, center, hcenter, rfl⟩ := circle_eq_ok hfigure
    obtain ⟨hx, hy⟩ := fitsWord_of_destination hcenter
    exact ⟨arcsWide_spec hx hy hnonneg hradius, steady_of_mem_arcs _ _⟩
  · apply drawWide_eq hbrush hsize
    intro figure hfigure
    obtain ⟨⟨-, hwidth', hheight'⟩, center, hcenter, rfl⟩ := rectangle_eq_ok hfigure
    obtain ⟨hx, hy⟩ := fitsWord_of_destination hcenter
    exact ⟨sidesWide_spec hx hy hwidth' hheight' hwidth hheight, steady_of_mem_sides _ _ _⟩

theorem wide_numbers_suffice_at_the_ends :
    let agent : Agent :=
      { fresh 500 with position := ⟨greatestWord, leastWord⟩, brush := greatestWord }
    ∃ after, agent.drawCircleWide (-1) 1 greatestWord = .ok (.ok after) ∧
      after.position = ⟨0, -1⟩ := by
  intro agent
  obtain ⟨-, hcircle, -⟩ := wide_numbers_suffice agent rfl rfl rfl le_rfl
    (by decide : |(-1 : Int)| ≤ 1) (by decide : |(1 : Int)| ≤ 1)
  have hdrawn : agent.drawCircle (-1) 1 greatestWord =
      .ok (agent.draw ⟨arcs ⟨0, -1⟩ greatestWord.toNat, ⟨0, -1⟩⟩) := rfl
  exact ⟨_, (hcircle greatestWord rfl).trans (congrArg Except.ok hdrawn), rfl⟩

end Agent

end Brushwork

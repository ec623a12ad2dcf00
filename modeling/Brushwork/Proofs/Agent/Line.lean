import Mathlib.Logic.Function.Iterate
import Mathlib.Tactic.Ring
import Brushwork.Proofs.Agent.Figure

/-!
# Drawing a line is walking it

A stride takes the agent one place further in a direction and stamps its brush
there. Strides of a straight way cover together what the way covers, so a line that
is drawn leaves the agent that walks it stride by stride, and a line drawn in two
parts is the line drawn at once. A line is refused exactly when its length is
negative or its end does not fit the word.
-/

namespace Brushwork

/-- A straight way covers what its first part and the way on from there cover. -/
theorem Path.covers_straight_add (start : Point) (dx dy : Int) {m n : Int} (hm : 0 ≤ m)
    (hn : 0 ≤ n) (reach : Int) (p : Point) :
    (straight 1 (m + n) start dx dy).Covers reach p ↔
      (straight 1 m start dx dy).Covers reach p ∨
        (straight 1 n ⟨start.x + dx * m, start.y + dy * m⟩ dx dy).Covers reach p := by
  have hx : ∀ k, start.x + dx * m + k * dx = start.x + (m + k) * dx := fun k => by ring
  have hy : ∀ k, start.y + dy * m + k * dy = start.y + (m + k) * dy := fun k => by ring
  simp only [Covers, straight, hx, hy]
  constructor
  · intro h
    obtain ⟨k, hk, hk', hcover⟩ := h
    by_cases hfirst : k ≤ m
    · exact .inl ⟨k, hk, hfirst, hcover⟩
    · exact .inr ⟨k - m, by omega, by omega, by rwa [add_sub_cancel]⟩
  · intro h
    rcases h with ⟨k, hk, hk', hcover⟩ | ⟨k, hk, hk', hcover⟩
    · exact ⟨k, hk, by omega, hcover⟩
    · exact ⟨m + k, by omega, by omega, hcover⟩

namespace Agent

/-- The agent one place further in a direction, with its brush stamped on that place. -/
def stride (dx dy : Int) (agent : Agent) : Agent :=
  let place : Point := ⟨agent.position.x + dx, agent.position.y + dy⟩
  { agent with
    position := place
    canvas := if agent.color = .transparent then agent.canvas
      else agent.canvas.stamp place agent.color agent.brush }

def afterLine (agent : Agent) (dx dy distance : Int) : Agent :=
  agent.draw ⟨[.straight 1 distance agent.position dx dy], agent.ahead dx dy distance⟩

theorem afterLine_eq (agent : Agent) (dx dy distance : Int) :
    agent.afterLine dx dy distance =
      { agent with
        position := agent.ahead dx dy distance
        canvas := agent.paintedCanvas [.straight 1 distance agent.position dx dy] } :=
  draw_eq ..

theorem ahead_afterLine (agent : Agent) (dx dy m n : Int) :
    (agent.afterLine dx dy m).ahead dx dy n = agent.ahead dx dy (m + n) := by
  simp only [afterLine_eq, ahead, mul_add, add_assoc]

variable (agent : Agent) {dx : Int} (dy : Int)

theorem afterLine_zero (dx : Int) : agent.afterLine dx dy 0 = agent := by
  simp [afterLine_eq, ahead, paintedCanvas, Canvas.sweepAll, Canvas.sweep, Path.straight]

/-- A line over one place is a stride. -/
theorem afterLine_one (hdx : |dx| ≤ 1) : agent.afterLine dx dy 1 = agent.stride dx dy := by
  have hcanvas : agent.paintedCanvas [.straight 1 1 agent.position dx dy] =
      agent.paintedCanvas [.dot ⟨agent.position.x + dx, agent.position.y + dy⟩] := by
    apply paintedCanvas_congr
    · simpa using Canvas.steady_straight 1 1 agent.position hdx dy
    · simpa using Canvas.steady_dot _
    · intro p
      simp only [List.mem_singleton, exists_eq_left, Canvas.covers_dot_iff]
      constructor
      · intro h
        obtain ⟨k, hk, hk', hcover⟩ := h
        obtain rfl : k = 1 := le_antisymm hk' hk
        simpa [Path.straight] using hcover
      · intro hcover
        exact ⟨1, le_rfl, le_rfl, by simpa [Path.straight] using hcover⟩
  simp only [afterLine_eq, hcanvas, ahead, mul_one]
  rfl

/-- A line drawn in two parts is the line drawn at once. -/
theorem afterLine_add (hdx : |dx| ≤ 1) {m n : Int} (hm : 0 ≤ m) (hn : 0 ≤ n) :
    agent.afterLine dx dy (m + n) = (agent.afterLine dx dy m).afterLine dx dy n := by
  have hcanvas : agent.paintedCanvas [.straight 1 (m + n) agent.position dx dy] =
      agent.paintedCanvas [.straight 1 m agent.position dx dy,
        .straight 1 n (agent.ahead dx dy m) dx dy] := by
    apply paintedCanvas_congr
    · simpa using Canvas.steady_straight 1 (m + n) agent.position hdx dy
    · simpa using ⟨Canvas.steady_straight 1 m agent.position hdx dy,
        Canvas.steady_straight 1 n (agent.ahead dx dy m) hdx dy⟩
    · intro p
      simpa [ahead] using Path.covers_straight_add agent.position dx dy hm hn _ p
  rw [afterLine_eq, afterLine_eq (agent.afterLine dx dy m), ahead_afterLine, hcanvas]
  by_cases hcolor : agent.color = .transparent
  · simp [afterLine_eq, paintedCanvas, hcolor]
  · simp [afterLine_eq, paintedCanvas, hcolor, Canvas.sweepAll]

/-- A line that is not refused is walked stride by stride. -/
theorem afterLine_eq_iterate (hdx : |dx| ≤ 1) (n : Nat) :
    agent.afterLine dx dy n = (stride dx dy)^[n] agent := by
  induction n with
  | zero => exact agent.afterLine_zero dy dx
  | succ n ih =>
    rw [Function.iterate_succ_apply', ← ih, Nat.cast_succ,
      afterLine_add agent dy hdx (Int.natCast_nonneg n) Int.one_nonneg, afterLine_one _ dy hdx]

/-- Without an overflow no direction passes the check but those of unit length. -/
theorem checkDirection_eq_ok_iff {dx dy : Int} (h : directionOverflows dx dy = false) :
    checkDirection dx dy = .ok () ↔ |dx| ≤ 1 ∧ |dy| ≤ 1 := by
  obtain ⟨hdx, hdy⟩ : dx ≠ leastWord ∧ (magnitude dx ≤ 1 → dy ≠ leastWord) := by
    simpa [directionOverflows] using h
  rw [magnitude_of_ne hdx, Int.natCast_natAbs] at hdy
  rw [checkDirection, magnitude_of_ne hdx, Int.natCast_natAbs]
  by_cases hunit : |dx| ≤ 1
  · rw [magnitude_of_ne (hdy hunit), Int.natCast_natAbs]
    simp [hunit]
  · simp [hunit]

theorem checkDirection_of_unit {dx dy : Int} (hdx : |dx| ≤ 1) (hdy : |dy| ≤ 1) :
    checkDirection dx dy = .ok () := by
  obtain rfl | rfl | rfl := Int.abs_le_one_iff.1 hdx <;>
    obtain rfl | rfl | rfl := Int.abs_le_one_iff.1 hdy <;> rfl

/-- The end of a line lies between two places: where it starts and where a longer one ends. -/
theorem fitsWord_between {d start m n : Int} (hd : |d| ≤ 1) (hm : 0 ≤ m) (hmn : m ≤ n)
    (hstart : fitsWord start = true) (hstop : fitsWord (start + d * n) = true) :
    fitsWord (start + d * m) = true := by
  rw [fitsWord_iff] at hstart hstop ⊢
  obtain rfl | rfl | rfl := Int.abs_le_one_iff.1 hd
  · omega
  · omega
  · omega

/-- Only the coordinate that is reached can fail to fit the word. -/
theorem offset_eq_inWord {d distance : Int} (hd : |d| ≤ 1) (hdistance : 0 ≤ distance)
    (hfits : fitsWord distance = true) (start : Int) :
    offset start d distance = inWord (start + d * distance) := by
  have hway : fitsWord (d * distance) = true := by
    rw [fitsWord_iff, leastWord, greatestWord] at hfits ⊢
    obtain rfl | rfl | rfl := Int.abs_le_one_iff.1 hd
    · omega
    · omega
    · omega
  rw [offset, inWord_eq_ok_iff.2 ⟨hway, rfl⟩, ok_bind]

theorem drawLine_eq {dy : Int} (hdx : |dx| ≤ 1) (hdy : |dy| ≤ 1) {distance : Int}
    (hfits : fitsWord distance = true) :
    agent.drawLine dx dy distance =
      if distance < 0 then .error (.negativeLength .distance distance)
      else if fitsWord (agent.position.x + dx * distance) &&
          fitsWord (agent.position.y + dy * distance) then
        .ok (agent.afterLine dx dy distance)
      else .error .overflow := by
  by_cases hnegative : distance < 0
  · rw [drawLine, line, checkDirection_of_unit hdx hdy, checkLength, if_pos hnegative,
      if_pos hnegative]
    rfl
  · have hdistance : 0 ≤ distance := by omega
    rw [drawLine, line, checkDirection_of_unit hdx hdy, checkLength_eq_ok_iff.2 hdistance,
      destination, offset_eq_inWord hdx hdistance hfits, offset_eq_inWord hdy hdistance hfits,
      if_neg hnegative]
    simp only [inWord]
    cases fitsWord (agent.position.x + dx * distance) with
    | false => rfl
    | true =>
      cases fitsWord (agent.position.y + dy * distance) with
      | false => rfl
      | true => rfl

theorem drawLine_eq_ok_iff {dy : Int} (hdx : |dx| ≤ 1) (hdy : |dy| ≤ 1) {distance : Int}
    (hfits : fitsWord distance = true) {after : Agent} :
    agent.drawLine dx dy distance = .ok after ↔
      0 ≤ distance ∧ fitsWord (agent.ahead dx dy distance).x = true ∧
        fitsWord (agent.ahead dx dy distance).y = true ∧
        agent.afterLine dx dy distance = after := by
  rw [drawLine_eq agent hdx hdy hfits]
  by_cases hnegative : distance < 0
  · simp [hnegative]
  · rw [if_neg hnegative, ahead]
    by_cases hend : fitsWord (agent.position.x + dx * distance) = true ∧
        fitsWord (agent.position.y + dy * distance) = true
    · simp [hend, not_lt.1 hnegative]
    · rw [if_neg (by rwa [Bool.and_eq_true])]
      simp only [reduceCtorEq, false_iff]
      intro h
      exact hend ⟨h.2.1, h.2.2.1⟩

/-- A line of a negative length is refused, then one whose end does not fit the word, and any other
is walked stride by stride. Hence a line is also drawn in two parts. -/
theorem drawLine_eq_walk (agent : Agent) (dx dy : Int) (hdx : |dx| ≤ 1) (hdy : |dy| ≤ 1) :
    (∀ distance, fitsWord distance = true → agent.drawLine dx dy distance =
      if distance < 0 then .error (.negativeLength .distance distance)
      else if fitsWord (agent.position.x + dx * distance) &&
          fitsWord (agent.position.y + dy * distance) then
        .ok ((stride dx dy)^[distance.toNat] agent)
      else .error .overflow) ∧
    (fitsWord agent.position.x = true → fitsWord agent.position.y = true →
      ∀ a b after, 0 ≤ a → 0 ≤ b → fitsWord (a + b) = true →
        agent.drawLine dx dy (a + b) = .ok after →
        (agent.drawLine dx dy a >>= fun there => there.drawLine dx dy b) = .ok after) := by
  constructor
  · intro distance hfits
    rw [drawLine_eq agent hdx hdy hfits]
    by_cases hnegative : distance < 0
    · rw [if_pos hnegative, if_pos hnegative]
    · rw [if_neg hnegative, if_neg hnegative, ← afterLine_eq_iterate agent dy hdx,
        Int.toNat_of_nonneg (by omega)]
  · intro hx hy a b after ha hb hfits hdrawn
    have hpart : ∀ m, 0 ≤ m → m ≤ a + b → fitsWord m = true := by
      intro m hm hle
      rw [fitsWord_iff, leastWord, greatestWord] at hfits ⊢
      omega
    rw [drawLine_eq_ok_iff agent hdx hdy hfits] at hdrawn
    obtain ⟨-, hendx, hendy, rfl⟩ := hdrawn
    have hfirst : agent.drawLine dx dy a = .ok (agent.afterLine dx dy a) := by
      rw [drawLine_eq_ok_iff agent hdx hdy (hpart a ha (by omega))]
      exact ⟨ha, fitsWord_between hdx ha (by omega) hx hendx,
        fitsWord_between hdy ha (by omega) hy hendy, rfl⟩
    rw [hfirst, ok_bind, drawLine_eq_ok_iff _ hdx hdy (hpart b hb (by omega)), ahead_afterLine,
      afterLine_add agent dy hdx ha hb]
    exact ⟨hb, hendx, hendy, rfl⟩

theorem drawLine_eq_walk_across :
    let agent : Agent := { fresh 10 with position := ⟨-2, 11⟩, brush := 3 }
    agent.drawLine 1 (-1) 13 = .ok ((stride 1 (-1))^[13] agent) ∧
      (agent.drawLine 1 (-1) 5 >>= fun there => there.drawLine 1 (-1) 8) =
        .ok ((stride 1 (-1))^[13] agent) := by
  intro agent
  obtain ⟨hwalk, hparts⟩ := drawLine_eq_walk agent 1 (-1) (by decide) (by decide)
  have hdrawn : agent.drawLine 1 (-1) 13 = .ok ((stride 1 (-1))^[13] agent) := hwalk 13 (by decide)
  exact ⟨hdrawn, hparts (by decide) (by decide) 5 8 _ (by decide) (by decide) (by decide) hdrawn⟩

end Agent

end Brushwork

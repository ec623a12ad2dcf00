import Brushwork.Agent.Drawing
import Brushwork.Proofs.Canvas.Sweep
import Brushwork.Proofs.Refusal

/-!
# What drawing a figure changes

Drawing a figure sweeps the brush along its paths and moves the agent to its end.
A transparent brush leaves the canvas alone, and nothing but the canvas and the
place of the agent changes.
-/

namespace Brushwork.Agent

def paintedCanvas (agent : Agent) (paths : List Path) : Canvas :=
  if agent.color = .transparent then agent.canvas
  else agent.canvas.sweepAll paths agent.color agent.brush

theorem foldl_paint (agent : Agent) (paths : List Path) :
    paths.foldl paint agent = { agent with canvas := agent.paintedCanvas paths } := by
  induction paths generalizing agent with
  | nil => simp [paintedCanvas, Canvas.sweepAll]
  | cons path paths ih =>
    rw [List.foldl_cons, ih]
    by_cases hcolor : agent.color = .transparent
    · simp [paint, paintedCanvas, hcolor]
    · simp [paint, paintedCanvas, hcolor, Canvas.sweepAll_cons]

theorem draw_eq (agent : Agent) (figure : Figure) :
    agent.draw figure =
      { agent with position := figure.stop, canvas := agent.paintedCanvas figure.paths } := by
  rw [draw, foldl_paint]

theorem size_paintedCanvas (agent : Agent) (paths : List Path) :
    (agent.paintedCanvas paths).size = agent.canvas.size := by
  rw [paintedCanvas]
  split <;> simp

theorem background_paintedCanvas (agent : Agent) (paths : List Path) :
    (agent.paintedCanvas paths).background = agent.canvas.background := by
  rw [paintedCanvas]
  split <;> simp

theorem paintedCanvas_of_transparent {agent : Agent} (h : agent.color = .transparent)
    (paths : List Path) : agent.paintedCanvas paths = agent.canvas := if_pos h

theorem pixel?_paintedCanvas {agent : Agent} (hcolor : agent.color ≠ .transparent)
    {paths : List Path} (h : ∀ path ∈ paths, path.Steady) {p : Point}
    (hp : agent.canvas.inBounds p = true) :
    ((∃ path ∈ paths, path.Covers (brushReach agent.brush) p) →
        (agent.paintedCanvas paths).pixel? p = some agent.color) ∧
      ((¬ ∃ path ∈ paths, path.Covers (brushReach agent.brush) p) →
        (agent.paintedCanvas paths).pixel? p = agent.canvas.pixel? p) := by
  rw [paintedCanvas, if_neg hcolor]
  exact agent.canvas.pixel?_sweepAll h agent.color agent.brush hp

/-- Steady paths that cover the same places leave the same canvas, whatever the brush. -/
theorem paintedCanvas_congr (agent : Agent) {paths paths' : List Path}
    (h : ∀ path ∈ paths, path.Steady) (h' : ∀ path ∈ paths', path.Steady)
    (hcovers : ∀ p, (∃ path ∈ paths, path.Covers (brushReach agent.brush) p) ↔
      ∃ path ∈ paths', path.Covers (brushReach agent.brush) p) :
    agent.paintedCanvas paths = agent.paintedCanvas paths' := by
  simp only [paintedCanvas, agent.canvas.sweepAll_congr h h' agent.color agent.brush hcovers]

def ahead (agent : Agent) (dx dy distance : Int) : Point :=
  ⟨agent.position.x + dx * distance, agent.position.y + dy * distance⟩

theorem offset_eq_ok {start d distance stop : Int} (h : offset start d distance = .ok stop) :
    stop = start + d * distance := by
  obtain ⟨way, hway, hstop⟩ := bind_eq_ok_iff.1 h
  rw [← (inWord_eq_ok_iff.1 hstop).2, ← (inWord_eq_ok_iff.1 hway).2]

theorem destination_eq_ok {agent : Agent} {dx dy distance : Int} {p : Point}
    (h : agent.destination dx dy distance = .ok p) :
    p = ⟨agent.position.x + dx * distance, agent.position.y + dy * distance⟩ := by
  obtain ⟨x, hx, h⟩ := bind_eq_ok_iff.1 h
  obtain ⟨y, hy, h⟩ := bind_eq_ok_iff.1 h
  rw [← offset_eq_ok hx, ← offset_eq_ok hy]
  exact (Except.ok.inj h).symm

theorem fitsWord_of_offset {start d distance stop : Int} (h : offset start d distance = .ok stop) :
    fitsWord stop = true := by
  obtain ⟨way, -, hstop⟩ := bind_eq_ok_iff.1 h
  obtain ⟨hfits, rfl⟩ := inWord_eq_ok_iff.1 hstop
  exact hfits

theorem fitsWord_of_destination {agent : Agent} {dx dy distance : Int} {p : Point}
    (h : agent.destination dx dy distance = .ok p) :
    fitsWord p.x = true ∧ fitsWord p.y = true := by
  obtain ⟨x, hx, h⟩ := bind_eq_ok_iff.1 h
  obtain ⟨y, hy, h⟩ := bind_eq_ok_iff.1 h
  obtain rfl := Except.ok.inj h
  exact ⟨fitsWord_of_offset hx, fitsWord_of_offset hy⟩

theorem checkLength_eq_ok_iff {length : Length} {value : Int} :
    checkLength length value = .ok () ↔ 0 ≤ value := by
  simp [checkLength]

theorem line_eq_ok {agent : Agent} {dx dy distance : Int} {figure : Figure}
    (h : agent.line dx dy distance = .ok figure) :
    0 ≤ distance ∧ ∃ stop, agent.destination dx dy distance = .ok stop ∧
      figure = ⟨[.straight 1 distance agent.position dx dy], stop⟩ := by
  obtain ⟨_, -, h⟩ := bind_eq_ok_iff.1 h
  obtain ⟨_, hdistance, h⟩ := bind_eq_ok_iff.1 h
  obtain ⟨stop, hstop, h⟩ := bind_eq_ok_iff.1 h
  exact ⟨checkLength_eq_ok_iff.1 hdistance, stop, hstop, (Except.ok.inj h).symm⟩

theorem circle_eq_ok {agent : Agent} {dx dy radius : Int} {figure : Figure}
    (h : agent.circle dx dy radius = .ok figure) :
    0 ≤ radius ∧ ∃ center, agent.destination dx dy radius = .ok center ∧
      figure = ⟨arcs center radius.toNat, center⟩ := by
  obtain ⟨_, -, h⟩ := bind_eq_ok_iff.1 h
  obtain ⟨_, hradius, h⟩ := bind_eq_ok_iff.1 h
  obtain ⟨center, hcenter, h⟩ := bind_eq_ok_iff.1 h
  exact ⟨checkLength_eq_ok_iff.1 hradius, center, hcenter, (Except.ok.inj h).symm⟩

theorem rectangle_eq_ok {agent : Agent} {dx dy distance width height : Int} {figure : Figure}
    (h : agent.rectangle dx dy distance width height = .ok figure) :
    (0 ≤ distance ∧ 0 ≤ width ∧ 0 ≤ height) ∧
      ∃ center, agent.destination dx dy distance = .ok center ∧
        figure = ⟨sides center width height, center⟩ := by
  obtain ⟨_, -, h⟩ := bind_eq_ok_iff.1 h
  obtain ⟨_, hdistance, h⟩ := bind_eq_ok_iff.1 h
  obtain ⟨_, hwidth, h⟩ := bind_eq_ok_iff.1 h
  obtain ⟨_, hheight, h⟩ := bind_eq_ok_iff.1 h
  obtain ⟨center, hcenter, h⟩ := bind_eq_ok_iff.1 h
  exact ⟨⟨checkLength_eq_ok_iff.1 hdistance, checkLength_eq_ok_iff.1 hwidth,
    checkLength_eq_ok_iff.1 hheight⟩, center, hcenter, (Except.ok.inj h).symm⟩

end Brushwork.Agent

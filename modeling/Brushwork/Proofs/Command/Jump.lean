import Brushwork.Proofs.Command.Frame
import Brushwork.Proofs.Command.JumpForm
import Brushwork.Proofs.Expr.Names

/-!
# Jumps

Only a line of the form `GoTo [label] (condition)` jumps, and it does so to the line of its
label.
-/

namespace Brushwork

theorem Scene.evaluateTruth_true (scene : Scene) :
    scene.evaluateTruth "true".toList = .ok true := by
  have hchars : ∀ c ∈ ['r', 'u', 'e'], isNameChar c = true ∧ c ≠ '-' := by simp [isNameChar]
  have hscan : Token.scan scene.vars.binds "true".toList = .ok [.truth true] :=
    Token.scan_of_plain (c := 't') (by decide) hchars scene.vars.binds
  rw [evaluateTruth, tokensOf_eq_ok_iff.2 hscan]
  rfl

namespace Command

/-- Whatever has the parts of a jump is of the kind of jumps. -/
theorem ofLine?_of_jumpParts? {line : Text} {parts : Text × Text}
    (h : jumpParts? line = some parts) : Kind.ofLine? line = some .goTo := by
  obtain ⟨rest, hrest, -⟩ := Option.bind_eq_some_iff.1 h
  exact Kind.ofLine?_of_goTo ⟨rest, (dropStart?_eq_some_iff.1 hrest).symm⟩

variable {labels : Labels} {scene : Scene} {target : Nat}

theorem resolve?_of_jump {label condition : Text}
    (h : jump labels scene label condition = .ok (.jump target)) :
    labels.resolve? label = some target := by
  unfold jump at h
  split at h
  · cases h
  · rename_i found hfound
    obtain ⟨holds, -, h⟩ := bind_eq_ok_iff.1 h
    cases holds with
    | false => cases h
    | true =>
      cases h
      exact hfound

/-- Of all commands only jumps jump. -/
theorem run_eq_jump {command : Command} (h : (command.run labels scene).2 = .ok (.jump target)) :
    ∃ label condition, command = .goTo label condition ∧ labels.resolve? label = some target := by
  have hchange : ∀ agent, (scene.change agent).2 ≠ .ok (.jump target) := by
    intro agent hjump
    cases agent <;> cases hjump
  cases command with
  | goTo label condition => exact ⟨label, condition, rfl, resolve?_of_jump h⟩
  | assign name expression =>
    obtain ⟨vars, hvars, -⟩ := Scene.assign_eq_ok h
    rw [run, hvars] at h
    cases h
  | spawn | color | size | fill => exact absurd h (hchange _)
  | drawLine | drawCircle | drawRectangle =>
    rw [run, Scene.draw_eq_change] at h
    exact absurd h (hchange _)
  | colorCount query =>
    change (scene.evaluateNumber query).map Outcome.value = .ok (.jump target) at h
    cases hquery : scene.evaluateNumber query <;> rw [hquery] at h <;> cases h

/-- A line that jumps has the parts of a jump, and jumps to the line of its label. -/
theorem process_eq_jump {kind : Kind} {line : Text}
    (h : (process labels scene kind line).2 = .ok (.jump target)) :
    kind = .goTo ∧ ∃ label condition, jumpParts? line = some (label, condition) ∧
      labels.resolve? label = some target := by
  unfold process at h
  cases hcommand : ofLine kind line with
  | error fault =>
    rw [hcommand] at h
    cases h
  | ok command =>
    rw [hcommand] at h
    obtain ⟨label, condition, rfl, htarget⟩ := run_eq_jump h
    obtain rfl := kind_of_ofLine hcommand
    refine ⟨rfl, label, condition, ?_, htarget⟩
    change ofJump line = _ at hcommand
    unfold ofJump at hcommand
    split at hcommand
    · rename_i parts
      cases hcommand
      exact parts
    · cases hcommand

/-- The line that jumps in any case goes to the line of its label. -/
theorem process_jumpLine {label : Text} (hlabel : isIdentifier label = true)
    (htarget : labels.resolve? label = some target) (scene : Scene) :
    process labels scene .goTo (jumpLine label "true".toList) = (scene, .ok (.jump target)) := by
  have hparts : jumpParts? (jumpLine label "true".toList) = some (label, "true".toList) :=
    jumpParts?_jumpLine hlabel (by decide)
  have hcommand : ofLine .goTo (jumpLine label "true".toList) =
      .ok (.goTo label "true".toList) := by
    rw [ofLine, ofJump, hparts]
  rw [process, hcommand, runParsed, run, jump, htarget]
  simp only [scene.evaluateTruth_true, ok_bind]
  rfl

end Command

end Brushwork

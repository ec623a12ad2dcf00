import Brushwork.Command.Effect
import Brushwork.Proofs.Expr.Causes

/-!
# Why commands are refused

A line that cannot be taken apart is refused for its form. A command that was taken
apart is refused for one of its expressions or for the state it is run in, and
never for its form.
-/

namespace Brushwork

/-- Whether a line can be refused for a fault when it is taken apart. -/
def Fault.ofForm : Fault → Bool
  | .malformed _ | .unquotedColor _ | .nothingToAssign _ | .invalidIdentifier _ => true
  | _ => false

/-- Whether a command can be refused for a fault when it is run. -/
def Fault.ofEffect : Fault → Bool
  | .unknownLabel _ | .outOfBounds _ _ | .transparentFill | .invalidBrushSize _
  | .invalidDirection _ _ | .negativeLength _ _ => true
  | fault => fault.ofExpression

abbrev RefusedInForm {α : Type} (x : Except Fault α) : Prop :=
  RefusedFor (fun fault => fault.ofForm = true) x

abbrev RefusedInEffect {α : Type} (x : Except Fault α) : Prop :=
  RefusedFor (fun fault => fault.ofEffect = true) x

theorem RefusedFor.inEffect {α : Type} {x : Except Fault α} (h : RefusedAsExpression x) :
    RefusedInEffect x := by
  refine h.mono fun fault hfault => ?_
  unfold Fault.ofEffect
  split <;> first | rfl | exact hfault

namespace Command

theorem colorName_refused (argument : Text) : RefusedInForm (colorName argument) := by
  unfold colorName
  split
  · exact refusedFor_ok _
  · exact refusedFor_error rfl

theorem arguments_refused (kind : Kind) (line : Text) : RefusedInForm (arguments kind line) := by
  unfold arguments
  split
  · exact refusedFor_error rfl
  · dsimp only
    split
    · exact refusedFor_error rfl
    · exact refusedFor_ok _

theorem ofArguments_refused (kind : Kind) (line : Text) (parts : List Text) :
    RefusedInForm (ofArguments kind line parts) := by
  unfold ofArguments
  split
  · exact refusedFor_ok _
  · exact (colorName_refused _).bind fun _ => refusedFor_ok _
  · exact refusedFor_ok _
  · exact refusedFor_ok _
  · exact refusedFor_ok _
  · exact refusedFor_ok _
  · exact refusedFor_ok _
  · exact (colorName_refused _).bind fun _ => refusedFor_ok _
  · exact refusedFor_error rfl

theorem ofLine_refused (kind : Kind) (line : Text) : RefusedInForm (ofLine kind line) := by
  have hcall : ∀ kind, RefusedInForm (do ofArguments kind line (← arguments kind line)) := by
    intro kind
    exact (arguments_refused kind line).bind fun parts => ofArguments_refused kind line parts
  unfold ofLine
  split
  · unfold ofJump
    split
    · exact refusedFor_ok _
    · exact refusedFor_error rfl
  · unfold ofAssignment
    split
    · exact refusedFor_error rfl
    · dsimp only
      split
      · exact refusedFor_error rfl
      · split
        · exact refusedFor_error rfl
        · exact refusedFor_ok _
  · split
    · exact refusedFor_ok _
    · exact hcall .fill
  · exact hcall _

end Command

namespace Agent

theorem destination_refused (agent : Agent) (dx dy distance : Int) :
    RefusedInEffect (agent.destination dx dy distance) := by
  have hoffset : ∀ start d, RefusedInEffect (offset start d distance) := fun start d =>
    (inWord_refused _).inEffect.bind fun way => (inWord_refused _).inEffect
  exact (hoffset _ dx).bind fun x => (hoffset _ dy).bind fun y => refusedFor_ok _

theorem checkDirection_refused (dx dy : Int) : RefusedInEffect (checkDirection dx dy) := by
  unfold checkDirection
  split
  · exact refusedFor_ok _
  · exact refusedFor_error rfl

theorem checkLength_refused (length : Length) (value : Int) :
    RefusedInEffect (checkLength length value) := by
  unfold checkLength
  split
  · exact refusedFor_error rfl
  · exact refusedFor_ok _

/-- A figure is refused for its direction, for its lengths or for the place it ends on, whatever
is drawn. -/
theorem figure_refused (agent : Agent) (dx dy distance : Int) {lengths : Except Fault Unit}
    (hlengths : RefusedInEffect lengths) (figure : Point → Figure) :
    RefusedInEffect do
      checkDirection dx dy
      lengths
      let stop ← agent.destination dx dy distance
      return figure stop := by
  apply (checkDirection_refused dx dy).bind
  intro _
  apply hlengths.bind
  intro _
  apply (agent.destination_refused dx dy distance).bind
  intro stop
  exact refusedFor_ok _

theorem line_refused (agent : Agent) (dx dy distance : Int) :
    RefusedInEffect (agent.line dx dy distance) :=
  agent.figure_refused dx dy distance (checkLength_refused .distance distance) _

theorem circle_refused (agent : Agent) (dx dy radius : Int) :
    RefusedInEffect (agent.circle dx dy radius) :=
  agent.figure_refused dx dy radius (checkLength_refused .radius radius) _

theorem rectangle_refused (agent : Agent) (dx dy distance width height : Int) :
    RefusedInEffect (agent.rectangle dx dy distance width height) := by
  have hlengths : RefusedInEffect (do
      checkLength .distance distance
      checkLength .width width
      checkLength .height height) := by
    apply (checkLength_refused .distance distance).bind
    intro _
    apply (checkLength_refused .width width).bind
    intro _
    exact checkLength_refused .height height
  have hfigure := agent.figure_refused dx dy distance hlengths fun center =>
    ⟨sides center width height, center⟩
  simp only [bind_assoc] at hfigure
  exact hfigure

theorem spawn_refused (agent : Agent) (p : Point) : RefusedInEffect (agent.spawn p) := by
  unfold spawn
  split
  · exact refusedFor_ok _
  · exact refusedFor_error rfl

theorem setColor_refused (agent : Agent) (name : Text) : RefusedInEffect (agent.setColor name) :=
  (Color.named_refused name).inEffect.bind fun _ => refusedFor_ok _

theorem setBrush_refused (agent : Agent) (size : Int) : RefusedInEffect (agent.setBrush size) := by
  unfold setBrush
  split
  · exact refusedFor_error rfl
  · exact refusedFor_ok _

theorem fill_refused (agent : Agent) : RefusedInEffect agent.fill := by
  have hpixel : RefusedInEffect (agent.canvas.pixel agent.position) := by
    unfold Canvas.pixel
    split
    · exact refusedFor_ok _
    · exact refusedFor_error rfl
  have hfill : RefusedInEffect (agent.canvas.fill agent.position agent.color) := by
    refine hpixel.bind fun old => ?_
    split <;> exact refusedFor_ok _
  unfold fill
  split
  · exact refusedFor_error rfl
  · exact hfill.bind fun _ => refusedFor_ok _

end Agent

theorem Variables.assign_refused (vars : Variables) {name : Text} (h : isFreeName name = true)
    (value : Value) : RefusedInEffect (vars.assign name value) := by
  rw [assign, if_pos h]
  exact refusedFor_ok _

namespace Scene

variable {scene : Scene}

theorem change_refused {agent : Except Fault Agent} (h : RefusedInEffect agent) :
    RefusedInEffect (scene.change agent).2 := by
  cases agent with
  | ok agent => exact refusedFor_ok _
  | error fault => exact refusedFor_error (h fault rfl)

theorem draw_refused {figure : Except Fault Figure} (h : RefusedInEffect figure) :
    RefusedInEffect (scene.draw figure).2 := by
  cases figure with
  | ok figure => exact refusedFor_ok _
  | error fault => exact refusedFor_error (h fault rfl)

theorem assign_refused {vars : Except Fault Variables} (h : RefusedInEffect vars) :
    RefusedInEffect (scene.assign vars).2 := by
  cases vars with
  | ok vars => exact refusedFor_ok _
  | error fault => exact refusedFor_error (h fault rfl)

end Scene

namespace Command

theorem run_refused (labels : Labels) (scene : Scene) {command : Command}
    (hname : ∀ name expression, command = .assign name expression → isFreeName name = true) :
    RefusedInEffect (command.run labels scene).2 := by
  have hnumber : ∀ (source : Text) {α : Type} {f : Int → Except Fault α},
      (∀ n, RefusedInEffect (f n)) → RefusedInEffect (scene.evaluateNumber source >>= f) :=
    fun source _ _ hf => (scene.evaluateNumber_refused source).inEffect.bind hf
  cases command with
  | goTo label condition =>
    change RefusedInEffect (jump labels scene label condition)
    unfold jump
    split
    · exact refusedFor_error rfl
    · apply (scene.evaluateTruth_refused condition).inEffect.bind
      intro holds
      cases holds <;> exact refusedFor_ok _
  | assign name expression =>
    apply Scene.assign_refused
    apply (scene.evaluate_refused expression).inEffect.bind
    intro value
    exact scene.vars.assign_refused (hname name expression rfl) value
  | spawn x y =>
    apply Scene.change_refused
    apply hnumber x
    intro column
    apply hnumber y
    intro row
    exact scene.agent.spawn_refused ⟨column, row⟩
  | color name => exact Scene.change_refused (scene.agent.setColor_refused name)
  | size n =>
    apply Scene.change_refused
    apply hnumber n
    exact scene.agent.setBrush_refused
  | drawLine dx dy distance =>
    apply Scene.draw_refused
    apply hnumber dx
    intro dx
    apply hnumber dy
    intro dy
    apply hnumber distance
    exact scene.agent.line_refused dx dy
  | drawCircle dx dy radius =>
    apply Scene.draw_refused
    apply hnumber dx
    intro dx
    apply hnumber dy
    intro dy
    apply hnumber radius
    exact scene.agent.circle_refused dx dy
  | drawRectangle dx dy distance width height =>
    apply Scene.draw_refused
    apply hnumber dx
    intro dx
    apply hnumber dy
    intro dy
    apply hnumber distance
    intro distance
    apply hnumber width
    intro width
    apply hnumber height
    exact scene.agent.rectangle_refused dx dy distance width
  | fill => exact Scene.change_refused scene.agent.fill_refused
  | colorCount query => exact (scene.evaluateNumber_refused query).inEffect.map _

end Command

end Brushwork

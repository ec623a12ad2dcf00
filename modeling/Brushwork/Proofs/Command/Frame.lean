import Brushwork.Proofs.Canvas.Painted
import Brushwork.Proofs.Command.Causes

/-!
# What a command can change

A refused command changes nothing. A command that is not refused changes the state
that belongs to its kind: jumps and questions change nothing, an assignment binds
one name, and every other command changes some fields of the agent. All other
state is as it was.
-/

namespace Brushwork

namespace Command

/-- The line has its first arrow between the two texts. -/
structure FirstArrow (line before after : Text) : Prop where
  line_eq : line = before ++ "<-".toList ++ after
  first : ¬ "<-".toList <:+: before

theorem firstArrow_of_arrowParts? {line before after : Text}
    (h : arrowParts? line = some (before, after)) : FirstArrow line before after := by
  fun_induction arrowParts? line generalizing before after with
  | case1 => cases h
  | case2 rest =>
    cases h
    exact ⟨rfl, by decide⟩
  | case3 c t hnot ih =>
    obtain ⟨⟨before, after⟩, hparts, heq⟩ := Option.map_eq_some_iff.1 h
    cases heq
    obtain ⟨hline, hfirst⟩ := ih hparts
    refine ⟨by rw [hline]; rfl, fun hinfix => ?_⟩
    rcases List.infix_cons_iff.1 hinfix with hstart | hlater
    · obtain ⟨rest, hrest⟩ := hstart
      cases hrest
      exact hnot _ rfl hline
    · exact hfirst hlater

def kind : Command → Kind
  | .goTo .. => .goTo
  | .spawn .. => .spawn
  | .color .. => .color
  | .drawLine .. => .drawLine
  | .assign .. => .assign
  | .fill => .fill
  | .size .. => .size
  | .drawCircle .. => .drawCircle
  | .colorCount .. => .colorCount
  | .drawRectangle .. => .drawRectangle

/-- What commands of a kind, taken from a line, do to a scene. -/
def Kind.Changes (line : Text) (before after : Scene) : Kind → Prop
  | .goTo | .colorCount => after = before
  | .assign => ∃ left right value,
      FirstArrow line left right ∧ isFreeName (trim left) = true ∧
      before.evaluate (trim right) = .ok value ∧ after.agent = before.agent ∧
      ∀ name, after.vars.get? name =
        if name = trim left then some value else before.vars.get? name
  | .spawn => ∃ p, before.agent.canvas.inBounds p = true ∧
      after = { before with agent := { before.agent with position := p, spawned := true } }
  | .color => ∃ color, after = { before with agent := { before.agent with color } }
  | .size => ∃ brush, 0 < brush ∧ brush % 2 = 1 ∧
      after = { before with agent := { before.agent with brush } }
  | .drawLine | .drawCircle | .drawRectangle => ∃ position canvas,
      before.agent.canvas.Painted before.agent.color canvas ∧
      after = { before with agent := { before.agent with position, canvas } }
  | .fill => ∃ canvas, before.agent.canvas.Painted before.agent.color canvas ∧
      after = { before with agent := { before.agent with canvas } }

theorem arity_of_arguments {kind : Kind} {line : Text} {parts : List Text}
    (h : arguments kind line = .ok parts) : kind.arity = some parts.length := by
  unfold arguments at h
  split at h
  · cases h
  · dsimp only at h
    split at h
    · cases h
    · rename_i hright
      cases h
      exact (Decidable.not_not.1 (not_or.1 hright).1).symm

/-- As many arguments as the kind has are enough: once their number is right, no argument is
missing when a command is made of them. -/
theorem ofArguments_of_arity {kind : Kind} {parts : List Text} (line : Text)
    (h : kind.arity = some parts.length) :
    RefusedFor (fun fault => ∃ name ∈ parts.head?, fault = .unquotedColor name)
      (ofArguments kind line parts) := by
  have hcolor : ∀ name, RefusedFor (fun fault => fault = .unquotedColor name) (colorName name) := by
    intro name
    unfold colorName
    split
    · exact refusedFor_ok _
    · exact refusedFor_error rfl
  have hfirst : ∀ name rest, RefusedFor (fun fault => ∃ first ∈ (name :: rest).head?,
      fault = .unquotedColor first) (colorName name) :=
    fun name rest => (hcolor name).mono fun fault hfault => ⟨name, rfl, hfault⟩
  cases kind with
  | goTo | assign => cases h
  | fill =>
    match parts, h with
    | [], _ => exact refusedFor_ok _
  | size =>
    match parts, h with
    | [_], _ => exact refusedFor_ok _
  | spawn =>
    match parts, h with
    | [_, _], _ => exact refusedFor_ok _
  | drawLine | drawCircle =>
    match parts, h with
    | [_, _, _], _ => exact refusedFor_ok _
  | drawRectangle =>
    match parts, h with
    | [_, _, _, _, _], _ => exact refusedFor_ok _
  | color =>
    match parts, h with
    | [name], _ => exact (hfirst name []).bind fun _ => refusedFor_ok _
  | colorCount =>
    match parts, h with
    | name :: rest, _ => exact (hfirst name rest).bind fun _ => refusedFor_ok _

theorem kind_of_ofArguments {kind : Kind} {line : Text} {parts : List Text} {command : Command}
    (h : ofArguments kind line parts = .ok command) : command.kind = kind := by
  unfold ofArguments at h
  split at h
  · cases h; rfl
  · obtain ⟨name, -, h⟩ := bind_eq_ok_iff.1 h; cases h; rfl
  · cases h; rfl
  · cases h; rfl
  · cases h; rfl
  · cases h; rfl
  · cases h; rfl
  · obtain ⟨name, -, h⟩ := bind_eq_ok_iff.1 h; cases h; rfl
  · cases h

theorem ofAssignment_eq_ok {line : Text} {command : Command} (h : ofAssignment line = .ok command) :
    ∃ left right, FirstArrow line left right ∧ isFreeName (trim left) = true ∧
      trim right ≠ [] ∧ command = .assign (trim left) (trim right) := by
  unfold ofAssignment at h
  split at h
  · cases h
  · rename_i left right hparts
    dsimp only at h
    split at h
    · cases h
    · rename_i hname
      split at h
      · cases h
      · rename_i hright
        cases h
        exact ⟨left, right, firstArrow_of_arrowParts? hparts, by simpa using hname,
          by simpa using hright, rfl⟩

theorem kind_of_ofLine {kind : Kind} {line : Text} {command : Command}
    (h : ofLine kind line = .ok command) : command.kind = kind := by
  have hcall : ∀ kind, (do ofArguments kind line (← arguments kind line)) = .ok command →
      command.kind = kind := by
    intro kind h
    obtain ⟨parts, -, h⟩ := bind_eq_ok_iff.1 h
    exact kind_of_ofArguments h
  unfold ofLine at h
  split at h
  · unfold ofJump at h
    split at h
    · cases h
      rfl
    · cases h
  · obtain ⟨left, right, -, -, -, rfl⟩ := ofAssignment_eq_ok h
    rfl
  · split at h
    · cases h
      rfl
    · exact hcall _ h
  · exact hcall _ h

/-- A line that was taken apart assigns to no name that is not free. -/
theorem isFreeName_of_ofLine {kind : Kind} {line : Text} {command : Command}
    (h : ofLine kind line = .ok command) (name expression : Text)
    (hcommand : command = .assign name expression) : isFreeName name = true := by
  subst hcommand
  obtain rfl : Kind.assign = kind := kind_of_ofLine h
  obtain ⟨left, right, -, hfree, -, heq⟩ := ofAssignment_eq_ok h
  cases heq
  exact hfree

end Command

namespace Scene

variable {scene : Scene} {outcome : Outcome}

theorem change_eq_ok {agent : Except Fault Agent} (h : (scene.change agent).2 = .ok outcome) :
    ∃ changed, agent = .ok changed ∧ (scene.change agent).1 = { scene with agent := changed } := by
  cases agent with
  | ok changed => exact ⟨changed, rfl, rfl⟩
  | error fault => cases h

theorem assign_eq_ok {vars : Except Fault Variables} (h : (scene.assign vars).2 = .ok outcome) :
    ∃ changed, vars = .ok changed ∧ (scene.assign vars).1 = { scene with vars := changed } := by
  cases vars with
  | ok changed => exact ⟨changed, rfl, rfl⟩
  | error fault => cases h

theorem draw_eq_change (scene : Scene) (figure : Except Fault Figure) :
    scene.draw figure = scene.change (figure.map scene.agent.draw) := by
  cases figure with
  | ok figure => rfl
  | error fault => rfl

/-- Whatever figure is drawn, the brush paints with its color and the agent ends somewhere. -/
theorem draw_eq_ok {figure : Except Fault Figure} (h : (scene.draw figure).2 = .ok outcome) :
    ∃ position canvas, scene.agent.canvas.Painted scene.agent.color canvas ∧
      (scene.draw figure).1 = { scene with agent := { scene.agent with position, canvas } } := by
  cases figure with
  | ok figure =>
    refine ⟨figure.stop, _, scene.agent.painted_paintedCanvas figure.paths, ?_⟩
    rw [draw, Agent.draw_eq]
  | error fault => cases h

theorem change_eq_error {agent : Except Fault Agent} {fault : Fault}
    (h : (scene.change agent).2 = .error fault) : (scene.change agent).1 = scene := by
  cases agent with
  | ok changed => cases h
  | error fault => rfl

theorem assign_eq_error {vars : Except Fault Variables} {fault : Fault}
    (h : (scene.assign vars).2 = .error fault) : (scene.assign vars).1 = scene := by
  cases vars with
  | ok changed => cases h
  | error fault => rfl

end Scene

namespace Agent

variable {agent after : Agent}

theorem spawn_eq_ok {p : Point} (h : agent.spawn p = .ok after) :
    agent.canvas.inBounds p = true ∧ after = { agent with position := p, spawned := true } := by
  unfold spawn at h
  split at h
  · rename_i hp
    exact ⟨hp, (Except.ok.inj h).symm⟩
  · cases h

theorem setBrush_eq_ok {size : Int} (h : agent.setBrush size = .ok after) :
    ∃ brush, 0 < brush ∧ brush % 2 = 1 ∧ after = { agent with brush } := by
  unfold setBrush at h
  split at h
  · cases h
  · refine ⟨_, ?_, ?_, (Except.ok.inj h).symm⟩
    · split <;> omega
    · split <;> omega

end Agent

namespace Command

variable {labels : Labels} {scene : Scene} {command : Command} {outcome : Outcome}

theorem run_eq_error {fault : Fault} (h : (command.run labels scene).2 = .error fault) :
    (command.run labels scene).1 = scene := by
  cases command with
  | goTo | colorCount => rfl
  | assign => exact Scene.assign_eq_error h
  | spawn | color | size | fill => exact Scene.change_eq_error h
  | drawLine | drawCircle | drawRectangle =>
    simp only [run, Scene.draw_eq_change] at h ⊢
    exact Scene.change_eq_error h

theorem run_eq_ok {line : Text} (hline : ofLine command.kind line = .ok command)
    (h : (command.run labels scene).2 = .ok outcome) :
    command.kind.Changes line scene (command.run labels scene).1 := by
  cases command with
  | goTo | colorCount => rfl
  | assign name expression =>
    obtain ⟨left, right, harrow, hname, -, heq⟩ := ofAssignment_eq_ok hline
    cases heq
    obtain ⟨vars, hvars, hafter⟩ := Scene.assign_eq_ok h
    obtain ⟨value, hvalue, hassign⟩ := bind_eq_ok_iff.1 hvars
    rw [run, hafter]
    exact ⟨left, right, value, harrow, hname, hvalue, rfl, Variables.get?_assign hassign⟩
  | spawn x y =>
    obtain ⟨agent, hagent, hafter⟩ := Scene.change_eq_ok h
    obtain ⟨x, -, hagent⟩ := bind_eq_ok_iff.1 hagent
    obtain ⟨y, -, hagent⟩ := bind_eq_ok_iff.1 hagent
    obtain ⟨hp, rfl⟩ := Agent.spawn_eq_ok hagent
    exact ⟨⟨x, y⟩, hp, hafter⟩
  | color name =>
    obtain ⟨agent, hagent, hafter⟩ := Scene.change_eq_ok h
    obtain ⟨color, -, hagent⟩ := bind_eq_ok_iff.1 hagent
    cases hagent
    exact ⟨color, hafter⟩
  | size n =>
    obtain ⟨agent, hagent, hafter⟩ := Scene.change_eq_ok h
    obtain ⟨n, -, hagent⟩ := bind_eq_ok_iff.1 hagent
    obtain ⟨brush, hpos, hodd, rfl⟩ := Agent.setBrush_eq_ok hagent
    exact ⟨brush, hpos, hodd, hafter⟩
  | fill =>
    obtain ⟨agent, hagent, hafter⟩ := Scene.change_eq_ok h
    obtain ⟨hcolor, canvas, hcanvas, rfl⟩ := Agent.fill_eq_ok_iff.1 hagent
    exact ⟨canvas, (Canvas.isFilled_of_fill hcanvas).painted hcolor, hafter⟩
  | drawLine | drawCircle | drawRectangle => exact Scene.draw_eq_ok h

variable {kind : Kind} {line : Text}

theorem process_eq_error {fault : Fault} (h : (process labels scene kind line).2 = .error fault) :
    (process labels scene kind line).1 = scene := by
  unfold process at h ⊢
  cases hcommand : ofLine kind line with
  | error fault => rfl
  | ok command =>
    rw [hcommand] at h
    exact run_eq_error h

theorem process_eq_ok (h : (process labels scene kind line).2 = .ok outcome) :
    kind.Changes line scene (process labels scene kind line).1 := by
  unfold process at h ⊢
  cases hcommand : ofLine kind line with
  | error fault =>
    rw [hcommand] at h
    cases h
  | ok command =>
    rw [hcommand] at h
    obtain rfl := kind_of_ofLine hcommand
    exact run_eq_ok hcommand h

/-- A refused command changes nothing, one that is not refused changes the state of its own kind
and no other, and no command asks for an argument that its line does not have. -/
theorem process_changes_own_state (labels : Labels) (scene : Scene) (kind : Kind) (line : Text) :
    (∀ fault, (process labels scene kind line).2 = .error fault →
      (process labels scene kind line).1 = scene) ∧
    (∀ outcome, (process labels scene kind line).2 = .ok outcome →
      kind.Changes line scene (process labels scene kind line).1) ∧
    ∀ parts, arguments kind line = .ok parts → kind.arity = some parts.length ∧
      RefusedFor (fun fault => ∃ name ∈ parts.head?, fault = .unquotedColor name)
        (ofArguments kind line parts) := by
  refine ⟨fun _ => process_eq_error, fun _ => process_eq_ok, fun parts hparts => ?_⟩
  have harity := arity_of_arguments hparts
  exact ⟨harity, ofArguments_of_arity line harity⟩

end Command

end Brushwork

import Brushwork.Program.Run
import Brushwork.Proofs.Command.Frame

/-!
# What running a line amounts to

A line of no kind is reported and passed over. A line of some kind is inspected and
processed: whatever was found is reported first, a jump decides where to go on, and
everywhere else the next line follows. A refused line leaves no other trace than
what is reported of it.
-/

namespace Brushwork

/-- A line is of no kind, or is refused as a command of its kind. -/
def Command.Refuses (labels : Labels) (scene : Scene) (line : Text) : Prop :=
  ∀ kind, Kind.ofLine? line = some kind →
    ∃ fault, (process labels scene kind line).2 = .error fault

theorem Statement.staticFindings_ofLine (labels : Labels) (size : Nat) (line : Text) :
    (ofLine labels size line).staticFindings = Inspection.static labels size line ++
      if Command.Kind.ofLine? line = none then [unrecognized line] else [] := by
  cases h : Command.Kind.ofLine? line with
  | none => simp [staticFindings, ofLine, h]
  | some kind => simp [staticFindings, ofLine, h]

theorem Inspection.all_eq (labels : Labels) (agent : Agent) (line : Text) :
    all labels agent line = static labels agent.canvas.size line ++
      ((Command.Kind.ofLine? line).map (kindReadiness agent.spawned)).getD [] := by
  rw [all, readiness]
  cases Command.Kind.ofLine? line with
  | none => rfl
  | some kind => rfl

namespace Step

variable {labels : Labels} {scene : Scene} {position : Nat} {findings : List Finding}

theorem isPrefix_withFault (findings : List Finding) (fault : Fault) :
    findings <+: withFault findings fault := by
  rw [withFault]
  split
  · exact List.prefix_refl findings
  · exact List.prefix_append findings _

theorem isPrefix_ofCommand (labels : Labels) (scene : Scene) (position : Nat)
    (findings : List Finding) (command : Except Fault Command) :
    findings <+: (ofCommand labels scene position findings command).findings := by
  unfold ofCommand
  split
  · exact List.prefix_refl findings
  · exact List.prefix_refl findings
  · exact List.prefix_refl findings
  · exact isPrefix_withFault findings _

theorem position_ofCommand (labels : Labels) (scene : Scene) (position : Nat)
    (findings : List Finding) (command : Except Fault Command) :
    (ofCommand labels scene position findings command).position =
      match (Command.runParsed labels scene command).2 with
      | .ok (.jump target) => target
      | _ => position + 1 := by
  unfold ofCommand
  split <;> rename_i h <;> rw [h]

theorem ofCommand_of_error {command : Except Fault Command} {fault : Fault}
    (h : (Command.runParsed labels scene command).2 = .error fault) :
    ofCommand labels scene position findings command =
      ⟨scene, position + 1, none, withFault findings fault⟩ := by
  have hscene : (Command.runParsed labels scene command).1 = scene := by
    cases command with
    | error fault => rfl
    | ok command => exact Command.run_eq_error h
  have hpair : Command.runParsed labels scene command = (scene, .error fault) :=
    Prod.ext hscene h
  rw [ofCommand, hpair]

variable {labels' : Labels} {size : Nat} {line : Text}

theorem ofStatement_of_unrecognized (h : Command.Kind.ofLine? line = none) :
    ofStatement labels scene position (.ofLine labels' size line) =
      ⟨scene, position + 1, none, (Statement.ofLine labels' size line).staticFindings⟩ := by
  simp [ofStatement, Statement.ofLine, h]

theorem ofStatement_of_kind {kind : Command.Kind} (h : Command.Kind.ofLine? line = some kind) :
    ofStatement labels scene position (.ofLine labels' size line) =
      ofCommand labels scene position
        (Inspection.static labels' size line ++ Inspection.kindReadiness scene.agent.spawned kind)
        (Command.ofLine kind line) := by
  simp [ofStatement, Statement.ofLine, h]

/-- What can be said of a line without running it is reported first, whenever it is run. -/
theorem staticFindings_isPrefix (labels : Labels) (scene : Scene) (position : Nat)
    (labels' : Labels) (size : Nat) (line : Text) :
    (Statement.ofLine labels' size line).staticFindings <+:
      (ofStatement labels scene position (.ofLine labels' size line)).findings := by
  cases h : Command.Kind.ofLine? line with
  | none => simpa only [ofStatement_of_unrecognized h] using List.prefix_refl _
  | some kind =>
    rw [Statement.staticFindings_ofLine, h, ofStatement_of_kind h, if_neg (Option.some_ne_none _),
      List.append_nil]
    exact (List.prefix_append _ _).trans (isPrefix_ofCommand _ _ _ _ _)

/-- All inspections of a line by the agent as it is are reported first. -/
theorem inspections_isPrefix (labels : Labels) (scene : Scene) (position : Nat)
    (labels' : Labels) (line : Text) :
    Inspection.all labels' scene.agent line <+:
      (ofStatement labels scene position
        (.ofLine labels' scene.agent.canvas.size line)).findings := by
  cases h : Command.Kind.ofLine? line with
  | none =>
    rw [ofStatement_of_unrecognized h, Statement.staticFindings_ofLine, Inspection.all_eq, h,
      Option.map_none, Option.getD_none, List.append_nil]
    exact List.prefix_append _ _
  | some kind =>
    rw [ofStatement_of_kind h, Inspection.all_eq, h]
    exact isPrefix_ofCommand _ _ _ _ _

theorem position_of_kind {kind : Command.Kind} (h : Command.Kind.ofLine? line = some kind) :
    (ofStatement labels scene position (.ofLine labels' size line)).position =
      match (Command.process labels scene kind line).2 with
      | .ok (.jump target) => target
      | _ => position + 1 := by
  rw [ofStatement_of_kind h, position_ofCommand]
  rfl

/-- A refused line is passed over: it changes nothing and yields nothing. -/
theorem ofStatement_of_refuses (h : Command.Refuses labels scene line) :
    ∃ findings, ofStatement labels scene position (.ofLine labels' size line) =
      ⟨scene, position + 1, none, findings⟩ := by
  cases hkind : Command.Kind.ofLine? line with
  | none => exact ⟨_, ofStatement_of_unrecognized hkind⟩
  | some kind =>
    obtain ⟨fault, hfault⟩ := h kind hkind
    exact ⟨_, (ofStatement_of_kind hkind).trans (ofCommand_of_error hfault)⟩

end Step

namespace Run

variable (labels : Labels) (run : Run) (position : Nat) (statement : Statement)

theorem scene_dispatch : (run.dispatch labels position statement).scene =
    (Step.ofStatement labels run.scene position statement).scene := rfl

theorem position_dispatch : (run.dispatch labels position statement).position =
    (Step.ofStatement labels run.scene position statement).position := rfl

theorem lastValue_dispatch : (run.dispatch labels position statement).lastValue =
    (Step.ofStatement labels run.scene position statement).value.or run.lastValue := rfl

end Run

end Brushwork

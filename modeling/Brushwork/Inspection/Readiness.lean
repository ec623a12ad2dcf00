import Brushwork.Inspection.Form
import Brushwork.Inspection.Reference

/-!
# Whether the agent is ready, and all inspections together

A drawing command is out of place before the agent has been put on the canvas.
This is the one inspection that depends on the run; the other two together make
up the static inspection of a line.
-/

namespace Brushwork.Inspection

/-- What can be said against a command of a kind in the present state of the agent. -/
def kindReadiness (spawned : Bool) (kind : Command.Kind) : List Finding :=
  if kind.isDrawing && !spawned then
    [⟨.runtime, String.ofList kind.keyword ++ " used before Spawn"⟩]
  else []

def readiness (spawned : Bool) (line : Text) : List Finding :=
  match Command.Kind.ofLine? line with
  | some kind => kindReadiness spawned kind
  | none => []

/-- What can be said against a line without running it. -/
def static (labels : Labels) (size : Nat) (line : Text) : List Finding :=
  form line ++ reference labels size line

def all (labels : Labels) (agent : Agent) (line : Text) : List Finding :=
  static labels agent.canvas.size line ++ readiness agent.spawned line

end Brushwork.Inspection

import Brushwork.Config
import Brushwork.Program.Basic

/-!
# Checking a program without running it

The labels that were refused come first; then every statement is judged once, in
the order of the lines.
-/

namespace Brushwork.Program

def checkFrom (position : Nat) : List (Option Statement) → List Diagnostic
  | [] => []
  | none :: rest => checkFrom (position + 1) rest
  | some statement :: rest =>
    statement.staticFindings.map (·.at (position + 1) statement.line) ++
      checkFrom (position + 1) rest

/-- The diagnostics that a source has without being run. -/
def check (config : Config) (source : Text) : Except Fault (List Diagnostic) := do
  config.validate
  if isBlankSource source then return [emptyProgram]
  let program := ofSource config.canvasSize source
  return program.refused ++ checkFrom 0 program.statements.toList

end Brushwork.Program

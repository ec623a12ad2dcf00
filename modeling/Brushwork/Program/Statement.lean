import Brushwork.Inspection.Readiness

/-!
# Statements

A statement is a line that is to be run, made ready once for all its runs: what
can be said against it without running it, and the command it was taken apart
into as one of its kind.
-/

namespace Brushwork

/-- Whether a trimmed line is to be run: it is not blank, no comment and declares no label. -/
def isStatement (line : Text) : Bool :=
  !line.isEmpty && !isComment line && (labelOf? line).isNone

/-- A line made ready to be run. -/
structure Statement where
  /-- The line as it stands in the program, trimmed. -/
  line : Text
  findings : List Finding
  /-- The kind of the line, if it has one, and the command it is as one of that kind. -/
  command : Option (Command.Kind × Except Fault Command)

namespace Statement

def ofLine (labels : Labels) (size : Nat) (line : Text) : Statement where
  line := line
  findings := Inspection.static labels size line
  command := (Command.Kind.ofLine? line).map fun kind => (kind, Command.ofLine kind line)

def unrecognized (line : Text) : Finding :=
  ⟨.syntactic, "unrecognized command: " ++ String.ofList line⟩

def staticFindings (statement : Statement) : List Finding :=
  statement.findings ++ if statement.command.isNone then [unrecognized statement.line] else []

end Statement

end Brushwork

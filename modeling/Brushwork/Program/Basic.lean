import Brushwork.Program.Statement

/-!
# Programs

A program is a list of trimmed lines. Its labels are declared first, from top to
bottom; then each line that is to be run is made ready. Blank lines, comments and
label lines are passed over.
-/

namespace Brushwork

/-- Declares the labels of lines from the given position on, and reports those that are refused. -/
def declareLabels (labels : Labels) (position : Nat) : List Text → Labels × List Diagnostic
  | [] => (labels, [])
  | line :: rest =>
    match labelOf? line with
    | none => declareLabels labels (position + 1) rest
    | some name =>
      match labels.declare name position with
      | .ok labels => declareLabels labels (position + 1) rest
      | .error fault =>
        let (labels, refused) := declareLabels labels (position + 1) rest
        (labels, fault.finding.at (position + 1) line :: refused)

/-- A program made ready for a canvas of a given size. -/
structure Program where
  /-- For each line the statement it is, if it is one. -/
  statements : Array (Option Statement)
  labels : Labels
  refused : List Diagnostic

namespace Program

def linesOf (source : Text) : List Text := (splitLines source).map trim

def statementOf? (labels : Labels) (size : Nat) (line : Text) : Option Statement :=
  if isStatement line then some (.ofLine labels size line) else none

def ofLines (size : Nat) (lines : List Text) : Program :=
  let (labels, refused) := declareLabels .empty 0 lines
  { statements := (lines.map (statementOf? labels size)).toArray, labels, refused }

def ofSource (size : Nat) (source : Text) : Program := ofLines size (linesOf source)

def isBlankSource (source : Text) : Bool := (trim source).isEmpty

def emptyProgram : Diagnostic :=
  { line := 1, message := "empty program", category := .syntactic, snippet := [] }

/-- The first statement at or after a position, with its own position. -/
def nextStatement (statements : Array (Option Statement)) (position : Nat) :
    Option (Nat × Statement) :=
  if h : position < statements.size then
    match statements[position] with
    | some statement => some (position, statement)
    | none => nextStatement statements (position + 1)
  else none
termination_by statements.size - position

end Program

end Brushwork

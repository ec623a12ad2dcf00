import Brushwork.Text.Blank

/-!
# Diagnostics

A diagnostic is one problem of a program, tied to the number of its line and to
the text of that line.
-/

namespace Brushwork

/-- What a problem is about. -/
inductive Category where
  /-- The shape of a line. -/
  | syntactic
  /-- A name or a literal that cannot be meant. -/
  | semantic
  /-- The state in which a line was run. -/
  | runtime
  deriving DecidableEq

/-- How the printed form of a diagnostic calls its category. -/
def Category.title : Category → String
  | .syntactic => "syntax error"
  | .semantic => "semantic error"
  | .runtime => "runtime error"

/-- A problem found in a line, not yet tied to that line. -/
structure Finding where
  category : Category
  message : String
  deriving DecidableEq

structure Diagnostic where
  /-- Lines are counted from one. -/
  line : Nat
  message : String
  category : Category
  /-- The line as it stands in the program, trimmed. -/
  snippet : Text
  deriving DecidableEq

def Finding.at (finding : Finding) (line : Nat) (snippet : Text) : Diagnostic :=
  { line, message := finding.message, category := finding.category, snippet }

/-- The printed form: the message, and below it the line unless that is empty. -/
def Diagnostic.display (d : Diagnostic) : String :=
  let head := "line " ++ toString d.line ++ ": " ++ d.category.title ++ ": " ++ d.message
  if d.snippet.isEmpty then head else head ++ "\n  | " ++ String.ofList d.snippet

/-- The problems recorded so far, oldest first. -/
abbrev Log := Array Diagnostic

def Log.since (log : Log) (n : Nat) : List Diagnostic := log.toList.drop n

def Log.countOf (log : Log) (category : Category) : Nat :=
  log.toList.countP (·.category == category)

end Brushwork

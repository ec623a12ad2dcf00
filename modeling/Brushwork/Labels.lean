import Brushwork.Fault
import Brushwork.Text.Name

/-!
# Labels

A line declares a label when it holds a free name alone, with or without a colon
after it. A label belongs to the line that declares it first; declaring it again
is a fault and changes nothing.
-/

namespace Brushwork

/-- The label a line declares. -/
def labelOf? (line : Text) : Option Text :=
  let line := trim line
  let name := trimEnd ((dropFinal? ':' line).getD line)
  if isFreeName name then some name else none

/-- Names of labels with the positions, counted from zero, of the lines that declare them. -/
structure Labels where
  /-- The latest declaration first. -/
  entries : List (Text × Nat)
  deriving DecidableEq

namespace Labels

def empty : Labels := ⟨[]⟩

def resolve? (labels : Labels) (name : Text) : Option Nat :=
  (labels.entries.find? fun entry => entry.1 == name).map Prod.snd

def declares (labels : Labels) (name : Text) : Bool := (labels.resolve? name).isSome

/-- Declares a new label with a free name. -/
def declare (labels : Labels) (name : Text) (line : Nat) : Except Fault Labels :=
  if !isFreeName name then .error (.invalidLabelName name)
  else if labels.declares name then .error (.duplicateLabel name)
  else .ok ⟨(name, line) :: labels.entries⟩

end Labels

end Brushwork

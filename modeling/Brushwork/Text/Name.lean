import Brushwork.Text.Blank

/-!
# Names

A name is an ASCII letter followed by ASCII letters, digits, `_` and `-`. Names
of commands, queries, truth values and the two spelled-out connectives are
reserved: neither a variable nor a label can have one of them.
-/

namespace Brushwork

/-- The characters that may stand in a name after its first one. -/
def isNameChar (c : Char) : Bool := c.isAlphanum || c == '_' || c == '-'

def isIdentifier : Text → Bool
  | [] => false
  | c :: t => c.isAlpha && t.all isNameChar

/-- Words that name neither a variable nor a label. -/
def reservedWords : List Text :=
  ["Spawn", "Color", "Size", "DrawLine", "DrawCircle", "DrawRectangle", "Fill", "GoTo",
   "GetActualX", "GetActualY", "GetCanvasSize", "GetColorCount", "IsBrushColor",
   "IsBrushSize", "IsCanvasColor", "true", "false", "and", "or"].map String.toList

def isReserved (word : Text) : Bool := reservedWords.contains word

/-- The names that variables and labels may have. -/
def isFreeName (name : Text) : Bool := isIdentifier name && !isReserved name

def isComment (line : Text) : Bool :=
  "//".toList.isPrefixOf line || "#".toList.isPrefixOf line

@[simp] theorem isIdentifier_nil : isIdentifier [] = false := rfl

theorem isFreeName_iff (name : Text) :
    isFreeName name = true ↔ isIdentifier name = true ∧ isReserved name = false := by
  simp [isFreeName]

end Brushwork

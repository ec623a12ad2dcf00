import Brushwork.Command.Kind
import Brushwork.Diagnostic
import Brushwork.Text.Numeral

/-!
# Faults

Everything that can go wrong, by cause. The wording is in `Fault.message` alone,
and `Fault.category` says under which heading a fault is reported.
-/

namespace Brushwork

/-- The lengths a drawing command can be given. -/
inductive Length where
  | distance | radius | width | height
  deriving DecidableEq

def Length.title : Length → String
  | .distance => "distance"
  | .radius => "radius"
  | .width => "width"
  | .height => "height"

/-- The causes for which a command, an expression or a setting is refused. -/
inductive Fault where
  /-- A command without its form. -/
  | malformed (kind : Command.Kind)
  | unquotedColor (argument : Text)
  /-- An assignment with nothing to the right of its arrow. -/
  | nothingToAssign (name : Text)
  | unclosedQuotation (source : Text)
  | argumentCount (query : Text) (expected found : Nat)
  /-- An assignment to something that is no free name. -/
  | invalidIdentifier (name : Text)
  | unknownLabel (name : Text)
  | invalidLabelName (name : Text)
  | duplicateLabel (name : Text)
  | unknownColor (name : Text)
  | undefinedVariable (name : Text)
  /-- A truth value where a number is needed. -/
  | notAnInteger (name : Text)
  /-- A number where a truth value is needed. -/
  | notABoolean (name : Text)
  | divideByZero
  | overflow
  /-- Nothing where a number is needed. -/
  | emptyExpression
  | emptyCondition
  /-- A numeral beyond the greatest word. -/
  | numeralTooLarge (source : Text)
  | strayCharacter (c : Char) (source : Text)
  /-- A color argument that is not one name. -/
  | notAColorName (argument : Text)
  /-- Tokens that form no operand. -/
  | notAnOperand (tokens : Text)
  | nestedTooDeeply
  | unknownFunction (name : Text)
  | outOfBounds (x y : Int)
  | transparentFill
  | invalidBrushSize (size : Int)
  | invalidDirection (dx dy : Int)
  | negativeLength (length : Length) (value : Int)
  | stepLimit (limit : Nat)
  | invalidCanvasSize (size least most : Nat)
  deriving DecidableEq

namespace Fault

def unreadable (detail : String) : String := "invalid expression: '" ++ detail ++ "'"

def pair (x y : Int) : String :=
  "(" ++ String.ofList (decimal x) ++ ", " ++ String.ofList (decimal y) ++ ")"

def message : Fault → String
  | .malformed kind => "malformed " ++ String.ofList kind.title ++ "; usage: " ++ kind.usage
  | .unquotedColor argument =>
    "color name must be a quoted string, got " ++ String.ofList argument
  | .nothingToAssign name => "nothing to assign to " ++ quoted name
  | .unclosedQuotation source => "unclosed string literal in " ++ quoted source
  | .argumentCount query expected found =>
    "wrong number of arguments for " ++ String.ofList query ++ ": expected " ++
      toString expected ++ ", found " ++ toString found
  | .invalidIdentifier name => "invalid identifier: " ++ quoted name
  | .unknownLabel name => "label not found: " ++ quoted name
  | .invalidLabelName name => "invalid label name: " ++ quoted name
  | .duplicateLabel name => "duplicate label: " ++ quoted name
  | .unknownColor name => "unknown color: " ++ quoted name
  | .undefinedVariable name => "undefined variable: " ++ quoted name
  | .notAnInteger name => "type mismatch: " ++ quoted name ++ " is not an integer"
  | .notABoolean name => "type mismatch: " ++ quoted name ++ " is not a boolean"
  | .divideByZero => "division by zero"
  | .overflow => "integer overflow"
  | .emptyExpression => unreadable "empty expression"
  | .emptyCondition => unreadable "empty condition"
  | .numeralTooLarge source => unreadable (String.ofList source)
  | .strayCharacter c source =>
    unreadable ("unexpected character " ++ quoted [c] ++ " in " ++ quoted source)
  | .notAColorName argument => unreadable ("expected a color name, found " ++ quoted argument)
  | .notAnOperand tokens => unreadable (String.ofList tokens)
  | .nestedTooDeeply => "expression nested too deeply"
  | .unknownFunction name => "unknown function: " ++ quoted name
  | .outOfBounds x y => "position " ++ pair x y ++ " is outside the canvas"
  | .transparentFill => "cannot fill with Transparent"
  | .invalidBrushSize size =>
    "brush size must be greater than 0, got " ++ String.ofList (decimal size)
  | .invalidDirection dx dy => "directions must be -1, 0 or 1, got " ++ pair dx dy
  | .negativeLength length value =>
    length.title ++ " must not be negative, got " ++ String.ofList (decimal value)
  | .stepLimit limit => "step limit of " ++ toString limit ++ " exceeded"
  | .invalidCanvasSize size least most =>
    "canvas size must be between " ++ toString least ++ " and " ++ toString most ++
      ", got " ++ toString size

/-- The heading under which a fault is reported. -/
def category : Fault → Category
  | .malformed _ | .unquotedColor _ | .nothingToAssign _ | .unclosedQuotation _
  | .argumentCount _ _ _ | .invalidIdentifier _ => .syntactic
  | .unknownLabel _ | .invalidLabelName _ | .duplicateLabel _ | .unknownColor _ => .semantic
  | _ => .runtime

def finding (fault : Fault) : Finding := ⟨fault.category, fault.message⟩

end Fault

end Brushwork

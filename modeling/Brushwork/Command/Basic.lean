import Brushwork.Command.Kind
import Brushwork.Fault
import Brushwork.Text.Arguments
import Brushwork.Text.Name

/-!
# Commands

A command is a line taken apart: its kind and the texts of its arguments, not yet
evaluated. Taking a line apart looks at its shape alone.
-/

namespace Brushwork

/-- A line taken apart. -/
inductive Command where
  | goTo (label condition : Text)
  | spawn (x y : Text)
  | color (name : Text)
  | drawLine (dx dy distance : Text)
  | assign (name expression : Text)
  | fill
  | size (n : Text)
  | drawCircle (dx dy radius : Text)
  /-- The whole line is the expression whose value the command yields. -/
  | colorCount (query : Text)
  | drawRectangle (dx dy distance width height : Text)
  deriving DecidableEq

namespace Command

/-- The label and the condition of a line of the form `GoTo [label] (condition)`. Blanks may stand
between the parts; the condition ends at the last parenthesis and holds no line feed. -/
def jumpParts? (line : Text) : Option (Text × Text) := do
  let rest ← dropStart? "GoTo".toList line
  let rest ← dropStart? ['['] (trimStart rest)
  let rest := trimStart rest
  let label := rest.takeWhile isNameChar
  let rest ← dropStart? [']'] (trimStart (rest.dropWhile isNameChar))
  let rest ← dropStart? ['('] (trimStart rest)
  let condition ← dropFinal? ')' (trimEnd rest)
  if isIdentifier label && !condition.contains '\n' then some (label, condition) else none

/-- What stands before and after the first arrow of a line. -/
def arrowParts? : Text → Option (Text × Text)
  | [] => none
  | '<' :: '-' :: rest => some ([], rest)
  | c :: t => (arrowParts? t).map fun (before, after) => (c :: before, after)

/-- The arguments of a line written like a call, as many as its kind has and none of them empty. -/
def arguments (kind : Kind) (line : Text) : Except Fault (List Text) :=
  match callArguments? kind.keyword line with
  | none => .error (.malformed kind)
  | some inner =>
    let parts := splitArguments inner
    if some parts.length ≠ kind.arity ∨ parts.any List.isEmpty then .error (.malformed kind)
    else .ok parts

def colorName (argument : Text) : Except Fault Text :=
  match quotedText? argument with
  | some name => .ok name
  | none => .error (.unquotedColor argument)

def ofJump (line : Text) : Except Fault Command :=
  match jumpParts? line with
  | some (label, condition) => .ok (.goTo label condition)
  | none => .error (.malformed .goTo)

def ofAssignment (line : Text) : Except Fault Command :=
  match arrowParts? line with
  | none => .error (.malformed .assign)
  | some (before, after) =>
    let name := trim before
    let expression := trim after
    if !isFreeName name then .error (.invalidIdentifier name)
    else if expression.isEmpty then .error (.nothingToAssign name)
    else .ok (.assign name expression)

def ofArguments (kind : Kind) (line : Text) (parts : List Text) : Except Fault Command :=
  match kind, parts with
  | .spawn, [x, y] => .ok (.spawn x y)
  | .color, [name] => do return .color (← colorName name)
  | .size, [n] => .ok (.size n)
  | .drawLine, [dx, dy, distance] => .ok (.drawLine dx dy distance)
  | .drawCircle, [dx, dy, radius] => .ok (.drawCircle dx dy radius)
  | .drawRectangle, [dx, dy, distance, width, height] =>
    .ok (.drawRectangle dx dy distance width height)
  | .fill, [] => .ok .fill
  | .colorCount, name :: _ => do
    let _ ← colorName name
    return .colorCount line
  | kind, _ => .error (.malformed kind)

def ofLine (kind : Kind) (line : Text) : Except Fault Command :=
  match kind with
  | .goTo => ofJump line
  | .assign => ofAssignment line
  | .fill =>
    if line = "Fill".toList then .ok .fill
    else do ofArguments .fill line (← arguments .fill line)
  | kind => do ofArguments kind line (← arguments kind line)

end Command

end Brushwork

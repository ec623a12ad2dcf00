import Brushwork.Command.Basic

/-!
# The form of a line

What can be said against a line by looking at it alone: parentheses that do not
match, and a command without the form of its kind. Arguments are judged by the
characters they hold, not by whether they can be evaluated.
-/

namespace Brushwork.Inspection

def isArgumentChar (c : Char) : Bool :=
  c.isAlphanum || "_-+*/%()<>=!&|\",".toList.contains c || isBlank c

/-- Whether an argument holds only characters it may hold, and at least one. -/
def isPlainArgument (argument : Text) : Bool :=
  !argument.isEmpty && argument.all isArgumentChar

/-- Whether an argument is a word of letters in quotation marks. -/
def isColorArgument (argument : Text) : Bool :=
  match dropStart? ['"'] argument >>= dropFinal? '"' with
  | some word => !word.isEmpty && word.all Char.isAlpha
  | none => false

def argumentsFit (kind : Command.Kind) (parts : List Text) : Bool :=
  some parts.length == kind.arity &&
    match kind.takesColor, parts with
    | true, color :: others => isColorArgument color && others.all isPlainArgument
    | _, parts => parts.all isPlainArgument

def callFits (kind : Command.Kind) (line : Text) : Bool :=
  match callArguments? kind.keyword line with
  | some inner => argumentsFit kind (splitArguments inner)
  | none => false

/-- The name assigned to, for a line that starts with a name, an arrow and something to assign. -/
def assignedName? (line : Text) : Option Text := do
  let name := line.takeWhile isNameChar
  let rest ← dropStart? "<-".toList (trimStart (line.dropWhile isNameChar))
  if isIdentifier name && !(trimStart rest).isEmpty then some name else none

def formFinding (message : String) : Finding := ⟨.syntactic, message⟩

/-- What can be said against the form of a command of a kind. -/
def commandForm (kind : Command.Kind) (line : Text) : List Finding :=
  let malformed := [(Fault.malformed kind).finding]
  match kind with
  | .goTo => if (Command.jumpParts? line).isSome then [] else malformed
  | .assign =>
    match assignedName? line with
    | some name =>
      if isReserved name then [formFinding (quoted name ++ " is a reserved word")] else []
    | none => malformed
  | .fill => if line = "Fill".toList || callFits .fill line then [] else malformed
  | kind => if callFits kind line then [] else malformed

def form (line : Text) : List Finding :=
  (if parenthesesBalanced line then [] else [formFinding "unbalanced parentheses"]) ++
    match Command.Kind.ofLine? line with
    | some kind => commandForm kind line
    | none => []

end Brushwork.Inspection

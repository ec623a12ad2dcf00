import Brushwork.Agent.Query
import Brushwork.Expr.Reader
import Brushwork.Token.Lexer
import Brushwork.Variables

/-!
# The meaning of expressions

An expression can be read as a number and as a truth value. The two readings
depend on each other: a connective or a comparison is a truth value first, and
its number is one or zero; a sum or a query is a number first, and true unless
zero. Every change of reading, every pair of parentheses and every sign counts
one level of nesting, and a reading beyond the deepest level is a fault. Operands
are read from left to right, the first fault ends the reading, and a connective
whose left side settles it never looks at its right side.
-/

namespace Brushwork

/-- What an expression can speak about. -/
structure Scene where
  agent : Agent
  vars : Variables

/-- The deepest level of nesting that is still read. -/
def deepest : Nat := 256

/-- Goes on unless the level is beyond the deepest. -/
@[macro_inline] def atLevel {α : Type} (level : Nat) (rest : Except Fault α) : Except Fault α :=
  if deepest < level then .error .nestedTooDeeply else rest

/-- The two readings of an expression at each level of nesting. -/
structure Reading where
  number : Nat → Except Fault Int
  truth : Nat → Except Fault Bool

namespace Reading

def ofTruth (truth : Nat → Except Fault Bool) : Reading where
  number level := atLevel level (atLevel (level + 1) ((truth (level + 1)).map truthNumber))
  truth level := atLevel level (truth level)

def ofNumber (number : Nat → Except Fault Int) : Reading where
  number level := atLevel level (number level)
  truth level := atLevel level (atLevel (level + 1) ((number (level + 1)).map (· != 0)))

def ofEach (number : Except Fault Int) (truth : Except Fault Bool) : Reading where
  number level := atLevel level number
  truth level := atLevel level truth

/-- The readings of parentheses: those of the inside, one level deeper. -/
@[macro_inline] def deeper (inner : Reading) : Reading where
  number level := atLevel level (inner.number (level + 1))
  truth level := atLevel level (inner.truth (level + 1))

end Reading

/-- The questions an expression can put to the agent. -/
inductive Query where
  | actualX | actualY | canvasSize | brushColor | brushSize | canvasColor | colorCount
  deriving DecidableEq

namespace Query

def all : List Query :=
  [.actualX, .actualY, .canvasSize, .brushColor, .brushSize, .canvasColor, .colorCount]

def name : Query → Text
  | .actualX => "GetActualX".toList
  | .actualY => "GetActualY".toList
  | .canvasSize => "GetCanvasSize".toList
  | .brushColor => "IsBrushColor".toList
  | .brushSize => "IsBrushSize".toList
  | .canvasColor => "IsCanvasColor".toList
  | .colorCount => "GetColorCount".toList

def arity : Query → Nat
  | .actualX | .actualY | .canvasSize => 0
  | .brushColor | .brushSize => 1
  | .canvasColor => 3
  | .colorCount => 5

def ofName? (t : Text) : Option Query := all.find? fun query => query.name == t

end Query

/-- The color name that an argument is, with or without quotation marks. -/
def colorArgument : Expr → Except Fault Text
  | .quotation t => .ok t
  | .name t => .ok t
  | e => .error (.notAColorName (Token.render e.tokens))

/-- The agent's answer to a query. The arguments are given as they are written, where a color
name is needed, and as numbers; a wrong number of them comes before any fault in them. -/
def Query.answer (agent : Agent) :
    Query → (arguments : List Expr) → (numbers : List (Except Fault Int)) → Except Fault Int
  | .actualX, [], _ => .ok agent.position.x
  | .actualY, [], _ => .ok agent.position.y
  | .canvasSize, [], _ => .ok agent.canvasSize
  | .brushColor, [color], _ => do agent.isBrushColor (← colorArgument color)
  | .brushSize, [_], [size] => do return agent.isBrushSize (← size)
  | .canvasColor, [color, _, _], [_, vertical, horizontal] => do
    agent.isCanvasColor (← colorArgument color) (← vertical) (← horizontal)
  | .colorCount, [color, _, _, _, _], [_, x1, y1, x2, y2] => do
    agent.colorCount (← colorArgument color) ⟨← x1, ← y1⟩ ⟨← x2, ← y2⟩
  | query, arguments, _ =>
    .error (.argumentCount query.name query.arity arguments.length)

namespace Expr

/-- The readings of a name: a number, or the truth value that is bound to it. -/
def nameReading (vars : Variables) (t : Text) : Reading where
  number level := atLevel level (vars.getInt t)
  truth level := atLevel level <|
    match vars.get? t with
    | some (.bool b) => .ok b
    | _ => atLevel (level + 1) ((vars.getInt t).map (· != 0))

mutual

def reading (scene : Scene) : Expr → Reading
  | .empty => .ofEach (.error .emptyExpression) (.error .emptyCondition)
  | .number n => .ofNumber fun _ => .ok n
  | .name t => nameReading scene.vars t
  | .quotation t => .ofNumber fun _ => .error (.notAnOperand (Token.quotation t).text)
  | .truth b => .ofEach (.error (.notAnInteger (Token.truth b).text)) (.ok b)
  | .group e => (e.reading scene).deeper
  | .negate e => .ofNumber fun level => do inWord (-(← (e.reading scene).number (level + 1)))
  | .arith op left right => .ofNumber fun level => do
    let a ← (left.reading scene).number level
    let b ← (right.reading scene).number level
    op.apply a b
  | .compare op left right => .ofTruth fun level => do
    let a ← (left.reading scene).number (level + 1)
    let b ← (right.reading scene).number (level + 1)
    return op.holds a b
  | .both left right => .ofTruth fun level => do
    if ← (left.reading scene).truth level then (right.reading scene).truth level
    else return false
  | .either left right => .ofTruth fun level => do
    if ← (left.reading scene).truth level then return true
    else (right.reading scene).truth level
  | .call f arguments => .ofNumber fun level =>
    match Query.ofName? f with
    | none => .error (.unknownFunction f)
    | some query =>
      query.answer scene.agent arguments
        ((readings scene arguments).map fun r => r.number (level + 2))
  | .unread items => .ofNumber fun _ => .error (.notAnOperand (Token.render (Item.allTokens items)))

def readings (scene : Scene) : List Expr → List Reading
  | [] => []
  | e :: rest => e.reading scene :: readings scene rest

end

theorem readings_eq_map (scene : Scene) (arguments : List Expr) :
    readings scene arguments = arguments.map fun e => e.reading scene := by
  induction arguments with
  | nil => rfl
  | cons e rest ih => rw [readings, ih, List.map_cons]

/-- What holds of the reading of each argument holds of all their readings. -/
theorem forall_readings {scene : Scene} {arguments : List Expr} {P : Reading → Prop}
    (h : ∀ e ∈ arguments, P (e.reading scene)) : ∀ r ∈ readings scene arguments, P r := by
  rw [readings_eq_map]
  intro r hr
  obtain ⟨e, he, rfl⟩ := List.mem_map.1 hr
  exact h e he

/-- Whether the value of an expression is a truth value rather than a number. -/
def yieldsTruth (vars : Variables) (e : Expr) : Bool :=
  match e.core with
  | .either _ _ | .both _ _ | .compare _ _ _ | .truth _ => true
  | .name t => match vars.get? t with
    | some (.bool _) => true
    | _ => false
  | _ => false

end Expr

namespace Scene

def number (scene : Scene) (tokens : List Token) (level : Nat) : Except Fault Int :=
  ((Expr.ofTokens tokens).reading scene).number level

def truth (scene : Scene) (tokens : List Token) (level : Nat) : Except Fault Bool :=
  ((Expr.ofTokens tokens).reading scene).truth level

/-- The tokens of an expression, in which the names of the variables may hold hyphens. -/
def tokensOf (scene : Scene) (source : Text) : Except Fault (List Token) :=
  Token.ofSource scene.vars.names source

def evaluateNumber (scene : Scene) (source : Text) : Except Fault Int := do
  scene.number (← scene.tokensOf source) 0

def evaluateTruth (scene : Scene) (source : Text) : Except Fault Bool := do
  scene.truth (← scene.tokensOf source) 0

/-- The value of an expression, of the sort that its outermost operator makes. -/
def evaluate (scene : Scene) (source : Text) : Except Fault Value := do
  let e := Expr.ofTokens (← scene.tokensOf source)
  if e.yieldsTruth scene.vars then
    return .bool (← (e.reading scene).truth 0)
  else
    return .int (← (e.reading scene).number 0)

end Scene

end Brushwork

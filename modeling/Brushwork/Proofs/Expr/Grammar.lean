import Brushwork.Expr.Meaning

/-!
# The grammar of expressions

A phrase is an expression as it may be written. Each phrase belongs to a tier of
operators, and its constructors are the rules of the grammar: a chain of
operators of one tier grows at its right end by a phrase of the next tighter
tier, except that comparisons grow at their left end. A query has the number of
arguments it needs, and a color among them is a single word.
-/

namespace Brushwork

/-- The tiers of operators, from the loosest to the tightest, and the operands between them. -/
inductive Tier where
  | either | both | comparison | sum | product | power | operand
  deriving DecidableEq

/-- How tight the operators of a tier bind. -/
def Tier.rank : Tier → Nat
  | .either => 0
  | .both => 1
  | .comparison => 2
  | .sum => 3
  | .product => 4
  | .power => 5
  | .operand => 6

def Arith.tier : Arith → Tier
  | .add | .sub => .sum
  | .mul | .div | .rem => .product
  | .pow => .power

/-- A color in the arguments of a query, with quotation marks or without. -/
inductive ColorWord where
  | quoted (t : Text)
  | bare (t : Text)
  deriving DecidableEq

namespace ColorWord

def text : ColorWord → Text
  | .quoted t => t
  | .bare t => t

def token : ColorWord → Token
  | .quoted t => .quotation t
  | .bare t => .name t

end ColorWord

/-- Expressions as the grammar has them, by the tier of their loosest operator. -/
inductive Phrase : Tier → Type where
  | number (n : Int) : Phrase .operand
  | name (t : Text) : Phrase .operand
  | truth (b : Bool) : Phrase .operand
  | group (inner : Phrase .either) : Phrase .operand
  | actualX : Phrase .operand
  | actualY : Phrase .operand
  | canvasSize : Phrase .operand
  | brushColor (color : ColorWord) : Phrase .operand
  | brushSize (size : Phrase .either) : Phrase .operand
  | canvasColor (color : ColorWord) (vertical horizontal : Phrase .either) : Phrase .operand
  | colorCount (color : ColorWord) (x₁ y₁ x₂ y₂ : Phrase .either) : Phrase .operand
  | negate (inner : Phrase .operand) : Phrase .operand
  | ofOperand (inner : Phrase .operand) : Phrase .power
  | power (left : Phrase .power) (right : Phrase .operand) : Phrase .power
  | ofPower (inner : Phrase .power) : Phrase .product
  | product (op : Arith) (hop : op.tier = .product) (left : Phrase .product)
      (right : Phrase .power) : Phrase .product
  | ofProduct (inner : Phrase .product) : Phrase .sum
  | sum (op : Arith) (hop : op.tier = .sum) (left : Phrase .sum) (right : Phrase .product) :
      Phrase .sum
  | ofSum (inner : Phrase .sum) : Phrase .comparison
  | compare (op : Comparison) (left : Phrase .sum) (right : Phrase .comparison) :
      Phrase .comparison
  | ofComparison (inner : Phrase .comparison) : Phrase .both
  | both (left : Phrase .both) (right : Phrase .comparison) : Phrase .both
  | ofBoth (inner : Phrase .both) : Phrase .either
  | either (left : Phrase .either) (right : Phrase .both) : Phrase .either

namespace Phrase

def queryTokens (query : Query) (arguments : List (List Token)) : List Token :=
  .name query.name :: .opening :: ([.comma].intercalate arguments ++ [.closing])

/-- The tokens by which a phrase is written. -/
def tokens {t : Tier} : Phrase t → List Token
  | number n => [.number n]
  | name t => [.name t]
  | truth b => [.truth b]
  | group inner => .opening :: (inner.tokens ++ [.closing])
  | actualX => queryTokens .actualX []
  | actualY => queryTokens .actualY []
  | canvasSize => queryTokens .canvasSize []
  | brushColor color => queryTokens .brushColor [[color.token]]
  | brushSize size => queryTokens .brushSize [size.tokens]
  | canvasColor color vertical horizontal =>
    queryTokens .canvasColor [[color.token], vertical.tokens, horizontal.tokens]
  | colorCount color x₁ y₁ x₂ y₂ =>
    queryTokens .colorCount [[color.token], x₁.tokens, y₁.tokens, x₂.tokens, y₂.tokens]
  | negate inner => .arith .sub :: inner.tokens
  | power left right => left.tokens ++ .arith .pow :: right.tokens
  | product op _ left right => left.tokens ++ .arith op :: right.tokens
  | sum op _ left right => left.tokens ++ .arith op :: right.tokens
  | compare op left right => left.tokens ++ .compare op :: right.tokens
  | both left right => left.tokens ++ .both :: right.tokens
  | either left right => left.tokens ++ .either :: right.tokens
  | ofOperand inner => inner.tokens
  | ofPower inner => inner.tokens
  | ofProduct inner => inner.tokens
  | ofSum inner => inner.tokens
  | ofComparison inner => inner.tokens
  | ofBoth inner => inner.tokens

end Phrase

end Brushwork

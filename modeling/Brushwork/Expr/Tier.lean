import Brushwork.Expr.Item

/-!
# Tiers of operators

Operators bind in tiers, from the loosest to the tightest: `||`, `&&`, the
comparisons, `+` and `-`, then `*`, `/` and `%`, then `**`. Items are cut at the
operators of a tier, and what stands between them is read by the next tighter
tier and joined from the left. Comparisons are joined from the right. A minus
subtracts only after an item that can end an operand; everywhere else it is a
sign. A plus always adds, so a leading one adds to the empty expression.
-/

namespace Brushwork

def acceptOnly (which : Token) (_ : Option Item) (token : Token) : Option Unit :=
  if token = which then some () else none

def comparisonOperator (_ : Option Item) : Token → Option Comparison
  | .compare op => some op
  | _ => none

/-- The operators of the tier of sums, given the item before. -/
def sumOperator (before : Option Item) : Token → Option Arith
  | .arith .add => some .add
  | .arith .sub => if before.any Item.endsOperand then some .sub else none
  | _ => none

def productOperator (_ : Option Item) : Token → Option Arith
  | .arith .mul => some .mul
  | .arith .div => some .div
  | .arith .rem => some .rem
  | _ => none

def powerOperator (_ : Option Item) : Token → Option Arith
  | .arith .pow => some .pow
  | _ => none

namespace Expr

/-- The operand that items without operators form. -/
def ofOperand : List Item → Expr
  | [] => .empty
  | .token (.arith .sub) :: rest => .negate (ofOperand rest)
  | [.token (.number n)] => .number n
  | [.token (.name t)] => .name t
  | [.token (.quotation t)] => .quotation t
  | [.token (.truth b)] => .truth b
  | [.operand e] => e
  | items => .unread items

def ofPower (items : List Item) : Expr :=
  (Cuts.ofItems powerOperator none items).gather ofOperand .arith

def ofProduct (items : List Item) : Expr :=
  (Cuts.ofItems productOperator none items).gather ofPower .arith

def ofSum (items : List Item) : Expr :=
  (Cuts.ofItems sumOperator none items).gather ofProduct .arith

def ofComparison (items : List Item) : Expr :=
  (Cuts.ofItems comparisonOperator none items).gatherRight ofSum .compare

def ofBoth (items : List Item) : Expr :=
  (Cuts.ofItems (acceptOnly .both) none items).gather ofComparison fun _ => .both

def ofItems (items : List Item) : Expr :=
  (Cuts.ofItems (acceptOnly .either) none items).gather ofBoth fun _ => .either

end Expr

/-- The lists of items between commas; no items make no list. -/
def commaParts (items : List Item) : List (List Item) :=
  if items.isEmpty then [] else (Cuts.ofItems (acceptOnly .comma) none items).parts

end Brushwork

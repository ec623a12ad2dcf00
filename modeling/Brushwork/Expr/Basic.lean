import Brushwork.Token.Basic

/-!
# Expressions

An expression is kept as a tree that remembers all its tokens. Two of its forms
stand for what no operand is: the empty expression, and items that could not be
read. They do no harm until they are evaluated, and a connective may skip them.
-/

namespace Brushwork

mutual

inductive Expr where
  /-- No tokens at all. -/
  | empty
  | number (n : Int)
  | name (t : Text)
  | quotation (t : Text)
  | truth (b : Bool)
  | group (e : Expr)
  | negate (e : Expr)
  | arith (op : Arith) (left right : Expr)
  | compare (op : Comparison) (left right : Expr)
  | both (left right : Expr)
  | either (left right : Expr)
  | call (query : Text) (arguments : List Expr)
  /-- Items that form no operand. -/
  | unread (items : List Item)

/-- A part of an expression that no operator inside it can cut. -/
inductive Item where
  | token (t : Token)
  /-- Parentheses and what they hold, with the name before them if there is one. -/
  | operand (e : Expr)

end

mutual

/-- The tokens of an expression, and `rest` after them. -/
def Expr.tokensBefore : Expr → (rest : List Token) → List Token
  | .empty, rest => rest
  | .number n, rest => .number n :: rest
  | .name t, rest => .name t :: rest
  | .quotation t, rest => .quotation t :: rest
  | .truth b, rest => .truth b :: rest
  | .group e, rest => .opening :: e.tokensBefore (.closing :: rest)
  | .negate e, rest => .arith .sub :: e.tokensBefore rest
  | .arith op left right, rest => left.tokensBefore (.arith op :: right.tokensBefore rest)
  | .compare op left right, rest => left.tokensBefore (.compare op :: right.tokensBefore rest)
  | .both left right, rest => left.tokensBefore (.both :: right.tokensBefore rest)
  | .either left right, rest => left.tokensBefore (.either :: right.tokensBefore rest)
  | .call query arguments, rest =>
    .name query :: .opening :: Expr.argumentsBefore arguments (.closing :: rest)
  | .unread items, rest => Item.allBefore items rest

def Expr.argumentsBefore : List Expr → (rest : List Token) → List Token
  | [], rest => rest
  | [e], rest => e.tokensBefore rest
  | e :: e' :: others, rest => e.tokensBefore (.comma :: Expr.argumentsBefore (e' :: others) rest)

def Item.tokensBefore : Item → (rest : List Token) → List Token
  | .token t, rest => t :: rest
  | .operand e, rest => e.tokensBefore rest

def Item.allBefore : List Item → (rest : List Token) → List Token
  | [], rest => rest
  | item :: items, rest => item.tokensBefore (Item.allBefore items rest)

end

def Expr.tokens (e : Expr) : List Token := e.tokensBefore []

def Item.allTokens (items : List Item) : List Token := Item.allBefore items []

mutual

theorem Expr.tokensBefore_append (e : Expr) (a b : List Token) :
    e.tokensBefore (a ++ b) = e.tokensBefore a ++ b := by
  cases e with
  | empty | number | name | quotation | truth => simp [Expr.tokensBefore]
  | group e | negate e =>
    have h := e.tokensBefore_append
    simp [Expr.tokensBefore, ← h]
  | arith op left right | compare op left right | both left right | either left right =>
    have hleft := left.tokensBefore_append
    have hright := right.tokensBefore_append
    simp [Expr.tokensBefore, ← hleft, ← hright]
  | call query arguments =>
    have h := Expr.argumentsBefore_append arguments
    simp [Expr.tokensBefore, ← h]
  | unread items =>
    have h := Item.allBefore_append items
    simp [Expr.tokensBefore, h]

theorem Expr.argumentsBefore_append (arguments : List Expr) (a b : List Token) :
    Expr.argumentsBefore arguments (a ++ b) = Expr.argumentsBefore arguments a ++ b := by
  match arguments with
  | [] => simp [Expr.argumentsBefore]
  | [e] =>
    have h := e.tokensBefore_append
    simp [Expr.argumentsBefore, h]
  | e :: e' :: others =>
    have hfirst := e.tokensBefore_append
    have hothers := Expr.argumentsBefore_append (e' :: others)
    simp [Expr.argumentsBefore, ← hfirst, ← hothers]

theorem Item.tokensBefore_append (item : Item) (a b : List Token) :
    item.tokensBefore (a ++ b) = item.tokensBefore a ++ b := by
  cases item with
  | token t => simp [Item.tokensBefore]
  | operand e =>
    have h := e.tokensBefore_append
    simp [Item.tokensBefore, h]

theorem Item.allBefore_append (items : List Item) (a b : List Token) :
    Item.allBefore items (a ++ b) = Item.allBefore items a ++ b := by
  match items with
  | [] => simp [Item.allBefore]
  | item :: items =>
    have hitem := item.tokensBefore_append
    have hitems := Item.allBefore_append items
    simp [Item.allBefore, ← hitem, hitems]

end

/-- What stands after the tokens of an expression does not change them. -/
theorem Expr.tokensBefore_eq (e : Expr) (rest : List Token) :
    e.tokensBefore rest = e.tokens ++ rest :=
  e.tokensBefore_append [] rest

/-- What is left of an expression without the parentheses around all of it. -/
def Expr.core : Expr → Expr
  | .group e => e.core
  | e => e

end Brushwork

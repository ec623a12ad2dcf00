import Brushwork.Expr.Basic

/-!
# Items of an expression

Between two parentheses, and outside all of them, an expression is a list of
items: single tokens, and operands that have been read already because they
ended with a closing parenthesis. A list of items can be cut at those of its
tokens that are accepted.
-/

namespace Brushwork

namespace Item

/-- Whether an operand can end with an item, so that a minus after it subtracts. Tokens that form
no operand end with an opening parenthesis wherever something follows them. -/
def endsOperand : Item → Bool
  | .token t => t.endsOperand
  | .operand (.unread _) => false
  | .operand _ => true

end Item

/-- Items cut at some of their tokens: what stands before the first cut, and for each cut what its
token was accepted as and what follows up to the next one. -/
structure Cuts (α : Type) where
  first : List Item
  others : List (α × List Item)

namespace Cuts

variable {α : Type}

/-- Cuts at every token that is accepted, given the item before it. -/
def ofItems (accept : Option Item → Token → Option α) (before : Option Item) :
    List Item → Cuts α
  | [] => ⟨[], []⟩
  | .operand e :: rest =>
    let cuts := ofItems accept (some (.operand e)) rest
    ⟨.operand e :: cuts.first, cuts.others⟩
  | .token t :: rest =>
    let cuts := ofItems accept (some (.token t)) rest
    match accept before t with
    | some mark => ⟨[], (mark, cuts.first) :: cuts.others⟩
    | none => ⟨.token t :: cuts.first, cuts.others⟩

def parts (cuts : Cuts α) : List (List Item) := cuts.first :: cuts.others.map Prod.snd

/-- Reads what stands between the cuts and joins it from the left. -/
def gather (read : List Item → Expr) (join : α → Expr → Expr → Expr) (cuts : Cuts α) : Expr :=
  cuts.others.foldl (fun e cut => join cut.1 e (read cut.2)) (read cuts.first)

def gatherRightFrom (read : List Item → Expr) (join : α → Expr → Expr → Expr) (left : Expr) :
    List (α × List Item) → Expr
  | [] => left
  | cut :: rest => join cut.1 left (gatherRightFrom read join (read cut.2) rest)

def gatherRight (read : List Item → Expr) (join : α → Expr → Expr → Expr) (cuts : Cuts α) :
    Expr :=
  gatherRightFrom read join (read cuts.first) cuts.others

end Cuts

end Brushwork

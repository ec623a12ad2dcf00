import Brushwork.Expr.Tier

/-!
# Reading expressions

Tokens are read from the left with a stack of the open parentheses. As soon as a
parenthesis closes, what it holds is read and becomes one operand: the arguments
of a query after a name, and a group everywhere else. So the work grows with the
number of tokens, however deep they are nested.

Parentheses that do not match make no operand. After a surplus of closing ones
all tokens are taken together until the surplus is made good, and an opening one
that is never closed takes all tokens after it.
-/

namespace Brushwork

/-- The operand of tokens whose parentheses do not match: they form none. -/
def Item.ofLost (tokens : List Token) : Item := .operand (.unread (tokens.map .token))

/-- What has been read of a list of tokens. Lists run backwards, the latest first. -/
inductive Progress where
  /-- For each open parenthesis, the innermost first, `outer` holds what stands before it, and
  `items` follow the innermost. -/
  | inside (outer : List (List Item)) (items : List Item)
  /-- One parenthesis more than `surplus` was closed without being open: `tokens` follow `before`,
  from the first of these on. -/
  | astray (before : List Item) (surplus : Nat) (tokens : List Token)

namespace Progress

/-- Turns items in parentheses, which are given in their order, into an operand after the items
before the parentheses, which run backwards. -/
def close : (before : List Item) → (inner : List Item) → List Item
  | .token (.name query) :: before, inner =>
    .operand (.call query ((commaParts inner).map Expr.ofItems)) :: before
  | before, inner => .operand (.group (Expr.ofItems inner)) :: before

def step : Progress → Token → Progress
  | .inside outer items, .opening => .inside (items :: outer) []
  | .inside (before :: outer) items, .closing => .inside outer (close before items.reverse)
  | .inside [] items, .closing => .astray items 0 [.closing]
  | .inside outer items, token => .inside outer (.token token :: items)
  | .astray before 0 tokens, .opening =>
    .inside [] (Item.ofLost (.opening :: tokens).reverse :: before)
  | .astray before (surplus + 1) tokens, .opening =>
    .astray before surplus (.opening :: tokens)
  | .astray before surplus tokens, .closing =>
    .astray before (surplus + 1) (.closing :: tokens)
  | .astray before surplus tokens, token => .astray before surplus (token :: tokens)

/-- The items in the end, given the tokens from an open parenthesis on, the items before it and
those before the parentheses around it. -/
def unclosed (tokens : List Token) (before : List Item) : (outer : List (List Item)) → List Item
  | [] => before.reverse ++ [.ofLost tokens]
  | next :: outer =>
    unclosed (.opening :: Item.allBefore before.reverse tokens) next outer

def finish : Progress → List Item
  | .inside [] items => items.reverse
  | .inside (before :: outer) items =>
    unclosed (.opening :: Item.allTokens items.reverse) before outer
  | .astray before _ tokens => before.reverse ++ [.ofLost tokens.reverse]

end Progress

/-- The items that tokens make outside all parentheses. -/
def Item.ofTokens (tokens : List Token) : List Item :=
  (tokens.foldl Progress.step (.inside [] [])).finish

def Expr.ofTokens (tokens : List Token) : Expr := .ofItems (Item.ofTokens tokens)

end Brushwork

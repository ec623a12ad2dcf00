import Brushwork.Proofs.Expr.Tiers

/-!
# Phrases are read as they are written

One token after another, the tokens of a phrase add its items to those before
them and leave the open parentheses as they are. A pair of parentheses turns
what it holds into one item, which the tiers have read by then. So the reader
makes the tree of a phrase out of its tokens (`Phrase.ofTokens_tokens`).
-/

namespace Brushwork

namespace Token

def isParenthesis : Token → Bool
  | .opening | .closing => true
  | _ => false

/-- Whether a token stands between two phrases. -/
def divides : Token → Bool
  | .arith _ | .compare _ | .both | .either | .comma => true
  | _ => false

theorem isParenthesis_of_divides {token : Token} (h : token.divides = true) :
    token.isParenthesis = false := by
  cases token with
  | opening | closing => cases h
  | _ => rfl

end Token

namespace Progress

/-- Parentheses that open after the items are a group, for no name stands right before them. -/
def Ready (items : List Item) : Prop := ∀ query rest, items ≠ .token (.name query) :: rest

theorem ready_nil : Ready [] := by
  intro query rest h
  cases h

theorem ready_cons {token : Token} (h : token.divides = true) (items : List Item) :
    Ready (.token token :: items) := by
  intro query rest heq
  injection heq with hitem
  injection hitem with htoken
  subst htoken
  cases h

theorem close_group {before : List Item} (h : Ready before) (inner : List Item) :
    close before inner = .operand (.group (Expr.ofItems inner)) :: before := by
  unfold close
  split
  · rename_i query rest
    exact absurd rfl (h query rest)
  · rfl

theorem step_token {token : Token} (h : token.isParenthesis = false) (outer : List (List Item))
    (items : List Item) :
    step (.inside outer items) token = .inside outer (.token token :: items) := by
  cases token with
  | opening | closing => cases h
  | _ => cases outer <;> rfl

/-- Wherever an operand may stand, the tokens are read as the items. -/
def Reads (tokens : List Token) (items : List Item) : Prop :=
  ∀ outer before, Ready before →
    tokens.foldl step (.inside outer before) = .inside outer (items.reverse ++ before)

theorem reads_nil : Reads [] [] := by
  intro outer before _
  rfl

theorem reads_token {token : Token} (h : token.isParenthesis = false) :
    Reads [token] [.token token] := by
  intro outer before _
  exact step_token h outer before

/-- Tokens between which an operator or a comma stands are read apart. -/
theorem Reads.append {a b : List Token} {as bs : List Item} (ha : Reads a as) (hb : Reads b bs)
    (token : Token) (h : token.divides = true) :
    Reads (a ++ token :: b) (as ++ .token token :: bs) := by
  intro outer before hbefore
  rw [List.foldl_append, ha outer before hbefore, List.foldl_cons,
    step_token (Token.isParenthesis_of_divides h), hb outer _ (ready_cons h _)]
  simp

theorem Reads.group {tokens : List Token} {items : List Item} (h : Reads tokens items) :
    Reads (.opening :: (tokens ++ [.closing])) [.operand (.group (Expr.ofItems items))] := by
  intro outer before hbefore
  have hinner := h (before :: outer) [] ready_nil
  rw [List.append_nil] at hinner
  simp [step, hinner, close_group hbefore]

theorem Reads.query {tokens : List Token} {items : List Item} (h : Reads tokens items)
    (query : Text) :
    Reads (.name query :: .opening :: (tokens ++ [.closing]))
      [.operand (.call query ((commaParts items).map Expr.ofItems))] := by
  intro outer before _
  have hinner := h ((.token (.name query) :: before) :: outer) [] ready_nil
  rw [List.append_nil] at hinner
  simp [step, hinner, close]

end Progress

open Progress Cuts

/-- An argument of a query: its tokens, the items as which they are read, and their tree. -/
structure Argument where
  tokens : List Token
  items : List Item
  expr : Expr
  reads : Reads tokens items
  ofItems_eq : Expr.ofItems items = expr
  uncut : ∀ before : Option Item, before.any Item.endsOperand = false →
    Uncut (acceptOnly .comma) before items
  nonempty : items ≠ []

namespace Argument

def ofColor (color : ColorWord) : Argument where
  tokens := [color.token]
  items := [.token color.token]
  expr := color.expr
  reads := by cases color <;> exact reads_token rfl
  ofItems_eq := by cases color <;> rfl
  uncut _ _ := by cases color <;> exact ⟨rfl, trivial⟩
  nonempty := List.cons_ne_nil _ _

def ofPhrase (p : Phrase .either) (h : Reads p.tokens p.items) : Argument where
  tokens := p.tokens
  items := p.items
  expr := p.expr
  reads := h
  ofItems_eq := p.read_items
  uncut := p.uncut_items .comma
  nonempty hnil := by
    obtain ⟨item, hlast, -⟩ := p.exists_getLast?_items
    simp [hnil] at hlast

def allItems (arguments : List Argument) : List Item :=
  [.token .comma].intercalate (arguments.map items)

theorem reads_allItems (arguments : List Argument) :
    Reads ([.comma].intercalate (arguments.map tokens)) (allItems arguments) := by
  unfold allItems
  induction arguments with
  | nil => exact reads_nil
  | cons first rest ih =>
    cases rest with
    | nil => simpa using first.reads
    | cons second rest =>
      simpa [List.intercalate_cons_cons] using first.reads.append ih .comma rfl

theorem parts_allItems (first : Argument) (rest : List Argument) (before : Option Item)
    (hbefore : before.any Item.endsOperand = false) :
    (Cuts.ofItems (acceptOnly .comma) before (allItems (first :: rest))).parts =
      (first :: rest).map items := by
  unfold allItems
  induction rest generalizing first before with
  | nil => simp [parts, (first.uncut before hbefore).ofItems_eq]
  | cons second rest ih =>
    have hparts := parts_append (b := [.token .comma].intercalate ((second :: rest).map items))
      (first.uncut before hbefore) (acceptOnly_self .comma _)
    rw [ih second _ rfl] at hparts
    simpa [List.intercalate_cons_cons] using hparts

theorem commaParts_allItems (arguments : List Argument) :
    commaParts (allItems arguments) = arguments.map items := by
  cases arguments with
  | nil => rfl
  | cons first rest =>
    have hnonempty : allItems (first :: rest) ≠ [] := by
      cases rest with
      | nil => simpa [allItems] using first.nonempty
      | cons second rest => simp [allItems, List.intercalate_cons_cons]
    simp [commaParts, hnonempty, parts_allItems]

theorem reads_query (query : Query) (arguments : List Argument) :
    Reads (Phrase.queryTokens query (arguments.map tokens))
      [.operand (.call query.name (arguments.map expr))] := by
  have hexpr : Expr.ofItems ∘ items = expr := funext ofItems_eq
  have h := (reads_allItems arguments).query query.name
  rw [commaParts_allItems, List.map_map, hexpr] at h
  exact h

end Argument

namespace Phrase

variable {t : Tier}

/-- The tokens of a phrase are read as its items. -/
theorem reads_items (p : Phrase t) : Reads p.tokens p.items := by
  induction p with
  | number | name | truth => exact reads_token rfl
  | group inner ih =>
    have h := ih.group
    rwa [← Tier.read, inner.read_items] at h
  | actualX => exact Argument.reads_query .actualX []
  | actualY => exact Argument.reads_query .actualY []
  | canvasSize => exact Argument.reads_query .canvasSize []
  | brushColor color => exact Argument.reads_query .brushColor [.ofColor color]
  | brushSize size ih => exact Argument.reads_query .brushSize [.ofPhrase size ih]
  | canvasColor color vertical horizontal ihv ihh =>
    exact Argument.reads_query .canvasColor
      [.ofColor color, .ofPhrase vertical ihv, .ofPhrase horizontal ihh]
  | colorCount color x₁ y₁ x₂ y₂ ihx₁ ihy₁ ihx₂ ihy₂ =>
    exact Argument.reads_query .colorCount
      [.ofColor color, .ofPhrase x₁ ihx₁, .ofPhrase y₁ ihy₁, .ofPhrase x₂ ihx₂, .ofPhrase y₂ ihy₂]
  | negate inner ih => exact reads_nil.append ih _ rfl
  | power left right ihl ihr | product op hop left right ihl ihr | sum op hop left right ihl ihr
  | compare op left right ihl ihr | both left right ihl ihr | either left right ihl ihr =>
    exact ihl.append ihr _ rfl
  | ofOperand inner ih | ofPower inner ih | ofProduct inner ih | ofSum inner ih
  | ofComparison inner ih | ofBoth inner ih => exact ih

/-- The reader makes the tree of a phrase out of its tokens. -/
theorem ofTokens_tokens (p : Phrase .either) : Expr.ofTokens p.tokens = p.expr := by
  have hitems : Item.ofTokens p.tokens = p.items := by
    simp [Item.ofTokens, p.reads_items [] [] ready_nil, finish]
  rw [Expr.ofTokens, hitems]
  exact p.read_items

end Phrase

end Brushwork

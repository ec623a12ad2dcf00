import Brushwork.Expr.Reader
import Brushwork.Proofs.Expr.Cutting

/-!
# No token is lost

The tree that the reader makes is written by the very tokens that were read, in
their order, whether or not they form an expression (`Expr.tokens_ofTokens`). Each
tier keeps the tokens of its items: what is cut off at an operator comes back when
the parts are joined. While tokens are read, the open parentheses and the items
before and after them hold all tokens so far.
-/

namespace Brushwork

namespace Expr

@[simp] theorem tokens_empty : Expr.empty.tokens = [] := rfl

@[simp] theorem tokens_number (n : Int) : (Expr.number n).tokens = [.number n] := rfl

@[simp] theorem tokens_name (t : Text) : (Expr.name t).tokens = [.name t] := rfl

@[simp] theorem tokens_quotation (t : Text) : (Expr.quotation t).tokens = [.quotation t] := rfl

@[simp] theorem tokens_truth (b : Bool) : (Expr.truth b).tokens = [.truth b] := rfl

@[simp] theorem tokens_group (e : Expr) :
    (Expr.group e).tokens = .opening :: (e.tokens ++ [.closing]) := by
  rw [tokens, tokensBefore, tokensBefore_eq]

@[simp] theorem tokens_negate (e : Expr) : (Expr.negate e).tokens = .arith .sub :: e.tokens := rfl

@[simp] theorem tokens_arith (op : Arith) (left right : Expr) :
    (Expr.arith op left right).tokens = left.tokens ++ .arith op :: right.tokens := by
  rw [tokens, tokensBefore, tokensBefore_eq]
  rfl

@[simp] theorem tokens_compare (op : Comparison) (left right : Expr) :
    (Expr.compare op left right).tokens = left.tokens ++ .compare op :: right.tokens := by
  rw [tokens, tokensBefore, tokensBefore_eq]
  rfl

@[simp] theorem tokens_both (left right : Expr) :
    (Expr.both left right).tokens = left.tokens ++ .both :: right.tokens := by
  rw [tokens, tokensBefore, tokensBefore_eq]
  rfl

@[simp] theorem tokens_either (left right : Expr) :
    (Expr.either left right).tokens = left.tokens ++ .either :: right.tokens := by
  rw [tokens, tokensBefore, tokensBefore_eq]
  rfl

theorem argumentsBefore_eq (arguments : List Expr) (rest : List Token) :
    argumentsBefore arguments rest = [.comma].intercalate (arguments.map tokens) ++ rest := by
  induction arguments with
  | nil => rfl
  | cons first others ih =>
    cases others with
    | nil => simp [argumentsBefore, tokensBefore_eq]
    | cons second others =>
      simp [argumentsBefore, tokensBefore_eq, ih, List.intercalate_cons_cons]

@[simp] theorem tokens_call (query : Text) (arguments : List Expr) :
    (Expr.call query arguments).tokens =
      .name query :: .opening :: ([.comma].intercalate (arguments.map tokens) ++ [.closing]) := by
  rw [tokens, tokensBefore, argumentsBefore_eq]

@[simp] theorem tokens_unread (items : List Item) :
    (Expr.unread items).tokens = Item.allTokens items := rfl

end Expr

namespace Item

theorem allBefore_eq (items : List Item) (rest : List Token) :
    allBefore items rest = allTokens items ++ rest :=
  allBefore_append items [] rest

@[simp] theorem allTokens_nil : allTokens [] = [] := rfl

@[simp] theorem allTokens_token (t : Token) (items : List Item) :
    allTokens (.token t :: items) = t :: allTokens items := rfl

@[simp] theorem allTokens_operand (e : Expr) (items : List Item) :
    allTokens (.operand e :: items) = e.tokens ++ allTokens items :=
  e.tokensBefore_eq _

@[simp] theorem allTokens_append (a b : List Item) :
    allTokens (a ++ b) = allTokens a ++ allTokens b := by
  induction a with
  | nil => rfl
  | cons item rest ih =>
    cases item with
    | token t => simp [ih]
    | operand e => simp [ih]

theorem allTokens_map_token (tokens : List Token) : allTokens (tokens.map .token) = tokens := by
  induction tokens with
  | nil => rfl
  | cons t rest ih => simp [ih]

@[simp] theorem allTokens_ofLost (tokens : List Token) (items : List Item) :
    allTokens (ofLost tokens :: items) = tokens ++ allTokens items := by
  simp [ofLost, allTokens_map_token]

end Item

namespace Cuts

variable {α : Type} {accept : Option Item → Token → Option α} {mark : α → Token}

/-- The tokens of items that were cut, each cut shown by its mark. -/
def tokens (mark : α → Token) (cuts : Cuts α) : List Token :=
  Item.allTokens cuts.first ++ cuts.others.flatMap fun cut => mark cut.1 :: Item.allTokens cut.2

/-- Cutting keeps the tokens if each token that is accepted can be told from its mark. -/
theorem tokens_ofItems (hmark : ∀ before t m, accept before t = some m → mark m = t)
    (before : Option Item) (items : List Item) :
    (ofItems accept before items).tokens mark = Item.allTokens items := by
  induction items generalizing before with
  | nil => rfl
  | cons item rest ih =>
    cases item with
    | operand e =>
      have hrest := ih (some (.operand e))
      simp only [tokens] at hrest
      simp [ofItems, tokens, hrest]
    | token t =>
      have hrest := ih (some (.token t))
      simp only [tokens] at hrest
      cases hm : accept before t with
      | none => simp [ofItems, hm, tokens, hrest]
      | some m => simp [ofItems, hm, tokens, hrest, hmark before t m hm]

/-- The parts between cuts are read and joined at each cut, in whatever order. -/
inductive Joined (read : List Item → Expr) (join : α → Expr → Expr → Expr) :
    Cuts α → Expr → Prop
  | part (items : List Item) : Joined read join ⟨items, []⟩ (read items)
  | cut {a b : Cuts α} {left right : Expr} (m : α) (hleft : Joined read join a left)
      (hright : Joined read join b right) :
      Joined read join ⟨a.first, a.others ++ (m, b.first) :: b.others⟩ (join m left right)

variable {read : List Item → Expr} {join : α → Expr → Expr → Expr}

theorem Joined.foldl {a : Cuts α} {left : Expr} (h : Joined read join a left)
    (others : List (α × List Item)) :
    Joined read join ⟨a.first, a.others ++ others⟩
      (others.foldl (fun e cut => join cut.1 e (read cut.2)) left) := by
  induction others generalizing a left with
  | nil => simpa using h
  | cons cut rest ih => simpa using ih (h.cut cut.1 (.part cut.2))

theorem joined_gather (cuts : Cuts α) : Joined read join cuts (cuts.gather read join) :=
  Joined.foldl (.part cuts.first) cuts.others

theorem joined_gatherRight (cuts : Cuts α) :
    Joined read join cuts (cuts.gatherRight read join) := by
  obtain ⟨first, others⟩ := cuts
  induction others generalizing first with
  | nil => exact .part first
  | cons cut rest ih => exact .cut cut.1 (.part first) (ih cut.2)

/-- What is read between cuts and joined there has the tokens of the items. -/
theorem Joined.tokens_eq {cuts : Cuts α} {e : Expr} (h : Joined read join cuts e)
    (hread : ∀ items, (read items).tokens = Item.allTokens items)
    (hjoin : ∀ m left right,
      (join m left right).tokens = left.tokens ++ mark m :: right.tokens) :
    e.tokens = cuts.tokens mark := by
  induction h with
  | part items => simp [tokens, hread]
  | cut m hleft hright ihl ihr => simp [hjoin, ihl, ihr, tokens]

theorem tokens_eq_intercalate (t : Token) (cuts : Cuts α) :
    cuts.tokens (fun _ => t) = [t].intercalate (cuts.parts.map Item.allTokens) := by
  obtain ⟨first, others⟩ := cuts
  simp only [tokens, parts]
  induction others generalizing first with
  | nil => simp
  | cons cut rest ih =>
    have hrest := ih cut.2
    simp only [List.map_cons] at hrest
    simp only [List.flatMap_cons, List.map_cons, List.intercalate_cons_cons, ← hrest]
    simp

end Cuts

namespace Expr

theorem tokens_ofOperand (items : List Item) :
    (ofOperand items).tokens = Item.allTokens items := by
  fun_induction ofOperand items with
  | case2 rest ih => simp [ih]
  | case7 e => simp
  | _ => rfl

/-- A tier keeps the tokens if the next tighter one does: its cuts show the tokens they are made
at, and so do its nodes. -/
theorem tokens_ofCuts {α : Type} {accept : Option Item → Token → Option α} {mark : α → Token}
    {read : List Item → Expr} {join : α → Expr → Expr → Expr} {items : List Item} {e : Expr}
    (h : Cuts.Joined read join (Cuts.ofItems accept none items) e)
    (hmark : ∀ before t m, accept before t = some m → mark m = t)
    (hread : ∀ items, (read items).tokens = Item.allTokens items)
    (hjoin : ∀ m left right,
      (join m left right).tokens = left.tokens ++ mark m :: right.tokens) :
    e.tokens = Item.allTokens items := by
  rw [h.tokens_eq hread hjoin]
  exact Cuts.tokens_ofItems hmark none items

theorem tokens_ofPower (items : List Item) : (ofPower items).tokens = Item.allTokens items :=
  tokens_ofCuts (Cuts.joined_gather _) (fun _ _ _ h => (eq_of_powerOperator h).1)
    tokens_ofOperand tokens_arith

theorem tokens_ofProduct (items : List Item) : (ofProduct items).tokens = Item.allTokens items :=
  tokens_ofCuts (Cuts.joined_gather _) (fun _ _ _ h => (eq_of_productOperator h).1)
    tokens_ofPower tokens_arith

theorem tokens_ofSum (items : List Item) : (ofSum items).tokens = Item.allTokens items :=
  tokens_ofCuts (Cuts.joined_gather _) (fun _ _ _ h => (eq_of_sumOperator h).1)
    tokens_ofProduct tokens_arith

theorem tokens_ofComparison (items : List Item) :
    (ofComparison items).tokens = Item.allTokens items :=
  tokens_ofCuts (Cuts.joined_gatherRight _) (fun _ _ _ h => eq_of_comparisonOperator h)
    tokens_ofSum tokens_compare

theorem tokens_ofBoth (items : List Item) : (ofBoth items).tokens = Item.allTokens items :=
  tokens_ofCuts (Cuts.joined_gather _) (fun _ _ _ h => eq_of_acceptOnly h) tokens_ofComparison
    fun _ => tokens_both

theorem tokens_ofItems (items : List Item) : (ofItems items).tokens = Item.allTokens items :=
  tokens_ofCuts (Cuts.joined_gather _) (fun _ _ _ h => eq_of_acceptOnly h) tokens_ofBoth
    fun _ => tokens_either

end Expr

theorem intercalate_commaParts (items : List Item) :
    [.comma].intercalate ((commaParts items).map Item.allTokens) = Item.allTokens items := by
  cases items with
  | nil => rfl
  | cons item rest =>
    calc [.comma].intercalate ((commaParts (item :: rest)).map Item.allTokens)
      _ = (Cuts.ofItems (acceptOnly .comma) none (item :: rest)).tokens fun _ => .comma :=
        (Cuts.tokens_eq_intercalate .comma _).symm
      _ = Item.allTokens (item :: rest) :=
        Cuts.tokens_ofItems (fun _ _ _ h => eq_of_acceptOnly h) none _

namespace Progress

/-- The tokens before the innermost open parenthesis, and that parenthesis. -/
def outerTokens : List (List Item) → List Token
  | [] => []
  | before :: outer => outerTokens outer ++ (Item.allTokens before.reverse ++ [.opening])

def tokens : Progress → List Token
  | .inside outer items => outerTokens outer ++ Item.allTokens items.reverse
  | .astray before _ tokens => Item.allTokens before.reverse ++ tokens.reverse

theorem allTokens_close (before inner : List Item) :
    Item.allTokens (close before inner).reverse =
      Item.allTokens before.reverse ++ .opening :: (Item.allTokens inner ++ [.closing]) := by
  unfold close
  split
  · have hparts : (commaParts inner).map (Expr.tokens ∘ Expr.ofItems) =
        (commaParts inner).map Item.allTokens :=
      List.map_congr_left fun part _ => Expr.tokens_ofItems part
    simp [hparts, intercalate_commaParts]
  · simp [Expr.tokens_ofItems]

theorem tokens_step (progress : Progress) (token : Token) :
    (progress.step token).tokens = progress.tokens ++ [token] := by
  unfold step
  split
  · simp [tokens, outerTokens]
  · simp [tokens, outerTokens, allTokens_close]
  · simp [tokens, outerTokens]
  · simp [tokens]
  · simp [tokens, outerTokens]
  · simp [tokens]
  · simp [tokens]
  · simp [tokens]

theorem tokens_foldl_step (progress : Progress) (read : List Token) :
    (read.foldl step progress).tokens = progress.tokens ++ read := by
  induction read generalizing progress with
  | nil => simp
  | cons token rest ih => simp [ih, tokens_step]

theorem allTokens_unclosed (read : List Token) (before : List Item) (outer : List (List Item)) :
    Item.allTokens (unclosed read before outer) =
      outerTokens outer ++ (Item.allTokens before.reverse ++ read) := by
  induction outer generalizing read before with
  | nil => simp [unclosed, outerTokens]
  | cons next outer ih => simp [unclosed, outerTokens, ih, Item.allBefore_eq]

theorem allTokens_finish (progress : Progress) :
    Item.allTokens progress.finish = progress.tokens := by
  unfold finish
  split
  · simp [tokens, outerTokens]
  · simp [tokens, outerTokens, allTokens_unclosed]
  · simp [tokens]

end Progress

theorem Item.allTokens_ofTokens (tokens : List Token) :
    Item.allTokens (Item.ofTokens tokens) = tokens := by
  rw [Item.ofTokens, Progress.allTokens_finish, Progress.tokens_foldl_step]
  rfl

/-- The tree of a list of tokens is written by these tokens, whatever they are. -/
theorem Expr.tokens_ofTokens (tokens : List Token) : (Expr.ofTokens tokens).tokens = tokens := by
  rw [Expr.ofTokens, Expr.tokens_ofItems, Item.allTokens_ofTokens]

end Brushwork

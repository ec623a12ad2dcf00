import Brushwork.Proofs.Expr.Cutting

/-!
# Phrases and the tiers of operators

The tokens of a phrase make items, one for each token outside parentheses and
one for each closed operand. Those items are cut at the operators of the phrase's
own tier and nowhere else: every other token among them binds tighter, and a
minus that is a sign follows no operand. So each tier reads the items of its
phrases back as their trees (`Phrase.read_items`).
-/

namespace Brushwork

open Cuts

/-- The tier to which a token belongs that stands outside parentheses in a phrase. -/
def Token.tier? : Token → Option Tier
  | .number _ | .name _ | .truth _ => some .operand
  | .arith op => some op.tier
  | .compare _ => some .comparison
  | .both => some .both
  | .either => some .either
  | _ => none

def Tier.read : Tier → List Item → Expr
  | .either => Expr.ofItems
  | .both => Expr.ofBoth
  | .comparison => Expr.ofComparison
  | .sum => Expr.ofSum
  | .product => Expr.ofProduct
  | .power => Expr.ofPower
  | .operand => Expr.ofOperand

def ColorWord.expr : ColorWord → Expr
  | .quoted t => .quotation t
  | .bare t => .name t

namespace Phrase

def expr {t : Tier} : Phrase t → Expr
  | number n => .number n
  | name t => .name t
  | truth b => .truth b
  | group inner => .group inner.expr
  | actualX => .call Query.actualX.name []
  | actualY => .call Query.actualY.name []
  | canvasSize => .call Query.canvasSize.name []
  | brushColor color => .call Query.brushColor.name [color.expr]
  | brushSize size => .call Query.brushSize.name [size.expr]
  | canvasColor color vertical horizontal =>
    .call Query.canvasColor.name [color.expr, vertical.expr, horizontal.expr]
  | colorCount color x₁ y₁ x₂ y₂ =>
    .call Query.colorCount.name [color.expr, x₁.expr, y₁.expr, x₂.expr, y₂.expr]
  | negate inner => .negate inner.expr
  | power left right => .arith .pow left.expr right.expr
  | product op _ left right => .arith op left.expr right.expr
  | sum op _ left right => .arith op left.expr right.expr
  | compare op left right => .compare op left.expr right.expr
  | both left right => .both left.expr right.expr
  | either left right => .either left.expr right.expr
  | ofOperand inner => inner.expr
  | ofPower inner => inner.expr
  | ofProduct inner => inner.expr
  | ofSum inner => inner.expr
  | ofComparison inner => inner.expr
  | ofBoth inner => inner.expr

/-- The items that the tokens of a phrase make. -/
def items {t : Tier} : Phrase t → List Item
  | number n => [.token (.number n)]
  | name t => [.token (.name t)]
  | truth b => [.token (.truth b)]
  | negate inner => .token (.arith .sub) :: inner.items
  | power left right => left.items ++ .token (.arith .pow) :: right.items
  | product op _ left right => left.items ++ .token (.arith op) :: right.items
  | sum op _ left right => left.items ++ .token (.arith op) :: right.items
  | compare op left right => left.items ++ .token (.compare op) :: right.items
  | both left right => left.items ++ .token .both :: right.items
  | either left right => left.items ++ .token .either :: right.items
  | ofOperand inner => inner.items
  | ofPower inner => inner.items
  | ofProduct inner => inner.items
  | ofSum inner => inner.items
  | ofComparison inner => inner.items
  | ofBoth inner => inner.items
  -- what ends with a closing parenthesis has been read by then
  | closed => [.operand closed.expr]

theorem getLast?_append_cons {a b : List Item} (item : Item) {last : Item}
    (h : b.getLast? = some last) : (a ++ item :: b).getLast? = some last := by
  simp [List.getLast?_cons, h]

/-- After a phrase, a minus subtracts. -/
theorem exists_getLast?_items {t : Tier} (p : Phrase t) :
    ∃ item, p.items.getLast? = some item ∧ item.endsOperand = true := by
  induction p with
  | number | name | truth => exact ⟨_, rfl, rfl⟩
  | group | actualX | actualY | canvasSize | brushColor | brushSize | canvasColor | colorCount =>
    exact ⟨_, rfl, rfl⟩
  | negate inner ih =>
    obtain ⟨item, hlast, hends⟩ := ih
    exact ⟨item, getLast?_append_cons (a := []) _ hlast, hends⟩
  | power left right ihl ihr | product op hop left right ihl ihr | sum op hop left right ihl ihr
  | compare op left right ihl ihr | both left right ihl ihr | either left right ihl ihr =>
    obtain ⟨item, hlast, hends⟩ := ihr
    exact ⟨item, getLast?_append_cons _ hlast, hends⟩
  | ofOperand inner ih | ofPower inner ih | ofProduct inner ih | ofSum inner ih
  | ofComparison inner ih | ofBoth inner ih => exact ih

end Phrase

theorem acceptOnly_self (which : Token) (before : Option Item) :
    acceptOnly which before which = some () := by
  simp [acceptOnly]

/-- What is not accepted in phrases of a tier: tokens that bind as tight as that tier, whatever
stands before them, and a minus that is a sign. -/
structure Refuses {α : Type} (accept : Option Item → Token → Option α) (t : Tier) : Prop where
  inside : ∀ {token u}, token.tier? = some u → t.rank ≤ u.rank →
    ∀ before, accept before token = none
  sign : ∀ {before : Option Item}, before.any Item.endsOperand = false →
    accept before (.arith .sub) = none

namespace Refuses

variable {α : Type} {accept : Option Item → Token → Option α} {t u : Tier}

theorem mono (h : Refuses accept t) (hrank : t.rank ≤ u.rank) : Refuses accept u :=
  ⟨fun htoken hu => h.inside htoken (Nat.le_trans hrank hu), h.sign⟩

theorem acceptOnly {which : Token}
    (h : ∀ u, which.tier? = some u → u.rank < t.rank) (hsign : which ≠ .arith .sub) :
    Refuses (acceptOnly which) t where
  inside {token u} htoken hu before := by
    have hne : token ≠ which := by
      rintro rfl
      exact absurd hu (Nat.not_le.2 (h u htoken))
    simp [Brushwork.acceptOnly, hne]
  sign _ := by simp [Brushwork.acceptOnly, hsign.symm]

theorem comma : Refuses (Brushwork.acceptOnly .comma) .either :=
  acceptOnly (by decide) (by decide)

theorem either : Refuses (Brushwork.acceptOnly .either) .both :=
  acceptOnly (by decide) (by decide)

theorem both : Refuses (Brushwork.acceptOnly .both) .comparison :=
  acceptOnly (by decide) (by decide)

/-- What accepts only tokens of a looser tier refuses those of a tier. -/
theorem of_accepted {looser : Tier}
    (haccept : ∀ {before token mark}, accept before token = some mark →
      token.tier? = some looser)
    (hrank : looser.rank < t.rank)
    (hsign : ∀ {before : Option Item}, before.any Item.endsOperand = false →
      accept before (.arith .sub) = none) : Refuses accept t where
  inside {token u} htoken hu before := by
    refine Option.eq_none_iff_forall_ne_some.2 fun mark hmark => ?_
    obtain rfl : looser = u := Option.some.inj ((haccept hmark).symm.trans htoken)
    exact absurd hu (Nat.not_le.2 hrank)
  sign := hsign

theorem comparisonOperator : Refuses comparisonOperator .sum := by
  refine of_accepted (fun h => ?_) (by decide : Tier.comparison.rank < _) fun _ => rfl
  rw [← eq_of_comparisonOperator h]
  rfl

theorem sumOperator : Refuses sumOperator .product := by
  refine of_accepted (fun h => ?_) (by decide : Tier.sum.rank < _) fun hbefore => ?_
  · obtain ⟨rfl, htier⟩ := eq_of_sumOperator h
    exact congrArg some htier
  · simp [Brushwork.sumOperator, hbefore]

theorem productOperator : Refuses productOperator .power := by
  refine of_accepted (fun h => ?_) (by decide : Tier.product.rank < _) fun _ => rfl
  obtain ⟨rfl, htier⟩ := eq_of_productOperator h
  exact congrArg some htier

theorem powerOperator : Refuses powerOperator .operand := by
  refine of_accepted (fun h => ?_) (by decide : Tier.power.rank < _) fun _ => rfl
  obtain ⟨rfl, rfl⟩ := eq_of_powerOperator h
  rfl

end Refuses

namespace Phrase

variable {α : Type} {accept : Option Item → Token → Option α} {t : Tier}

/-- The items of a phrase are whole to every reader that refuses its tier. -/
theorem uncut_items (p : Phrase t) (h : Refuses accept t) (before : Option Item)
    (hbefore : before.any Item.endsOperand = false) : Uncut accept before p.items := by
  induction p generalizing before with
  | number | name | truth => exact ⟨h.inside rfl (by decide) before, trivial⟩
  | group | actualX | actualY | canvasSize | brushColor | brushSize | canvasColor | colorCount =>
    exact trivial
  | negate inner ih => exact ⟨h.sign hbefore, ih h _ rfl⟩
  | power left right ihl ihr =>
    have hright := ihr (h.mono (by decide)) (some (.token (.arith .pow))) rfl
    exact (ihl h before hbefore).append (h.inside rfl (by decide)) hright
  | product op hop left right ihl ihr | sum op hop left right ihl ihr =>
    have htier : (Token.arith op).tier? = some _ := congrArg some hop
    have hright := ihr (h.mono (by decide)) (some (.token (.arith op))) rfl
    exact (ihl h before hbefore).append (h.inside htier (Nat.le_refl _)) hright
  | compare op left right ihl ihr =>
    have hright := ihr h (some (.token (.compare op))) rfl
    exact (ihl (h.mono (by decide)) before hbefore).append (h.inside rfl (by decide)) hright
  | both left right ihl ihr =>
    have hright := ihr (h.mono (by decide)) (some (.token .both)) rfl
    exact (ihl h before hbefore).append (h.inside rfl (by decide)) hright
  | either left right ihl ihr =>
    have hright := ihr (h.mono (by decide)) (some (.token .either)) rfl
    exact (ihl h before hbefore).append (h.inside rfl (by decide)) hright
  | ofOperand inner ih | ofPower inner ih | ofProduct inner ih | ofSum inner ih
  | ofComparison inner ih | ofBoth inner ih => exact ih (h.mono (by decide)) before hbefore

theorem productOperator_eq_some {op : Arith} (hop : op.tier = .product) (before : Option Item) :
    productOperator before (.arith op) = some op := by
  cases op with
  | mul | div | rem => rfl
  | add | sub | pow => cases hop

theorem sumOperator_eq_some {op : Arith} (hop : op.tier = .sum) (left : Phrase t) :
    sumOperator (left.items.getLast?.or none) (.arith op) = some op := by
  obtain ⟨item, hlast, hends⟩ := left.exists_getLast?_items
  cases op with
  | add => rfl
  | sub => simp [sumOperator, hlast, hends]
  | mul | div | rem | pow => cases hop

variable {u : Tier} {mark : α} {token : Token} {read : List Item → Expr}
  {join : α → Expr → Expr → Expr}

/-- A tier that joins from the left reads an operation as it reads the left side, with the right
side whole for the next tighter tier. -/
theorem gather_operation {left : Phrase t} {right : Phrase u} (h : Refuses accept u)
    (hmark : accept (left.items.getLast?.or none) token = some mark)
    (htoken : token.endsOperand = false)
    (ihl : (Cuts.ofItems accept none left.items).gather read join = left.expr)
    (ihr : read right.items = right.expr) :
    (Cuts.ofItems accept none (left.items ++ .token token :: right.items)).gather read join =
      join mark left.expr right.expr := by
  have hright := right.uncut_items h (some (.token token)) htoken
  rw [gather_append hmark hright, ihl, ihr]

/-- The comparisons are joined from the right, so the cuts of the right side are those of its own
phrase. -/
theorem read_comparison (op : Comparison) {left : Phrase .sum} {right : Phrase .comparison}
    (ihl : Tier.sum.read left.items = left.expr)
    (ihr : Tier.comparison.read right.items = right.expr) :
    Tier.comparison.read (left.items ++ .token (.compare op) :: right.items) =
      .compare op left.expr right.expr := by
  have hleft := left.uncut_items .comparisonOperator none rfl
  have hright : Cuts.ofItems comparisonOperator (some (.token (.compare op))) right.items =
      Cuts.ofItems comparisonOperator none right.items :=
    ofItems_before (fun _ _ _ => rfl) _ _ _
  calc Tier.comparison.read (left.items ++ .token (.compare op) :: right.items)
    _ = .compare op (Tier.sum.read left.items)
        ((Cuts.ofItems comparisonOperator (some (.token (.compare op))) right.items).gatherRight
          Expr.ofSum .compare) := gatherRight_append hleft rfl
    _ = .compare op (Tier.sum.read left.items) (Tier.comparison.read right.items) := by
      rw [hright]
      rfl
    _ = .compare op left.expr right.expr := by rw [ihl, ihr]

/-- Each tier reads the items of its phrases back as their trees. -/
theorem read_items (p : Phrase t) : t.read p.items = p.expr := by
  induction p with
  | number | name | truth => rfl
  | group | actualX | actualY | canvasSize | brushColor | brushSize | canvasColor | colorCount =>
    rfl
  | negate inner ih => exact congrArg Expr.negate ih
  | ofOperand inner ih => exact (inner.uncut_items .powerOperator none rfl).gather_eq.trans ih
  | ofPower inner ih => exact (inner.uncut_items .productOperator none rfl).gather_eq.trans ih
  | ofProduct inner ih => exact (inner.uncut_items .sumOperator none rfl).gather_eq.trans ih
  | ofSum inner ih =>
    exact (inner.uncut_items .comparisonOperator none rfl).gatherRight_eq.trans ih
  | ofComparison inner ih =>
    show Expr.ofBoth inner.items = inner.expr
    exact (inner.uncut_items .both none rfl).gather_eq.trans ih
  | ofBoth inner ih =>
    show Expr.ofItems inner.items = inner.expr
    exact (inner.uncut_items .either none rfl).gather_eq.trans ih
  | power left right ihl ihr => exact gather_operation .powerOperator rfl rfl ihl ihr
  | product op hop left right ihl ihr =>
    exact gather_operation .productOperator (productOperator_eq_some hop _) rfl ihl ihr
  | sum op hop left right ihl ihr =>
    exact gather_operation .sumOperator (sumOperator_eq_some hop left) rfl ihl ihr
  | compare op left right ihl ihr => exact read_comparison op ihl ihr
  | both left right ihl ihr =>
    show Expr.ofBoth (left.items ++ .token .both :: right.items) = .both left.expr right.expr
    exact gather_operation .both (acceptOnly_self .both _) rfl ihl ihr
  | either left right ihl ihr =>
    show Expr.ofItems (left.items ++ .token .either :: right.items) = .either left.expr right.expr
    exact gather_operation .either (acceptOnly_self .either _) rfl ihl ihr

end Phrase

end Brushwork

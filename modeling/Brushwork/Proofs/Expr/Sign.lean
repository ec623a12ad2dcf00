import Brushwork.Proofs.Expr.Arguments
import Brushwork.Proofs.Expr.Nesting

/-!
# Signs in front of an operand

A minus in front of an operand is its sign, for no operand ends before it. A plus is an
operator wherever it stands, so one at the beginning adds to the empty expression. That is
read first, at whatever tier the tokens after it are cut, and it is no number: nothing that
begins with a plus has a value.
-/

namespace Brushwork

namespace Token

/-- Whether a token stands for an operation on what is around it. -/
def isOperator : Token → Bool
  | .arith _ | .compare _ | .both | .either => true
  | _ => false

/-- No operator stands outside all parentheses. -/
def IsOperand (tokens : List Token) : Prop := Outside (fun t => t.isOperator = false) 0 tokens

instance (tokens : List Token) : Decidable (IsOperand tokens) :=
  inferInstanceAs (Decidable (Outside _ 0 tokens))

end Token

/-- Accepts operators only, and no minus at the beginning. -/
structure OnlyOperators {α : Type} (accept : Option Item → Token → Option α) : Prop where
  accepted : ∀ {before token mark}, accept before token = some mark → token.isOperator = true
  sign : accept none (.arith .sub) = none

namespace OnlyOperators

theorem acceptOnly {which : Token} (h : which.isOperator = true) (hsign : which ≠ .arith .sub) :
    OnlyOperators (acceptOnly which) where
  accepted haccepted := by rwa [← eq_of_acceptOnly haccepted]
  sign := if_neg hsign.symm

theorem comparisonOperator : OnlyOperators comparisonOperator where
  accepted h := by
    rw [← eq_of_comparisonOperator h]
    rfl
  sign := rfl

theorem sumOperator : OnlyOperators sumOperator where
  accepted h := by
    rw [← (eq_of_sumOperator h).1]
    rfl
  sign := rfl

theorem productOperator : OnlyOperators productOperator where
  accepted h := by
    rw [← (eq_of_productOperator h).1]
    rfl
  sign := rfl

theorem powerOperator : OnlyOperators powerOperator where
  accepted h := by
    rw [← (eq_of_powerOperator h).1]
    rfl
  sign := rfl

theorem uncut {α : Type} {accept : Option Item → Token → Option α} (h : OnlyOperators accept)
    {items : List Item} (hitems : ∀ t, .token t ∈ items → t.isOperator = false)
    (before : Option Item) : Cuts.Uncut accept before items := by
  refine Cuts.uncut_of_forall (fun t ht item => ?_) before
  refine Option.eq_none_iff_forall_ne_some.2 fun mark hmark => ?_
  have hoperator := hitems t ht
  rw [h.accepted hmark] at hoperator
  cases hoperator

end OnlyOperators

/-- No tier cuts the items. -/
def Item.Uncuttable (items : List Item) : Prop :=
  ∀ ⦃α : Type⦄ ⦃accept : Option Item → Token → Option α⦄, OnlyOperators accept →
    Cuts.Uncut accept none items

namespace Expr

variable {items : List Item}

theorem ofProduct_of_uncuttable (h : Item.Uncuttable items) :
    ofProduct items = ofOperand items := by
  rw [ofProduct, (h .productOperator).gather_eq, ofPower, (h .powerOperator).gather_eq]

theorem ofItems_of_uncuttable (h : Item.Uncuttable items) : ofItems items = ofOperand items := by
  rw [ofItems, (h (.acceptOnly rfl (by decide))).gather_eq, ofBoth,
    (h (.acceptOnly rfl (by decide))).gather_eq, ofComparison,
    (h .comparisonOperator).gatherRight_eq, ofSum, (h .sumOperator).gather_eq,
    ofProduct_of_uncuttable h]

/-- A minus in front of an operand negates it. -/
theorem ofItems_minus (h : ∀ t, .token t ∈ items → t.isOperator = false) :
    ofItems (.token (.arith .sub) :: items) = .negate (ofItems items) := by
  have hitems : Item.Uncuttable items := fun _ _ haccept => haccept.uncut h none
  have hminus : Item.Uncuttable (.token (.arith .sub) :: items) :=
    fun _ _ haccept => ⟨haccept.sign, haccept.uncut h _⟩
  rw [ofItems_of_uncuttable hminus, ofItems_of_uncuttable hitems]
  rfl

/-- A plus in front of an operand adds it to the empty expression. -/
theorem ofItems_plus (h : ∀ t, .token t ∈ items → t.isOperator = false) :
    ofItems (.token (.arith .add) :: items) = .arith .add .empty (ofItems items) := by
  have hitems : Item.Uncuttable items := fun _ _ haccept => haccept.uncut h none
  have heither : Cuts.Uncut (acceptOnly .either) none (.token (.arith .add) :: items) :=
    ⟨rfl, (OnlyOperators.acceptOnly rfl (by decide)).uncut h _⟩
  have hboth : Cuts.Uncut (acceptOnly .both) none (.token (.arith .add) :: items) :=
    ⟨rfl, (OnlyOperators.acceptOnly rfl (by decide)).uncut h _⟩
  have hcompare : Cuts.Uncut comparisonOperator none (.token (.arith .add) :: items) :=
    ⟨rfl, OnlyOperators.comparisonOperator.uncut h _⟩
  have hsum : ofSum (.token (.arith .add) :: items) = .arith .add .empty (ofProduct items) :=
    Cuts.gather_append (a := []) rfl (OnlyOperators.sumOperator.uncut h _)
  rw [ofItems, heither.gather_eq, ofBoth, hboth.gather_eq, ofComparison, hcompare.gatherRight_eq,
    hsum, ofProduct_of_uncuttable hitems, ofItems_of_uncuttable hitems]

end Expr

namespace Reading

/-- Neither reading finds anything but the fault, unless it lies too deep. -/
structure Fails (reading : Reading) (fault : Fault) : Prop where
  number : ∀ level, CutOff (reading.number level) (.error fault)
  truth : ∀ level, CutOff (reading.truth level) (.error fault)

variable {fault : Fault}

theorem fails_ofNumber {found : Nat → Except Fault Int}
    (h : ∀ level, CutOff (found level) (.error fault)) : (ofNumber found).Fails fault where
  number level := (h level).atLevel level
  truth level := (((h (level + 1)).map (· != 0)).atLevel (level + 1)).atLevel level

theorem fails_ofTruth {found : Nat → Except Fault Bool}
    (h : ∀ level, CutOff (found level) (.error fault)) : (ofTruth found).Fails fault where
  number level := (((h (level + 1)).map truthNumber).atLevel (level + 1)).atLevel level
  truth level := (h level).atLevel level

end Reading

section Missing

variable {α : Type} {read : List Item → Expr} {join : α → Expr → Expr → Expr} {P : Expr → Prop}

/-- What joining keeps of the left side, it keeps of the first part. -/
theorem Cuts.gather_of_first {cuts : Cuts α}
    (hjoin : ∀ mark left right, P left → P (join mark left right)) (h : P (read cuts.first)) :
    P (cuts.gather read join) :=
  List.foldlRecOn cuts.others _ h fun left hleft cut _ => hjoin cut.1 left _ hleft

theorem Cuts.gatherRight_of_first {cuts : Cuts α}
    (hjoin : ∀ mark left right, P left → P (join mark left right)) (h : P (read cuts.first)) :
    P (cuts.gatherRight read join) := by
  rw [gatherRight]
  cases cuts.others with
  | nil => exact h
  | cons cut rest => exact hjoin cut.1 _ _ h

namespace Expr

variable (scene : Scene)

/-- An operand is missing where an expression is read first. -/
def Missing (e : Expr) : Prop := (e.reading scene).Fails .emptyExpression

variable {scene}

theorem Missing.arith (op : Arith) {left : Expr} (right : Expr)
    (h : ∀ level, CutOff ((left.reading scene).number level) (.error .emptyExpression)) :
    Missing scene (.arith op left right) :=
  Reading.fails_ofNumber fun level => (h level).bind fun _ => .refl _

theorem Missing.compare (op : Comparison) {left : Expr} (right : Expr) (h : Missing scene left) :
    Missing scene (.compare op left right) :=
  Reading.fails_ofTruth fun level => (h.number (level + 1)).bind fun _ => .refl _

theorem Missing.both {left : Expr} (right : Expr) (h : Missing scene left) :
    Missing scene (.both left right) :=
  Reading.fails_ofTruth fun level => (h.truth level).bind fun _ => .refl _

theorem Missing.either {left : Expr} (right : Expr) (h : Missing scene left) :
    Missing scene (.either left right) :=
  Reading.fails_ofTruth fun level => (h.truth level).bind fun _ => .refl _

theorem missing_ofSum (items : List Item) :
    Missing scene (ofSum (.token (.arith .add) :: items)) := by
  have hempty : ∀ level, CutOff ((empty.reading scene).number level) (.error .emptyExpression) :=
    fun level => (CutOff.refl _).atLevel level
  exact List.foldlRecOn (Cuts.ofItems sumOperator _ items).others _ (Missing.arith .add _ hempty)
    fun left hleft cut _ => Missing.arith cut.1 _ hleft.number

theorem missing_ofComparison (items : List Item) :
    Missing scene (ofComparison (.token (.arith .add) :: items)) :=
  Cuts.gatherRight_of_first (fun op _ right h => h.compare op right) (missing_ofSum _)

theorem missing_ofBoth (items : List Item) :
    Missing scene (ofBoth (.token (.arith .add) :: items)) :=
  Cuts.gather_of_first (fun _ _ right h => h.both right) (missing_ofComparison _)

theorem missing_ofItems (items : List Item) :
    Missing scene (ofItems (.token (.arith .add) :: items)) :=
  Cuts.gather_of_first (fun _ _ right h => h.either right) (missing_ofBoth _)

end Expr

end Missing

namespace Scene

/-- Whatever begins with a plus lacks an operand, and neither of its readings finds anything else
but that it lies too deep. In front of an operand a minus is a sign, one level of nesting deeper,
and a plus is none. -/
theorem leading_plus_is_no_sign (scene : Scene) (tokens : List Token) (level : Nat) :
    CutOff (scene.number (.arith .add :: tokens) level) (.error .emptyExpression) ∧
    CutOff (scene.truth (.arith .add :: tokens) level) (.error .emptyExpression) ∧
    (Token.IsOperand tokens → level ≤ deepest →
      scene.number (.arith .add :: tokens) level = .error .emptyExpression ∧
      scene.number (.arith .sub :: tokens) level =
        (do inWord (-(← scene.number tokens (level + 1))))) := by
  have hnothing : List.foldl Token.depthAfter 0 [] = 0 := rfl
  have hsign (op : Arith) :
      Item.ofTokens (.arith op :: tokens) = .token (.arith op) :: Item.ofTokens tokens :=
    Item.ofTokens_append hnothing rfl tokens
  have hmissing : Expr.Missing scene (.ofTokens (.arith .add :: tokens)) := by
    rw [Expr.ofTokens, hsign]
    exact Expr.missing_ofItems _
  refine ⟨hmissing.number level, hmissing.truth level, fun hoperand hlevel => ?_⟩
  have hitems := Item.forall_ofTokens hoperand
  have hread : ¬ deepest < level := Nat.not_lt.2 hlevel
  constructor
  · rw [number, Expr.ofTokens, hsign, Expr.ofItems_plus hitems]
    simp [Expr.reading, Reading.ofNumber, Reading.ofEach, atLevel, hread]
  · rw [number, Expr.ofTokens, hsign, Expr.ofItems_minus hitems, number, Expr.ofTokens]
    exact if_neg hread

/-- A group of a sum, and the three ways to begin with it. -/
theorem leading_plus_is_no_sign_group :
    let scene : Scene := ⟨.fresh 10, .empty⟩
    let tokens : List Token := [.opening, .number 1, .arith .add, .number 2, .closing]
    Token.IsOperand tokens ∧ scene.number tokens 1 = .ok 3 ∧
      scene.number (.arith .add :: tokens) 0 = .error .emptyExpression ∧
      scene.number (.arith .sub :: tokens) 0 = .ok (-3) := by
  intro scene tokens
  have hoperand : Token.IsOperand tokens := by decide
  have hnumber : scene.number tokens 1 = .ok 3 := by decide +kernel
  obtain ⟨-, -, hsigns⟩ := leading_plus_is_no_sign scene tokens 0
  obtain ⟨hplus, hminus⟩ := hsigns hoperand (Nat.zero_le _)
  rw [hnumber] at hminus
  exact ⟨hoperand, hnumber, hplus, hminus⟩

/-- A plus in front of an operand is not neutral. -/
theorem plus_sign_not_neutral :
    ¬ ∀ (scene : Scene) (tokens : List Token) (level : Nat), Token.IsOperand tokens →
      level < deepest → ∀ n, scene.number tokens (level + 1) = .ok n →
        scene.number (.arith .add :: tokens) level = .ok n := by
  intro h
  have hneutral := h ⟨.fresh 10, .empty⟩ [.number 5] 0 (by decide) (by decide) 5 rfl
  exact absurd hneutral (by decide +kernel)

end Scene

end Brushwork

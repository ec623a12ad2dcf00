import Brushwork.Proofs.Expr.Causes
import Brushwork.Proofs.Expr.Sign

/-!
# Chains are not nesting

A chain is a list of one-token operands with an arithmetic operator or a connective
between each two. However long it is, each tier cuts it into shorter chains of
tighter operators, so nothing in it is a sign, a group or a query, and its readings
go down by two levels at most: one from the number of a connective to its truth
value, and one from there to the numbers it compares with zero. Nesting alone, then,
can lead beyond the deepest level, and all that happens there is that the reading is
cut off.
-/

namespace Brushwork

namespace Token

def isAtom : Token → Bool
  | .number _ | .name _ | .truth _ => true
  | _ => false

/-- Whether a token is an arithmetic operator or a connective of a tier or a tighter one. -/
def joinsFrom (t : Tier) : Token → Bool
  | .arith op => t.rank ≤ op.tier.rank
  | .both => t.rank ≤ Tier.both.rank
  | .either => t.rank ≤ Tier.either.rank
  | _ => false

/-- One-token operands, with an operator of a tier or a tighter one between each two. -/
inductive Chain (t : Tier) : List Token → Prop
  | atom {token : Token} (h : token.isAtom = true) : Chain t [token]
  | join {token op : Token} {rest : List Token} (h : token.isAtom = true)
      (hop : op.joinsFrom t = true) (hrest : Chain t rest) : Chain t (token :: op :: rest)

theorem isOperator_of_isAtom {token : Token} (h : token.isAtom = true) :
    token.isOperator = false := by
  cases token with
  | number | name | truth => rfl
  | _ => cases h

theorem isParenthesis_of_isAtom {token : Token} (h : token.isAtom = true) :
    token.isParenthesis = false := by
  cases token with
  | opening | closing => cases h
  | _ => rfl

theorem divides_of_joinsFrom {t : Tier} {op : Token} (h : op.joinsFrom t = true) :
    op.divides = true := by
  cases op with
  | arith | both | either => rfl
  | _ => cases h

end Token

open Token Progress

variable {t u : Tier} {tokens : List Token}

/-- Each token of a chain is an item. -/
theorem Token.Chain.ofTokens_eq (h : Chain t tokens) :
    Item.ofTokens tokens = tokens.map .token := by
  have hreads : Reads tokens (tokens.map .token) := by
    induction h with
    | atom h => exact reads_token (isParenthesis_of_isAtom h)
    | join h hop _ ih =>
      exact (reads_token (isParenthesis_of_isAtom h)).append ih _ (divides_of_joinsFrom hop)
  simp [Item.ofTokens, hreads [] [] ready_nil, finish]

/-- Items that are the tokens of a chain. -/
def Item.IsChain (t : Tier) (items : List Item) : Prop :=
  ∃ tokens, Chain t tokens ∧ items = tokens.map .token

/-- Cuts a chain of one tier at all its operators but those of another tier. -/
structure Splits {α : Type} (accept : Option Item → Token → Option α) (t u : Tier) : Prop where
  only : OnlyOperators accept
  kept : ∀ {token op}, token.isAtom = true → op.joinsFrom t = true →
    accept (some (.token token)) op = none → op.joinsFrom u = true

theorem OnlyOperators.atom {α : Type} {accept : Option Item → Token → Option α}
    (h : OnlyOperators accept) {token : Token} (htoken : token.isAtom = true)
    (before : Option Item) : accept before token = none := by
  refine Option.eq_none_iff_forall_ne_some.2 fun mark hmark => ?_
  have hoperator := h.accepted hmark
  rw [isOperator_of_isAtom htoken] at hoperator
  cases hoperator

section Cutting

variable {α : Type} {accept : Option Item → Token → Option α}

/-- A chain is cut into chains of tighter operators. -/
theorem Token.Chain.ofItems (h : Chain t tokens) (hsplits : Splits accept t u)
    (before : Option Item) :
    Item.IsChain u (Cuts.ofItems accept before (tokens.map .token)).first ∧
      ∀ cut ∈ (Cuts.ofItems accept before (tokens.map .token)).others, Item.IsChain u cut.2 := by
  induction h generalizing before with
  | @atom token htoken =>
    simp only [List.map_cons, List.map_nil, Cuts.ofItems, hsplits.only.atom htoken]
    exact ⟨⟨[token], .atom htoken, rfl⟩, by simp⟩
  | @join token op rest htoken hop _ ih =>
    obtain ⟨hfirst, hothers⟩ := ih (some (.token op))
    simp only [List.map_cons, Cuts.ofItems, hsplits.only.atom htoken]
    cases haccept : accept (some (.token token)) op with
    | some mark =>
      exact ⟨⟨[token], .atom htoken, rfl⟩, List.forall_mem_cons.2 ⟨hfirst, hothers⟩⟩
    | none =>
      obtain ⟨part, hpart, heq⟩ := hfirst
      have hjoined := Chain.join htoken (hsplits.kept htoken hop haccept) hpart
      exact ⟨⟨token :: op :: part, hjoined, by simp [heq]⟩, hothers⟩

variable {read : List Item → Expr} {join : α → Expr → Expr → Expr} {P Q : Expr → Prop}
  {items : List Item}

/-- What reading gives to every part, and joining keeps, holds of a whole chain. -/
theorem Item.IsChain.gather (h : IsChain t items) (hsplits : Splits accept t u)
    (hread : ∀ {part}, IsChain u part → Q (read part)) (hfirst : ∀ {e}, Q e → P e)
    (hjoin : ∀ mark {left right}, P left → Q right → P (join mark left right)) :
    P ((Cuts.ofItems accept none items).gather read join) := by
  obtain ⟨tokens, hchain, rfl⟩ := h
  obtain ⟨hpart, hparts⟩ := hchain.ofItems hsplits none
  apply List.foldlRecOn
  · exact hfirst (hread hpart)
  · intro left hleft cut hcut
    exact hjoin cut.1 hleft (hread (hparts cut hcut))

end Cutting

theorem splits_either : Splits (acceptOnly .either) .either .both where
  only := .acceptOnly rfl (by decide)
  kept {_ op} _ hop haccept := by
    cases op with
    | arith op => cases op <;> rfl
    | both => rfl
    | either => cases haccept
    | _ => cases hop

/-- The tier of comparisons has no operators in a chain. -/
theorem splits_both : Splits (acceptOnly .both) .both .sum where
  only := .acceptOnly rfl (by decide)
  kept {_ op} _ hop haccept := by
    cases op with
    | arith op => cases op <;> rfl
    | both => cases haccept
    | _ => cases hop

theorem splits_sum : Splits sumOperator .sum .product where
  only := .sumOperator
  kept {token op} htoken hop haccept := by
    cases op with
    | arith op =>
      cases op with
      | add => cases haccept
      | sub =>
        have hends : token.endsOperand = true := by
          cases token with
          | number | name | truth => rfl
          | _ => cases htoken
        simp [sumOperator, Item.endsOperand, hends] at haccept
      | mul | div | rem | pow => rfl
    | _ => cases hop

theorem splits_product : Splits productOperator .product .power where
  only := .productOperator
  kept {_ op} _ hop haccept := by
    cases op with
    | arith op =>
      cases op with
      | add | sub => cases hop
      | mul | div | rem => cases haccept
      | pow => rfl
    | _ => cases hop

theorem splits_power : Splits powerOperator .power .operand where
  only := .powerOperator
  kept {_ op} _ hop haccept := by
    cases op with
    | arith op =>
      cases op with
      | pow => cases haccept
      | add | sub | mul | div | rem => cases hop
    | _ => cases hop

/-- A chain without operators is one operand. -/
theorem Item.IsChain.exists_atom {items : List Item} (h : IsChain .operand items) :
    ∃ token, token.isAtom = true ∧ items = [.token token] := by
  obtain ⟨tokens, hchain, rfl⟩ := h
  cases hchain with
  | @atom token htoken => exact ⟨token, htoken, rfl⟩
  | @join token op rest htoken hop hrest =>
    cases op with
    | arith op => cases op <;> cases hop
    | _ => cases hop

/-- Arithmetic operators do not compare. -/
theorem Item.IsChain.uncut_comparison {items : List Item} (h : IsChain .sum items) :
    Cuts.Uncut comparisonOperator none items := by
  obtain ⟨tokens, hchain, rfl⟩ := h
  generalize (none : Option Item) = before
  induction hchain generalizing before with
  | atom htoken => exact ⟨OnlyOperators.comparisonOperator.atom htoken before, trivial⟩
  | @join token op rest htoken hop _ ih =>
    refine ⟨OnlyOperators.comparisonOperator.atom htoken before, ?_, ih _⟩
    cases op with
    | arith op => rfl
    | _ => cases hop

/-- If the computation is refused, then not for lying too deep. -/
abbrev KeepsLevel {α : Type} (x : Except Fault α) : Prop :=
  RefusedFor (fun fault => fault ≠ .nestedTooDeeply) x

theorem RefusedFor.atLevel {α : Type} {P : Fault → Prop} {x : Except Fault α}
    (h : RefusedFor P x) {level : Nat} (hlevel : level ≤ deepest) :
    RefusedFor P (atLevel level x) := by
  rw [Brushwork.atLevel, if_neg (Nat.not_lt.2 hlevel)]
  exact h

namespace Reading

/-- The readings are not cut off if so many levels are left for the number, and so many for the
truth value. -/
structure Within (reading : Reading) (forNumber forTruth : Nat) : Prop where
  number : ∀ {level}, level + forNumber ≤ deepest → KeepsLevel (reading.number level)
  truth : ∀ {level}, level + forTruth ≤ deepest → KeepsLevel (reading.truth level)

theorem within_ofNumber {found : Nat → Except Fault Int}
    (h : ∀ {level}, level ≤ deepest → KeepsLevel (found level)) : (ofNumber found).Within 0 1 where
  number hlevel := (h hlevel).atLevel hlevel
  truth hlevel := (((h hlevel).map (· != 0)).atLevel hlevel).atLevel (Nat.le_of_succ_le hlevel)

theorem within_ofTruth {found : Nat → Except Fault Bool}
    (h : ∀ {level}, level + 1 ≤ deepest → KeepsLevel (found level)) :
    (ofTruth found).Within 2 1 where
  number {level} hlevel :=
    (((h hlevel).map truthNumber).atLevel (by omega)).atLevel (by omega)
  truth {level} hlevel := (h hlevel).atLevel (by omega)

end Reading

namespace Expr

variable {scene : Scene} {left right : Expr} {items : List Item}

/-- How many levels have to be left so that the readings of an expression are not cut off. -/
def Within (scene : Scene) (forNumber forTruth : Nat) (e : Expr) : Prop :=
  (e.reading scene).Within forNumber forTruth

theorem Within.loosen {e : Expr} (h : Within scene 0 1 e) : Within scene 2 1 e where
  number hlevel := h.number (Nat.le_of_add_right_le hlevel)
  truth := h.truth

theorem within_number (n : Int) : Within scene 0 1 (.number n) :=
  Reading.within_ofNumber fun _ => refusedFor_ok n

theorem within_truth (b : Bool) : Within scene 0 1 (.truth b) where
  number hlevel := RefusedFor.atLevel (refusedFor_error nofun) hlevel
  truth hlevel := (refusedFor_ok b).atLevel (Nat.le_of_succ_le hlevel)

theorem getInt_keepsLevel (vars : Variables) (t : Text) : KeepsLevel (vars.getInt t) :=
  vars.getInt_refusedFor nofun nofun

theorem within_name (t : Text) : Within scene 0 1 (.name t) where
  number hlevel := (getInt_keepsLevel scene.vars t).atLevel hlevel
  truth {level} hlevel := by
    have hchanged := ((getInt_keepsLevel scene.vars t).map (· != 0)).atLevel hlevel
    refine RefusedFor.atLevel ?_ (Nat.le_of_succ_le hlevel)
    cases scene.vars.get? t with
    | none => exact hchanged
    | some value =>
      cases value with
      | int n => exact hchanged
      | bool b => exact refusedFor_ok b

theorem within_arith (op : Arith) (hleft : Within scene 0 1 left)
    (hright : Within scene 0 1 right) : Within scene 0 1 (.arith op left right) :=
  Reading.within_ofNumber fun hlevel =>
    (hleft.number hlevel).bind fun a => (hright.number hlevel).bind fun b =>
      op.apply_refusedFor nofun nofun a b

theorem within_both (hleft : Within scene 2 1 left) (hright : Within scene 2 1 right) :
    Within scene 2 1 (.both left right) := by
  apply Reading.within_ofTruth
  intro level hlevel
  apply (hleft.truth hlevel).bind
  intro value
  cases value with
  | false => exact refusedFor_ok false
  | true => exact hright.truth hlevel

theorem within_either (hleft : Within scene 2 1 left) (hright : Within scene 2 1 right) :
    Within scene 2 1 (.either left right) := by
  apply Reading.within_ofTruth
  intro level hlevel
  apply (hleft.truth hlevel).bind
  intro value
  cases value with
  | false => exact hright.truth hlevel
  | true => exact refusedFor_ok true

theorem within_ofOperand (h : Item.IsChain .operand items) :
    Within scene 0 1 (ofOperand items) := by
  obtain ⟨token, htoken, rfl⟩ := h.exists_atom
  cases token with
  | number n => exact within_number n
  | name t => exact within_name t
  | truth b => exact within_truth b
  | _ => cases htoken

theorem within_ofPower (h : Item.IsChain .power items) : Within scene 0 1 (ofPower items) :=
  h.gather splits_power within_ofOperand id fun op => within_arith op

theorem within_ofProduct (h : Item.IsChain .product items) : Within scene 0 1 (ofProduct items) :=
  h.gather splits_product within_ofPower id fun op => within_arith op

theorem within_ofSum (h : Item.IsChain .sum items) : Within scene 0 1 (ofSum items) :=
  h.gather splits_sum within_ofProduct id fun op => within_arith op

theorem within_ofComparison (h : Item.IsChain .sum items) :
    Within scene 0 1 (ofComparison items) := by
  rw [ofComparison, h.uncut_comparison.gatherRight_eq]
  exact within_ofSum h

theorem within_ofBoth (h : Item.IsChain .both items) : Within scene 2 1 (ofBoth items) :=
  h.gather splits_both within_ofComparison Within.loosen fun _ {_ _} hleft hright =>
    within_both hleft hright.loosen

theorem within_ofItems (h : Item.IsChain .either items) : Within scene 2 1 (ofItems items) :=
  h.gather splits_either within_ofBoth id fun _ => within_either

end Expr

namespace Scene

/-- At a deeper level the tokens of an expression are worth the same, value or fault, or they are
nested too deeply. A source that is a chain never is, whatever its length. -/
theorem nesting_only_cuts_off (scene : Scene) (tokens : List Token) :
    (∀ level deeper, level ≤ deeper →
      CutOff (scene.number tokens deeper) (scene.number tokens level) ∧
        CutOff (scene.truth tokens deeper) (scene.truth tokens level)) ∧
    (Chain .either tokens → ∀ source, scene.tokensOf source = .ok tokens →
      scene.evaluateNumber source ≠ .error .nestedTooDeeply ∧
        scene.evaluateTruth source ≠ .error .nestedTooDeeply) := by
  constructor
  · intro level deeper hle
    have hsettled := Expr.settled_reading scene (.ofTokens tokens)
    exact ⟨hsettled.number hle, hsettled.truth hle⟩
  · intro hchain source hsource
    have hwithin : Expr.Within scene 2 1 (.ofTokens tokens) := by
      rw [Expr.ofTokens, hchain.ofTokens_eq]
      exact Expr.within_ofItems ⟨tokens, hchain, rfl⟩
    rw [evaluateNumber, evaluateTruth, hsource, ok_bind, ok_bind]
    constructor
    · intro hdeep
      exact hwithin.number (by decide : 0 + 2 ≤ deepest) _ hdeep rfl
    · intro hdeep
      exact hwithin.truth (by decide : 0 + 1 ≤ deepest) _ hdeep rfl

/-- A chain of all tiers, from the first level and from one from which it lies too deep. -/
theorem nesting_only_cuts_off_chain :
    let scene : Scene := ⟨.fresh 10, .empty⟩
    let source := "9 - 2 % 7 ** 0 || false && 5".toList
    let tokens : List Token := [.number 9, .arith .sub, .number 2, .arith .rem, .number 7,
      .arith .pow, .number 0, .either, .truth false, .both, .number 5]
    Chain .either tokens ∧ scene.tokensOf source = .ok tokens ∧
      scene.evaluateNumber source ≠ .error .nestedTooDeeply ∧
      scene.evaluateTruth source ≠ .error .nestedTooDeeply ∧
      scene.number tokens 255 = .error .nestedTooDeeply ∧
      CutOff (scene.number tokens 255) (scene.number tokens 0) := by
  intro scene source tokens
  have hchain : Chain .either tokens :=
    .join rfl rfl (.join rfl rfl (.join rfl rfl (.join rfl rfl (.join rfl rfl (.atom rfl)))))
  have hsource : scene.tokensOf source = .ok tokens := by decide +kernel
  have hdeep : scene.number tokens 255 = .error .nestedTooDeeply := by decide +kernel
  obtain ⟨hlevels, hsources⟩ := nesting_only_cuts_off scene tokens
  obtain ⟨hnumber, htruth⟩ := hsources hchain source hsource
  exact ⟨hchain, hsource, hnumber, htruth, hdeep, (hlevels 0 255 (Nat.zero_le _)).1⟩

end Scene

end Brushwork

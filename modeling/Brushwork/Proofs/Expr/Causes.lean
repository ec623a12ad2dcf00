import Brushwork.Expr.Meaning
import Brushwork.Proofs.Refusal

/-!
# Why expressions are refused

The faults an expression can have are few: its text has no tokens, its tokens form
no operand, a name in it is unbound, unknown or of the other sort, a query has the
wrong arguments, a number does not fit, or it is nested too deeply. No expression
is refused for the form of a command, for a place or a brush, or for a budget.
-/

namespace Brushwork

/-- Whether an expression can be refused for a fault. Only queries have too few or too many
arguments. -/
def Fault.ofExpression : Fault → Bool
  | .argumentCount name expected _ => (Query.ofName? name).any (·.arity == expected)
  | .unclosedQuotation _ | .unknownColor _ | .undefinedVariable _
  | .notAnInteger _ | .divideByZero | .overflow | .emptyExpression | .emptyCondition
  | .numeralTooLarge _ | .strayCharacter _ _ | .notAColorName _ | .notAnOperand _
  | .nestedTooDeeply | .unknownFunction _ => true
  | _ => false

/-- If the computation is refused, then for a fault that an expression can have. -/
abbrev RefusedAsExpression {α : Type} (x : Except Fault α) : Prop :=
  RefusedFor (fun fault => fault.ofExpression = true) x

section Parts

variable {P : Fault → Prop}

theorem inWord_refusedFor (h : P .overflow) (n : Int) : RefusedFor P (inWord n) := by
  unfold inWord
  split
  · exact refusedFor_ok n
  · exact refusedFor_error h

theorem Arith.apply_refusedFor (hzero : P .divideByZero) (hoverflow : P .overflow) (op : Arith)
    (a b : Int) : RefusedFor P (op.apply a b) := by
  cases op with
  | add | sub | mul => exact inWord_refusedFor hoverflow _
  | pow => exact refusedFor_ok _
  | div =>
    simp only [apply]
    split
    · exact refusedFor_error hzero
    · exact inWord_refusedFor hoverflow _
  | rem =>
    simp only [apply]
    split
    · exact refusedFor_error hzero
    · exact (inWord_refusedFor hoverflow _).bind fun _ => refusedFor_ok _

theorem Variables.getInt_refusedFor {name : Text} (hunbound : P (.undefinedVariable name))
    (hsort : P (.notAnInteger name)) (vars : Variables) : RefusedFor P (vars.getInt name) := by
  have hget : RefusedFor P (vars.get name) := by
    unfold get
    split
    · exact refusedFor_ok _
    · exact refusedFor_error hunbound
  refine hget.bind fun value => ?_
  cases value with
  | int n => exact refusedFor_ok n
  | bool b => exact refusedFor_error hsort

end Parts

theorem inWord_refused (n : Int) : RefusedAsExpression (inWord n) := by
  apply inWord_refusedFor
  rfl

theorem Arith.apply_refused (op : Arith) (a b : Int) : RefusedAsExpression (op.apply a b) := by
  apply apply_refusedFor
  · rfl
  · rfl

theorem Variables.getInt_refused (vars : Variables) (name : Text) :
    RefusedAsExpression (vars.getInt name) := by
  apply getInt_refusedFor
  · rfl
  · rfl

theorem Color.named_refused (name : Text) : RefusedAsExpression (Color.named name) := by
  unfold Color.named
  split
  · exact refusedFor_ok _
  · exact refusedFor_error rfl

theorem colorArgument_refused (e : Expr) : RefusedAsExpression (colorArgument e) := by
  unfold colorArgument
  split
  · exact refusedFor_ok _
  · exact refusedFor_ok _
  · exact refusedFor_error rfl

theorem Agent.colorCount_refused (agent : Agent) (name : Text) (a b : Point) :
    RefusedAsExpression (agent.colorCount name a b) := by
  refine (Color.named_refused name).bind fun color => ?_
  split <;> exact refusedFor_ok _

theorem Query.answer_refused (agent : Agent) (query : Query) (arguments : List Expr)
    {numbers : List (Except Fault Int)} (h : ∀ x ∈ numbers, RefusedAsExpression x) :
    RefusedAsExpression (query.answer agent arguments numbers) := by
  unfold Query.answer
  split
  · exact refusedFor_ok _
  · exact refusedFor_ok _
  · exact refusedFor_ok _
  · apply (colorArgument_refused _).bind
    intro name
    apply (Color.named_refused name).bind
    intro color
    exact refusedFor_ok _
  · apply (h _ (by simp)).bind
    intro size
    exact refusedFor_ok _
  · apply (colorArgument_refused _).bind
    intro name
    apply (h _ (by simp)).bind
    intro vertical
    apply (h _ (by simp)).bind
    intro horizontal
    apply (Color.named_refused name).bind
    intro color
    exact refusedFor_ok _
  · apply (colorArgument_refused _).bind
    intro name
    apply (h _ (by simp)).bind
    intro x₁
    apply (h _ (by simp)).bind
    intro y₁
    apply (h _ (by simp)).bind
    intro x₂
    apply (h _ (by simp)).bind
    intro y₂
    exact agent.colorCount_refused name ⟨x₁, y₁⟩ ⟨x₂, y₂⟩
  · apply refusedFor_error
    cases query <;> rfl

theorem atLevel_refused {α : Type} (level : Nat) {x : Except Fault α}
    (h : RefusedAsExpression x) : RefusedAsExpression (atLevel level x) := by
  unfold atLevel
  split
  · exact refusedFor_error rfl
  · exact h

/-- Both readings are refused, at every level, only for faults that an expression can have. -/
structure Reading.Refused (reading : Reading) : Prop where
  number : ∀ level, RefusedAsExpression (reading.number level)
  truth : ∀ level, RefusedAsExpression (reading.truth level)

namespace Reading

theorem refused_ofNumber {found : Nat → Except Fault Int}
    (h : ∀ level, RefusedAsExpression (found level)) : (ofNumber found).Refused where
  number level := atLevel_refused level (h level)
  truth level := atLevel_refused level (atLevel_refused _ ((h (level + 1)).map _))

theorem refused_ofTruth {found : Nat → Except Fault Bool}
    (h : ∀ level, RefusedAsExpression (found level)) : (ofTruth found).Refused where
  number level := atLevel_refused level (atLevel_refused _ ((h (level + 1)).map _))
  truth level := atLevel_refused level (h level)

theorem refused_ofEach {number : Except Fault Int} {truth : Except Fault Bool}
    (hnumber : RefusedAsExpression number) (htruth : RefusedAsExpression truth) :
    (ofEach number truth).Refused where
  number level := atLevel_refused level hnumber
  truth level := atLevel_refused level htruth

theorem Refused.deeper {inner : Reading} (h : inner.Refused) : inner.deeper.Refused where
  number level := atLevel_refused level (h.number (level + 1))
  truth level := atLevel_refused level (h.truth (level + 1))

end Reading

namespace Expr

theorem nameReading_refused (vars : Variables) (t : Text) : (nameReading vars t).Refused where
  number level := atLevel_refused level (vars.getInt_refused t)
  truth level := by
    apply atLevel_refused
    split
    · exact refusedFor_ok _
    · exact atLevel_refused _ ((vars.getInt_refused t).map _)

theorem reading_refused (scene : Scene) (e : Expr) : (e.reading scene).Refused := by
  cases e with
  | empty => exact Reading.refused_ofEach (refusedFor_error rfl) (refusedFor_error rfl)
  | number n => exact Reading.refused_ofNumber fun _ => refusedFor_ok n
  | name t => exact nameReading_refused scene.vars t
  | quotation t => exact Reading.refused_ofNumber fun _ => refusedFor_error rfl
  | truth b => exact Reading.refused_ofEach (refusedFor_error rfl) (refusedFor_ok b)
  | group e => exact (reading_refused scene e).deeper
  | negate e =>
    have he := reading_refused scene e
    exact Reading.refused_ofNumber fun level => (he.number _).bind fun n => inWord_refused _
  | arith op left right =>
    have hleft := reading_refused scene left
    have hright := reading_refused scene right
    exact Reading.refused_ofNumber fun level => (hleft.number level).bind fun a =>
      (hright.number level).bind fun b => op.apply_refused a b
  | compare op left right =>
    have hleft := reading_refused scene left
    have hright := reading_refused scene right
    exact Reading.refused_ofTruth fun level => (hleft.number _).bind fun a =>
      (hright.number _).bind fun b => refusedFor_ok _
  | both left right =>
    have hleft := reading_refused scene left
    have hright := reading_refused scene right
    refine Reading.refused_ofTruth fun level => (hleft.truth level).bind fun value => ?_
    cases value with
    | false => exact refusedFor_ok false
    | true => exact hright.truth level
  | either left right =>
    have hleft := reading_refused scene left
    have hright := reading_refused scene right
    refine Reading.refused_ofTruth fun level => (hleft.truth level).bind fun value => ?_
    cases value with
    | false => exact hright.truth level
    | true => exact refusedFor_ok true
  | call f arguments =>
    have harguments : ∀ e ∈ arguments, (e.reading scene).Refused :=
      fun e _ => reading_refused scene e
    apply Reading.refused_ofNumber
    intro level
    split
    · exact refusedFor_error rfl
    · apply Query.answer_refused
      intro x hx
      obtain ⟨r, hr, rfl⟩ := List.mem_map.1 hx
      exact (forall_readings harguments r hr).number _
  | unread items => exact Reading.refused_ofNumber fun _ => refusedFor_error rfl

end Expr

namespace Scene

theorem tokensOf_refused (scene : Scene) (source : Text) :
    RefusedAsExpression (scene.tokensOf source) := by
  unfold tokensOf Token.ofSource
  cases Token.scanAmong scene.vars.names source with
  | ok tokens => exact refusedFor_ok tokens
  | error fault => cases fault <;> exact refusedFor_error rfl

theorem evaluateNumber_refused (scene : Scene) (source : Text) :
    RefusedAsExpression (scene.evaluateNumber source) :=
  (scene.tokensOf_refused source).bind fun _ => (Expr.reading_refused scene _).number 0

theorem evaluateTruth_refused (scene : Scene) (source : Text) :
    RefusedAsExpression (scene.evaluateTruth source) :=
  (scene.tokensOf_refused source).bind fun _ => (Expr.reading_refused scene _).truth 0

theorem evaluate_refused (scene : Scene) (source : Text) :
    RefusedAsExpression (scene.evaluate source) := by
  refine (scene.tokensOf_refused source).bind fun tokens => ?_
  have hreading := Expr.reading_refused scene (Expr.ofTokens tokens)
  dsimp only
  split
  · exact (hreading.truth 0).bind fun b => refusedFor_ok _
  · exact (hreading.number 0).bind fun n => refusedFor_ok _

end Scene

end Brushwork

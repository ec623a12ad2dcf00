import Brushwork.Proofs.Expr.Acceptance
import Brushwork.Proofs.Token.Names

/-!
# The value of a name

A bound name is an expression of its own, and its value is what it is bound to: a
number or a truth value. A name that a hyphen ends is none. It is read as a
difference with nothing to subtract, and no such expression has a value.
-/

namespace Brushwork

theorem Token.ofWord_of_isFreeName {name : Text} (h : isFreeName name = true) :
    ofWord name = .name name := by
  obtain ⟨-, hreserved⟩ := (isFreeName_iff name).1 h
  have htrue : name ≠ "true".toList := by
    rintro rfl
    cases hreserved
  have hfalse : name ≠ "false".toList := by
    rintro rfl
    cases hreserved
  rw [ofWord, if_neg htrue, if_neg hfalse]

/-- The last token of a phrase can end an operand. -/
theorem Phrase.exists_getLast? {t : Tier} (p : Phrase t) :
    ∃ token, p.tokens.getLast? = some token ∧ token.endsOperand = true := by
  have hquery : ∀ query arguments, ∃ token,
      (queryTokens query arguments).getLast? = some token ∧ token.endsOperand = true := by
    intro query arguments
    exact ⟨.closing, by simp [queryTokens, List.getLast?_cons], rfl⟩
  have hafter : ∀ (before : List Token) {after : List Token},
      (∃ token, after.getLast? = some token ∧ token.endsOperand = true) →
        ∃ token, (before ++ after).getLast? = some token ∧ token.endsOperand = true := by
    rintro before after ⟨token, hlast, hends⟩
    exact ⟨token, by rw [List.getLast?_append, hlast, Option.some_or], hends⟩
  induction p with
  | number n => exact ⟨.number n, rfl, rfl⟩
  | name t => exact ⟨.name t, rfl, rfl⟩
  | truth b => exact ⟨.truth b, rfl, rfl⟩
  | actualX | actualY | canvasSize | brushColor | brushSize | canvasColor | colorCount =>
    exact hquery _ _
  | group inner ih => exact hafter (.opening :: inner.tokens) ⟨.closing, rfl, rfl⟩
  | negate inner ih => exact hafter [.arith .sub] ih
  | power left right ihl ihr => exact hafter _ (hafter [.arith .pow] ihr)
  | product op hop left right ihl ihr | sum op hop left right ihl ihr =>
    exact hafter _ (hafter [.arith op] ihr)
  | compare op left right ihl ihr => exact hafter _ (hafter [.compare op] ihr)
  | both left right ihl ihr => exact hafter _ (hafter [.both] ihr)
  | either left right ihl ihr => exact hafter _ (hafter [.either] ihr)
  | ofOperand inner ih | ofPower inner ih | ofProduct inner ih | ofSum inner ih
  | ofComparison inner ih | ofBoth inner ih => exact ih

namespace Scene

variable {scene : Scene}

theorem tokensOf_eq (source : Text) :
    scene.tokensOf source = (Token.scan scene.vars.binds source).mapError (·.inSource source) := by
  have hnames : scene.vars.names.contains = scene.vars.binds :=
    funext fun name => scene.vars.contains_names name
  rw [tokensOf, Token.ofSource, Token.scanAmong_eq, hnames]

theorem tokensOf_eq_ok_iff {source : Text} {tokens : List Token} :
    scene.tokensOf source = .ok tokens ↔ Token.scan scene.vars.binds source = .ok tokens := by
  rw [tokensOf_eq]
  cases Token.scan scene.vars.binds source with
  | ok found => simp [Except.mapError]
  | error fault => simp [Except.mapError]

/-- What is evaluated has a reading that succeeds. -/
theorem succeeds_of_evaluate {source : Text} {value : Value}
    (h : scene.evaluate source = .ok value) :
    ∃ tokens, scene.tokensOf source = .ok tokens ∧
      ((Expr.ofTokens tokens).reading scene).Succeeds := by
  obtain ⟨tokens, htokens, h⟩ := bind_eq_ok_iff.1 h
  refine ⟨tokens, htokens, ?_⟩
  dsimp only at h
  split at h
  · obtain ⟨b, hb, -⟩ := bind_eq_ok_iff.1 h
    exact .inr ⟨0, b, hb⟩
  · obtain ⟨n, hn, -⟩ := bind_eq_ok_iff.1 h
    exact .inl ⟨0, n, hn⟩

theorem evaluate_of_tokensOf {name : Text} {value : Value}
    (htokens : scene.tokensOf name = .ok [.name name]) (h : scene.vars.get? name = some value) :
    scene.evaluate name = .ok value := by
  have hexpr : Expr.ofTokens [.name name] = .name name := rfl
  rw [evaluate, htokens, ok_bind, hexpr]
  cases value with
  | int n =>
    have hint : scene.vars.getInt name = .ok n := by
      rw [Variables.getInt, Variables.get, h]
      rfl
    simp [Expr.yieldsTruth, Expr.core, Expr.reading, Expr.nameReading, h, hint, atLevel]
  | bool b =>
    simp [Expr.yieldsTruth, Expr.core, Expr.reading, Expr.nameReading, h, atLevel]

/-- A variable whose name no hyphen ends is an expression with its value. -/
theorem evaluate_variable {name : Text} {value : Value} (hname : isFreeName name = true)
    (hend : name.getLast? ≠ some '-') (h : scene.vars.get? name = some value) :
    scene.evaluate name = .ok value := by
  have hbinds : scene.vars.binds name = true := by rw [Variables.binds, h]; rfl
  have hscan := Token.scan_of_isVariable (isIdentifier_of_isFreeName hname) hbinds hend
  rw [Token.ofWord_of_isFreeName hname] at hscan
  exact evaluate_of_tokensOf (tokensOf_eq_ok_iff.2 hscan) h

/-- A name that a hyphen ends has no value, whatever is bound to it. -/
theorem evaluate_hyphenRun {name : Text} (h : Token.HyphenRun name) (value : Value) :
    scene.evaluate name ≠ .ok value := by
  intro hvalue
  obtain ⟨tokens, htokens, hsucceeds⟩ := succeeds_of_evaluate hvalue
  have hminus := h.minusRun (tokensOf_eq_ok_iff.1 htokens)
  obtain ⟨p, rfl, -⟩ := scene.exists_phrase hminus.plain hsucceeds
  obtain ⟨token, hlast, hends⟩ := p.exists_getLast?
  rw [hminus.last] at hlast
  cases hlast
  cases hends

end Scene

end Brushwork

import Brushwork.Proofs.Canvas.Count
import Brushwork.Proofs.Command.Arguments
import Brushwork.Proofs.Expr.Arguments
import Brushwork.Proofs.Expr.Names
import Brushwork.Proofs.Expr.Nesting

/-!
# The value of a line that counts a color

A line that counts is taken apart in two ways: as a command, whose arguments are cut out
of its text, and as an expression, whose arguments are cut out of its tokens. Where the
parentheses of the arguments match, the line is one call, and the two find the same
arguments; so the line yields the count of its own arguments. Where they do not match, the
first parenthesis may close before the last one, and the line is a larger expression that
the command takes for a call.
-/

namespace Brushwork

theorem Agent.colorCount_bounds {agent : Agent} {name : Text} {a b : Point} {n : Int}
    (h : agent.colorCount name a b = .ok n) :
    0 ≤ n ∧ n ≤ agent.canvas.size * agent.canvas.size := by
  obtain ⟨color, -, h⟩ := bind_eq_ok_iff.1 h
  split at h
  · cases h
    exact ⟨Int.natCast_nonneg _, by exact_mod_cast agent.canvas.countWithin_le color a b⟩
  · cases h
    exact ⟨Int.le_refl 0, by exact_mod_cast Nat.zero_le _⟩

section Calls

/-- The text of a query is read as its name and, in parentheses, what stands in them. -/
theorem Token.scan_query (isVariable : Text → Bool) (query : Query) (inner : Text) :
    scan isVariable (query.name ++ '(' :: (inner ++ [')'])) = do
      let tokens ← scan isVariable inner
      return .name query.name :: .opening :: (tokens ++ [.closing]) := by
  have hlast : scan isVariable [')'] = .ok [.closing] := by
    rw [scan_symbol isVariable (by decide) (rfl : symbol? ')' [] = some (.closing, [])), scan_nil]
    rfl
  have hinner : scan isVariable (inner ++ [')']) = do
      let tokens ← scan isVariable inner
      return tokens ++ [.closing] := by
    rw [scan_append isVariable (boundary_cons (by decide) (by decide) []) (.inl (by decide)), hlast]
    rfl
  have hparenthesis : Boundary ('(' :: (inner ++ [')'])) :=
    boundary_cons (by decide) (by decide) _
  have hrest : scan isVariable ('(' :: (inner ++ [')'])) = do
      let tokens ← scan isVariable inner
      return .opening :: (tokens ++ [.closing]) := by
    rw [scan_symbol isVariable (by decide) rfl, hinner]
    simp
  have hname : ∃ c t, query.name = c :: t ∧ c.isAlpha = true ∧
      t.all (fun d => isNameChar d && d != '-') = true ∧ ofWord (c :: t) = .name (c :: t) := by
    cases query <;> exact ⟨_, _, rfl, by decide, by decide, by decide⟩
  obtain ⟨c, t, hname, hc, ht, hword⟩ := hname
  have ht : ∀ d ∈ t, isNameChar d = true ∧ d ≠ '-' := by simpa using ht
  rw [hname, scan_word isVariable hc (continuation_of_plain ht isVariable c) hparenthesis, hrest,
    hword]
  simp

/-- Tokens whose parentheses match are the arguments of the query in whose parentheses they
stand. -/
theorem Expr.ofTokens_call (query : Text) {tokens : List Token}
    (h : Token.balanced tokens = true) :
    Expr.ofTokens (.name query :: .opening :: (tokens ++ [.closing])) =
      .call query ((Token.splitArguments tokens).map Expr.ofTokens) := by
  have hreads := (Progress.reads_ofTokens h).query query [] [] Progress.ready_nil
  rw [ofTokens, Item.ofTokens_of_foldl_step hreads, commaParts_ofTokens, List.map_map]
  rfl

theorem Expr.number_call (scene : Scene) (query : Query) (arguments : List Expr) (level : Nat) :
    ((Expr.call query.name arguments).reading scene).number level =
      atLevel level (query.answer scene.agent arguments
        (arguments.map fun e => (e.reading scene).number (level + 2))) := by
  rw [reading, Query.ofName?_name, readings_eq_map]
  simp only [Reading.ofNumber, List.map_map]
  rfl

namespace Scene

variable {scene : Scene}

/-- A call whose parentheses match is answered from its arguments, as the text has them. -/
theorem evaluateNumber_query {query : Query} {inner : Text}
    (hbalanced : parenthesesBalanced inner = true) {n : Int}
    (h : scene.evaluateNumber (query.name ++ '(' :: (inner ++ [')'])) = .ok n) :
    ∃ arguments : List (List Token),
      (splitArguments inner).map (Token.scan scene.vars.binds) = arguments.map .ok ∧
      query.answer scene.agent (arguments.map Expr.ofTokens)
        (arguments.map fun argument => scene.number argument 2) = .ok n := by
  obtain ⟨tokens, htokens, hnumber⟩ := bind_eq_ok_iff.1 h
  rw [tokensOf_eq_ok_iff, Token.scan_query] at htokens
  obtain ⟨inside, hinside, heq⟩ := bind_eq_ok_iff.1 htokens
  cases heq
  have hmatch : Token.balanced inside = true :=
    ((Token.sameMarks_of_scan hinside).balancedFrom_eq 0).symm.trans hbalanced
  have harguments : _ = (Token.scan scene.vars.binds inner).map Token.splitArguments :=
    Token.mapM_scan_splitArguments inner
  rw [hinside] at harguments
  refine ⟨Token.splitArguments inside, mapM_eq_ok_iff.1 harguments, ?_⟩
  rw [number, Expr.ofTokens_call _ hmatch, Expr.number_call] at hnumber
  have hanswer := atLevel_eq_ok hnumber
  rwa [List.map_map] at hanswer

theorem evaluateNumber_of_number {source : Text} {tokens : List Token}
    (htokens : Token.scan scene.vars.binds source = .ok tokens) {level : Nat} {n : Int}
    (h : scene.number tokens level = .ok n) : scene.evaluateNumber source = .ok n := by
  have hsettled := (Expr.settled_reading scene (.ofTokens tokens)).number
  rw [evaluateNumber, tokensOf_eq_ok_iff.2 htokens, ok_bind]
  exact (hsettled (Nat.zero_le level)).eq_of_ok h

end Scene

/-- A color that an expression takes from an argument in quotation marks stands between them. -/
theorem eq_of_colorArgument {isVariable : Text → Bool} {argument name word : Text}
    {tokens : List Token} (hquoted : quotedText? argument = some name)
    (hscan : Token.scan isVariable argument = .ok tokens)
    (hword : colorArgument (Expr.ofTokens tokens) = .ok word) : word = name := by
  have hform : tokens = [.quotation word] ∨ tokens = [.name word] := by
    rw [← Expr.tokens_ofTokens tokens]
    cases hexpr : Expr.ofTokens tokens with
    | quotation t | name t =>
      rw [hexpr] at hword
      cases hword
      simp
    | _ =>
      rw [hexpr] at hword
      cases hword
  rw [← Token.scan_trim, Command.quotedText?_eq_some_iff.1 hquoted] at hscan
  by_cases hmark : '"' ∈ name
  · obtain ⟨inside, more, rfl, hinside⟩ := List.eq_append_cons_of_mem hmark
    have hsplit : '"' :: (inside ++ '"' :: more) ++ ['"'] =
        '"' :: inside ++ '"' :: (more ++ ['"']) := by
      simp
    rw [hsplit, Token.scan_quotation isVariable hinside] at hscan
    obtain ⟨others, hothers, heq⟩ := bind_eq_ok_iff.1 hscan
    cases heq
    obtain rfl : others = [] := by
      rcases hform with hform | hform
      · exact (List.cons_eq_cons.1 hform).2
      · cases hform
    have hblank := trim_eq_nil_iff.1 (Token.trim_eq_nil_of_scan isVariable hothers) '"' (by simp)
    cases hblank
  · rw [Token.scan_quotation isVariable hmark, Token.scan_nil] at hscan
    cases hscan
    rcases hform with hform | hform
    · cases hform
      rfl
    · cases hform

end Calls

namespace Command

variable {labels : Labels} {scene : Scene}

theorem quotedText?_of_colorName {argument name : Text} (h : colorName argument = .ok name) :
    quotedText? argument = some name := by
  unfold colorName at h
  split at h
  · cases h
    assumption
  · cases h

theorem process_colorCount_eq_ok {line : Text} {n : Int}
    (h : (process labels scene .colorCount line).2 = .ok (.value n)) :
    ∃ argument x₁ y₁ x₂ y₂ name, arguments .colorCount line = .ok [argument, x₁, y₁, x₂, y₂] ∧
      quotedText? argument = some name ∧ scene.evaluateNumber line = .ok n := by
  cases hcommand : ofLine .colorCount line with
  | error fault =>
    rw [process, hcommand] at h
    cases h
  | ok command =>
    obtain ⟨parts, hparts, hcommand'⟩ := bind_eq_ok_iff.1 hcommand
    match parts, arity_of_arguments hparts with
    | [argument, x₁, y₁, x₂, y₂], _ =>
      obtain ⟨name, hname, heq⟩ := bind_eq_ok_iff.1 hcommand'
      cases heq
      rw [process, hcommand] at h
      refine ⟨argument, x₁, y₁, x₂, y₂, name, hparts, quotedText?_of_colorName hname, ?_⟩
      change (scene.evaluateNumber line).map Outcome.value = _ at h
      cases hvalue : scene.evaluateNumber line with
      | error fault =>
        rw [hvalue] at h
        cases h
      | ok value =>
        rw [hvalue] at h
        cases h
        rfl

/-- A line that counts, and whose parentheses match inside those of the call, yields the count of
the arguments that it is taken apart into. -/
theorem colorCount_yields_count {inner : Text} (hbalanced : parenthesesBalanced inner = true)
    {n : Int} (h : (process labels scene .colorCount
      (Kind.colorCount.keyword ++ '(' :: (inner ++ [')']))).2 = .ok (.value n)) :
    ∃ argument x₁ y₁ x₂ y₂ name v₁ v₂ v₃ v₄,
      arguments .colorCount (Kind.colorCount.keyword ++ '(' :: (inner ++ [')'])) =
        .ok [argument, x₁, y₁, x₂, y₂] ∧
      quotedText? argument = some name ∧
      scene.evaluateNumber x₁ = .ok v₁ ∧ scene.evaluateNumber y₁ = .ok v₂ ∧
      scene.evaluateNumber x₂ = .ok v₃ ∧ scene.evaluateNumber y₂ = .ok v₄ ∧
      scene.agent.colorCount name ⟨v₁, v₂⟩ ⟨v₃, v₄⟩ = .ok n ∧
      0 ≤ n ∧ n ≤ scene.agent.canvas.size * scene.agent.canvas.size := by
  obtain ⟨argument, x₁, y₁, x₂, y₂, name, harguments, hname, hvalue⟩ := process_colorCount_eq_ok h
  obtain ⟨inner', hline, hparts, -, -⟩ := arguments_eq_ok_iff.1 harguments
  obtain rfl : inner = inner' := by simpa using hline
  have hquery : scene.evaluateNumber (Query.colorCount.name ++ '(' :: (inner ++ [')'])) = .ok n :=
    hvalue
  obtain ⟨arguments, hscan, hanswer⟩ := Scene.evaluateNumber_query hbalanced hquery
  rw [hparts] at hscan
  match arguments, hscan, hanswer with
  | [t₀, t₁, t₂, t₃, t₄], hscan, hanswer =>
    simp only [List.map_cons, List.map_nil, List.cons.injEq, and_true] at hscan
    obtain ⟨hscan₀, hscan₁, hscan₂, hscan₃, hscan₄⟩ := hscan
    obtain ⟨word, hword, hanswer⟩ := bind_eq_ok_iff.1 hanswer
    obtain ⟨v₁, hv₁, hanswer⟩ := bind_eq_ok_iff.1 hanswer
    obtain ⟨v₂, hv₂, hanswer⟩ := bind_eq_ok_iff.1 hanswer
    obtain ⟨v₃, hv₃, hanswer⟩ := bind_eq_ok_iff.1 hanswer
    obtain ⟨v₄, hv₄, hcount⟩ := bind_eq_ok_iff.1 hanswer
    obtain rfl := eq_of_colorArgument hname hscan₀ hword
    exact ⟨argument, x₁, y₁, x₂, y₂, word, v₁, v₂, v₃, v₄, harguments, hname,
      Scene.evaluateNumber_of_number hscan₁ hv₁, Scene.evaluateNumber_of_number hscan₂ hv₂,
      Scene.evaluateNumber_of_number hscan₃ hv₃, Scene.evaluateNumber_of_number hscan₄ hv₄,
      hcount, Agent.colorCount_bounds hcount⟩

theorem colorCount_yields_count_nested :
    let scene : Scene := ⟨.fresh 10, .empty⟩
    let inner := "\"White\", 0, (0), 9 + GetActualX(), ((1))".toList
    let line := Kind.colorCount.keyword ++ '(' :: (inner ++ [')'])
    parenthesesBalanced inner = true ∧
      (process .empty scene .colorCount line).2 = .ok (.value 20) ∧
      ∃ argument x₁ y₁ x₂ y₂ name v₁ v₂ v₃ v₄,
        arguments .colorCount line = .ok [argument, x₁, y₁, x₂, y₂] ∧
        quotedText? argument = some name ∧
        scene.evaluateNumber x₁ = .ok v₁ ∧ scene.evaluateNumber y₁ = .ok v₂ ∧
        scene.evaluateNumber x₂ = .ok v₃ ∧ scene.evaluateNumber y₂ = .ok v₄ ∧
        scene.agent.colorCount name ⟨v₁, v₂⟩ ⟨v₃, v₄⟩ = .ok 20 := by
  intro scene inner line
  have hbalanced : parenthesesBalanced inner = true := by decide
  have hprocess : (process .empty scene .colorCount line).2 = .ok (.value 20) := by decide +kernel
  obtain ⟨argument, x₁, y₁, x₂, y₂, name, v₁, v₂, v₃, v₄, harguments, hname, hv₁, hv₂, hv₃, hv₄,
    hcount, -⟩ := colorCount_yields_count hbalanced hprocess
  exact ⟨hbalanced, hprocess, argument, x₁, y₁, x₂, y₂, name, v₁, v₂, v₃, v₄, harguments, hname,
    hv₁, hv₂, hv₃, hv₄, hcount⟩

/-- A product whose first factor is the call: each argument of the line has a value, but the line
yields more than their count, and more than there are cells. -/
theorem colorCount_of_larger_expression :
    let scene : Scene := ⟨.fresh 10, .empty⟩
    let line := "GetColorCount(\"White\", 0, 0, 9, 9 || ) * (9)".toList
    Kind.ofLine? line = some .colorCount ∧
      arguments .colorCount line = .ok
        ["\"White\"".toList, "0".toList, "0".toList, "9".toList, "9 || ) * (9".toList] ∧
      quotedText? "\"White\"".toList = some "White".toList ∧
      scene.evaluateNumber "0".toList = .ok 0 ∧ scene.evaluateNumber "9".toList = .ok 9 ∧
      scene.evaluateNumber "9 || ) * (9".toList = .ok 1 ∧
      scene.agent.colorCount "White".toList ⟨0, 0⟩ ⟨9, 1⟩ = .ok 20 ∧
      (process .empty scene .colorCount line).2 = .ok (.value 180) ∧
      ¬ (180 : Int) ≤ scene.agent.canvas.size * scene.agent.canvas.size := by
  decide +kernel

end Command

end Brushwork

import Brushwork.Proofs.Command.Frame
import Brushwork.Proofs.Expr.Names
import Brushwork.Proofs.Text.Trimming

/-!
# Lines that assign

The line `name <- expression` is taken apart into its name and its expression, unless
its name begins like a jump. So what is assigned in one line can be read back in the
next, for every name that an expression can read.
-/

namespace Brushwork

theorem isPrefix_of_append_cons {p t rest : Text} {c : Char} (h : p <+: t ++ c :: rest)
    (hc : c ∉ p) : p <+: t := by
  induction t generalizing p with
  | nil =>
    cases p with
    | nil => exact List.nil_prefix
    | cons d p =>
      obtain ⟨rfl, -⟩ := List.cons_prefix_cons.1 h
      exact absurd List.mem_cons_self hc
  | cons d t ih =>
    cases p with
    | nil => exact List.nil_prefix
    | cons e p =>
      obtain ⟨rfl, hp⟩ := List.cons_prefix_cons.1 h
      exact List.cons_prefix_cons.2 ⟨rfl, ih hp fun hmem => hc (List.mem_cons_of_mem _ hmem)⟩

theorem Variables.isFreeName_of_assign {vars after : Variables} {name : Text} {value : Value}
    (h : vars.assign name value = .ok after) : isFreeName name = true := by
  unfold assign at h
  split at h
  · assumption
  · cases h

theorem Variables.exists_assign (vars : Variables) {name : Text} (h : isFreeName name = true)
    (value : Value) : ∃ after, vars.assign name value = .ok after := by
  rw [assign, if_pos h]
  exact ⟨_, rfl⟩

theorem Scene.evaluate_nil (scene : Scene) : scene.evaluate [] = .error .emptyExpression := by
  have htokens : scene.tokensOf [] = .ok [] := tokensOf_eq_ok_iff.2 (Token.scanBy_nil _)
  rw [evaluate, htokens]
  rfl

namespace Command

def assignment (name expression : Text) : Text := name ++ " <- ".toList ++ expression

theorem assignment_eq (name expression : Text) :
    assignment name expression = name ++ ' ' :: '<' :: '-' :: ' ' :: expression := by
  simp [assignment]

namespace Kind

theorem hasArrow_append (before after : Text) :
    hasArrow (before ++ '<' :: '-' :: after) = true := by
  induction before with
  | nil => rfl
  | cons c before ih =>
    rw [List.cons_append]
    unfold hasArrow
    split
    · rfl
    · rename_i heq
      cases heq
      exact ih
    · rename_i heq
      cases heq

theorem opensCall_iff {keyword line : Text} :
    opensCall keyword line = true ↔ keyword ++ ['('] <+: line := by
  constructor
  · intro h
    unfold opensCall at h
    split at h
    · rename_i rest hrest
      exact ⟨rest, by rw [dropStart?_eq_some_iff.1 hrest, List.append_assoc]; rfl⟩
    · cases h
  · rintro ⟨rest, rfl⟩
    have hrest : dropStart? keyword (keyword ++ ['('] ++ rest) = some ('(' :: rest) :=
      dropStart?_eq_some_iff.2 (by rw [List.append_assoc]; rfl)
    rw [opensCall, hrest]
    rfl

/-- No call opens with a name and a blank. -/
theorem opensCall_append {keyword name : Text} (hkeyword : ' ' ∉ keyword)
    (hname : isIdentifier name = true) (rest : Text) :
    opensCall keyword (name ++ ' ' :: rest) = false := by
  rw [Bool.eq_false_iff, Ne, opensCall_iff]
  intro hopens
  have hprefix := isPrefix_of_append_cons hopens (by simp [hkeyword])
  have hmem : '(' ∈ name := hprefix.subset (by simp)
  cases isNameChar_of_isIdentifier hname '(' hmem

theorem ofLine?_assignment {name : Text} (hname : isIdentifier name = true)
    (hjump : ¬ "GoTo".toList <+: name) (expression : Text) :
    ofLine? (assignment name expression) = some .assign := by
  have hgoTo : accepts (assignment name expression) .goTo = false := by
    rw [accepts, Bool.eq_false_iff, Ne, List.isPrefixOf_iff_prefix, assignment_eq]
    exact fun h => hjump (isPrefix_of_append_cons h (by decide))
  have hspawn : accepts (assignment name expression) .spawn = false := by
    rw [assignment_eq]
    exact opensCall_append (by decide) hname _
  have hcolor : accepts (assignment name expression) .color = false := by
    rw [assignment_eq]
    exact opensCall_append (by decide) hname _
  have hdrawLine : accepts (assignment name expression) .drawLine = false := by
    rw [assignment_eq]
    exact opensCall_append (by decide) hname _
  have hassign : accepts (assignment name expression) .assign = true := by
    have harrow := hasArrow_append (name ++ [' ']) (' ' :: expression)
    rw [List.append_assoc] at harrow
    rw [assignment_eq]
    exact harrow
  simp only [ofLine?, all, List.find?_cons, hgoTo, hspawn, hcolor, hdrawLine, hassign]

end Kind

theorem arrowParts?_append {before : Text} (h : '<' ∉ before) (after : Text) :
    arrowParts? (before ++ '<' :: '-' :: after) = some (before, after) := by
  induction before with
  | nil => rfl
  | cons c before ih =>
    have hc : '<' ≠ c := List.ne_of_not_mem_cons h
    have hbefore : '<' ∉ before := List.not_mem_of_not_mem_cons h
    rw [List.cons_append]
    unfold arrowParts?
    split
    · rename_i heq
      cases heq
    · rename_i heq
      exact absurd (List.cons.inj heq).1.symm hc
    · rename_i heq
      cases heq
      rw [ih hbefore]
      rfl

theorem ofAssignment_assignment {name : Text} (hname : isFreeName name = true) {expression : Text}
    (hexpression : trim expression ≠ []) :
    ofAssignment (assignment name expression) = .ok (.assign name (trim expression)) := by
  have hchars := isNameChar_of_isIdentifier (isIdentifier_of_isFreeName hname)
  have hparts : arrowParts? (assignment name expression) =
      some (name ++ [' '], ' ' :: expression) := by
    have harrow : '<' ∉ name ++ [' '] := by
      intro hmem
      rcases List.mem_append.1 hmem with hmem | hmem
      · cases hchars '<' hmem
      · cases List.mem_singleton.1 hmem
    have hsplit := arrowParts?_append harrow (' ' :: expression)
    rw [List.append_assoc] at hsplit
    rw [assignment_eq]
    exact hsplit
  have hleft : trim (name ++ [' ']) = name := by
    rw [trim_concat_of_blank (by decide)]
    exact trim_eq_self fun c hc => isBlank_of_isNameChar (hchars c hc)
  have hright : trim (' ' :: expression) = trim expression := by
    rw [trim, trimStart_cons_of_blank (by decide), trim]
  rw [ofAssignment, hparts]
  simp [hleft, hright, hname, hexpression]

/-- An assignment whose expression has a value binds its name to it. -/
theorem process_assignment (labels : Labels) {scene : Scene} {name expression : Text}
    {value : Value} {vars : Variables} (hvalue : scene.evaluate (trim expression) = .ok value)
    (hassign : scene.vars.assign name value = .ok vars) :
    process labels scene .assign (assignment name expression) =
      ({ scene with vars }, .ok .next) := by
  have hname := Variables.isFreeName_of_assign hassign
  have hexpression : trim expression ≠ [] := by
    intro hnil
    rw [hnil, Scene.evaluate_nil] at hvalue
    cases hvalue
  have hcommand : ofLine .assign (assignment name expression) =
      .ok (.assign name (trim expression)) :=
    ofAssignment_assignment hname hexpression
  rw [process, hcommand, runParsed, run, hvalue, ok_bind, hassign]
  rfl

end Command

/-- What is assigned to a name is what the name is then worth, unless a hyphen ends the name: then
the name is worth nothing. So the value of an expression that one line assigns is handed on by a
line that assigns the name in turn, as long as neither line begins like a jump. -/
theorem Variables.assigned_reads_back {vars after : Variables} {name : Text} {value : Value}
    (agent : Agent) (h : vars.assign name value = .ok after) :
    (Scene.evaluate ⟨agent, after⟩ name = .ok value ↔ name.getLast? ≠ some '-') ∧
    ∀ labels expression other, name.getLast? ≠ some '-' → isFreeName other = true →
      ¬ "GoTo".toList <+: name → ¬ "GoTo".toList <+: other →
      Scene.evaluate ⟨agent, vars⟩ (trim expression) = .ok value →
        Command.Kind.ofLine? (Command.assignment name expression) = some .assign ∧
        Command.process labels ⟨agent, vars⟩ .assign (Command.assignment name expression) =
          (⟨agent, after⟩, .ok .next) ∧
        Command.Kind.ofLine? (Command.assignment other name) = some .assign ∧
        ∃ last, Command.process labels ⟨agent, after⟩ .assign (Command.assignment other name) =
          (⟨agent, last⟩, .ok .next) ∧ last.get? other = some value := by
  have hname := isFreeName_of_assign h
  have hchars := isNameChar_of_isIdentifier (isIdentifier_of_isFreeName hname)
  have hget : after.get? name = some value := by rw [get?_assign h, if_pos rfl]
  refine ⟨⟨fun hvalue hlast => ?_, fun hend => Scene.evaluate_variable hname hend hget⟩, ?_⟩
  · exact Scene.evaluate_hyphenRun ⟨hchars, hlast⟩ value hvalue
  · intro labels expression other hend hother hjump hjump' hexpression
    have hvalue : Scene.evaluate ⟨agent, after⟩ (trim name) = .ok value := by
      rw [trim_eq_self fun c hc => isBlank_of_isNameChar (hchars c hc)]
      exact Scene.evaluate_variable hname hend hget
    obtain ⟨last, hlast⟩ := exists_assign after hother value
    refine ⟨Command.Kind.ofLine?_assignment (isIdentifier_of_isFreeName hname) hjump expression,
      Command.process_assignment labels hexpression h,
      Command.Kind.ofLine?_assignment (isIdentifier_of_isFreeName hother) hjump' name,
      last, Command.process_assignment labels hvalue hlast, ?_⟩
    rw [get?_assign hlast, if_pos rfl]

/-- `step-size <- 3 + 4 * 2` and `y <- step-size`, where `step` is a variable too. -/
theorem Variables.assigned_reads_back_step_size :
    let vars : Variables := ⟨[("step".toList, .int 7)], by decide⟩
    let after : Variables :=
      ⟨[("step".toList, .int 7), ("step-size".toList, .int 11)], by decide⟩
    vars.assign "step-size".toList (.int 11) = .ok after ∧
      Scene.evaluate ⟨.fresh 10, after⟩ "step-size".toList = .ok (.int 11) ∧
      ∃ last, Command.process .empty ⟨.fresh 10, after⟩ .assign "y <- step-size".toList =
        (⟨.fresh 10, last⟩, .ok .next) ∧ last.get? ['y'] = some (.int 11) := by
  intro vars after
  have hassign : vars.assign "step-size".toList (.int 11) = .ok after := rfl
  have hsum : Scene.evaluate ⟨.fresh 10, vars⟩ (trim "3 + 4 * 2".toList) = .ok (.int 11) := by
    decide +kernel
  obtain ⟨hvalue, hlines⟩ := assigned_reads_back (.fresh 10) hassign
  have hend : "step-size".toList.getLast? ≠ some '-' := by decide
  obtain ⟨-, -, -, hlast⟩ :=
    hlines .empty _ ['y'] hend (by decide) (by decide) (by decide) hsum
  exact ⟨hassign, hvalue.2 hend, hlast⟩

/-- The name `a-` can be assigned, and what was assigned to it cannot be read. -/
theorem Variables.hyphen_name_not_read_back :
    let after : Variables := ⟨[("a-".toList, .int 5)], by decide⟩
    isFreeName "a-".toList = true ∧ Variables.empty.assign "a-".toList (.int 5) = .ok after ∧
      Scene.evaluate ⟨.fresh 10, after⟩ "a-".toList = .error (.undefinedVariable ['a']) ∧
      (Command.process .empty ⟨.fresh 10, after⟩ .assign "y <- a-".toList).2 =
        .error (.undefinedVariable ['a']) := by
  intro after
  exact ⟨by decide, rfl, by decide +kernel, by decide +kernel⟩

end Brushwork

import Brushwork.Inspection.Form
import Brushwork.Proofs.Command.Arguments
import Brushwork.Proofs.Command.Assignment
import Brushwork.Proofs.Expr.Acceptance

/-!
# The form of a line and what becomes of it

A line is judged by its form before it is taken apart, by rules of its own. A line
against whose form nothing can be said is taken apart, and is then refused for an
expression or for the state of the run, never for its form. For jumps and for
assignments the judgment is exact: what it objects to cannot be taken apart.
-/

namespace Brushwork

section Assignments

variable {line name blanks rest : Text}

/-- The line is a name, blanks, an arrow and something to assign. -/
structure AssignsTo (line name blanks rest : Text) : Prop where
  line_eq : line = name ++ (blanks ++ '<' :: '-' :: rest)
  name : isIdentifier name = true
  blanks : ∀ c ∈ blanks, isBlank c = true
  rest : trim rest ≠ []

namespace AssignsTo

theorem exists_cons (h : AssignsTo line name blanks rest) :
    ∃ c after, blanks ++ '<' :: '-' :: rest = c :: after ∧ ¬ isNameChar c = true := by
  cases hblanks : blanks with
  | nil => exact ⟨'<', _, rfl, by decide⟩
  | cons c after =>
    have hblank : isBlank c = true := h.blanks c (hblanks ▸ List.mem_cons_self)
    refine ⟨c, _, rfl, fun hc => ?_⟩
    rw [isBlank_of_isNameChar hc] at hblank
    cases hblank

theorem assignedName?_eq (h : AssignsTo line name blanks rest) :
    Inspection.assignedName? line = some name := by
  have hchars := isNameChar_of_isIdentifier h.name
  obtain ⟨c, after, hcons, hc⟩ := h.exists_cons
  have htake : line.takeWhile isNameChar = name := by
    rw [h.line_eq, List.takeWhile_append_of_pos hchars, hcons, List.takeWhile_cons_of_neg hc,
      List.append_nil]
  have hdrop : line.dropWhile isNameChar = blanks ++ '<' :: '-' :: rest := by
    rw [h.line_eq, List.dropWhile_append_of_pos hchars, hcons, List.dropWhile_cons_of_neg hc]
  have harrow : trimStart (blanks ++ '<' :: '-' :: rest) = '<' :: '-' :: rest := by
    rw [trimStart, List.dropWhile_append_of_pos h.blanks, List.dropWhile_cons_of_neg (by decide)]
  have hrest : trimStart rest ≠ [] := mt trim_eq_nil_iff_trimStart.2 h.rest
  have hafter : dropStart? "<-".toList ('<' :: '-' :: rest) = some rest :=
    dropStart?_eq_some_iff.2 rfl
  have hform : (isIdentifier name && !(trimStart rest).isEmpty) = true := by
    simp [h.name, hrest]
  rw [Inspection.assignedName?]
  simp only [htake, hdrop, harrow, hafter, Option.bind_eq_bind, Option.bind_some, if_pos hform]

theorem of_assignedName? (h : Inspection.assignedName? line = some name) :
    ∃ blanks rest, AssignsTo line name blanks rest := by
  obtain ⟨rest, hrest, h⟩ := Option.bind_eq_some_iff.1 h
  obtain ⟨hform, heq⟩ := Option.ite_none_right_eq_some.1 h
  rw [Bool.and_eq_true] at hform
  have harrow := dropStart?_eq_some_iff.1 hrest
  refine ⟨(line.dropWhile isNameChar).takeWhile isBlank, rest, ?_, ?_, ?_, ?_⟩
  · have hafter : '<' :: '-' :: rest = (line.dropWhile isNameChar).dropWhile isBlank :=
      harrow.symm
    rw [hafter, List.takeWhile_append_dropWhile, ← Option.some.inj heq,
      List.takeWhile_append_dropWhile]
  · rw [← Option.some.inj heq]
    exact hform.1
  · intro c hc
    exact List.all_eq_true.1 List.all_takeWhile c hc
  · intro hnil
    rw [trim_eq_nil_iff_trimStart] at hnil
    simp [hnil] at hform

theorem ofAssignment_eq (h : AssignsTo line name blanks rest) :
    Command.ofAssignment line =
      if isReserved name = true then .error (.invalidIdentifier name)
      else .ok (.assign name (trim rest)) := by
  have hchars := isNameChar_of_isIdentifier h.name
  have hparts : Command.arrowParts? line = some (name ++ blanks, rest) := by
    have harrow : '<' ∉ name ++ blanks := by
      intro hmem
      rcases List.mem_append.1 hmem with hmem | hmem
      · cases hchars '<' hmem
      · cases h.blanks '<' hmem
    rw [h.line_eq, ← List.append_assoc]
    exact Command.arrowParts?_append harrow rest
  have hname : trim (name ++ blanks) = name := by
    rw [trim_append_of_blank h.blanks]
    exact trim_eq_self fun c hc => isBlank_of_isNameChar (hchars c hc)
  rw [Command.ofAssignment, hparts]
  simp only [hname]
  cases hreserved : isReserved name with
  | true => simp [isFreeName, hreserved]
  | false => simp [isFreeName, hreserved, h.name, h.rest]

/-- A trimmed line that can be taken apart as an assignment is one. -/
theorem of_ofAssignment {command : Command} (hline : trim line = line)
    (h : Command.ofAssignment line = .ok command) :
    ∃ name blanks rest, AssignsTo line name blanks rest := by
  obtain ⟨left, right, harrow, hfree, hright, -⟩ := Command.ofAssignment_eq_ok h
  have hidentifier := isIdentifier_of_isFreeName hfree
  have hstart : trimStart left = left := by
    cases left with
    | nil => rfl
    | cons c left =>
      rw [harrow.line_eq] at hline
      exact trimStart_cons (isBlank_of_trim_eq hline) left
  rw [trim, hstart] at hidentifier
  obtain ⟨blanks, hblanks, hleft⟩ := exists_trimEnd_append left
  refine ⟨trimEnd left, blanks, right, ?_, hidentifier, hblanks, hright⟩
  rw [harrow.line_eq, ← List.append_assoc, hleft, List.append_assoc]
  rfl

end AssignsTo

end Assignments

namespace Inspection

section Calls

variable {kind : Command.Kind} {line argument : Text} {parts : List Text}

theorem exists_of_isColorArgument (h : isColorArgument argument = true) :
    ∃ word, argument = '"' :: word ++ ['"'] := by
  unfold isColorArgument at h
  split at h
  · rename_i word hword
    obtain ⟨rest, hrest, hfinal⟩ := Option.bind_eq_some_iff.1 hword
    refine ⟨word, ?_⟩
    rw [dropStart?_eq_some_iff.1 hrest, dropFinal?_eq_some_iff.1 hfinal]
    rfl
  · cases h

theorem exists_colorName (h : isColorArgument argument = true) :
    ∃ name, Command.colorName argument = .ok name := by
  obtain ⟨word, rfl⟩ := exists_of_isColorArgument h
  have htrim : trim ('"' :: word ++ ['"']) = '"' :: word ++ ['"'] := by
    rw [trim, List.cons_append, trimStart_cons (by decide), ← List.cons_append,
      trimEnd_concat (by decide)]
  exact ⟨word, by rw [Command.colorName, Command.quotedText?_eq_some_iff.2 htrim]⟩

theorem ne_nil_of_argumentsFit (h : argumentsFit kind parts = true) : [] ∉ parts := by
  have hplain : ∀ parts : List Text, parts.all isPlainArgument = true → [] ∉ parts := by
    intro parts hall hmem
    cases List.all_eq_true.1 hall [] hmem
  obtain ⟨-, hparts⟩ := Bool.and_eq_true_iff.1 h
  split at hparts
  · rename_i color others _
    obtain ⟨hcolor, hothers⟩ := Bool.and_eq_true_iff.1 hparts
    intro hmem
    rcases List.mem_cons.1 hmem with rfl | hmem
    · cases hcolor
    · exact hplain others hothers hmem
  · exact hplain _ hparts

/-- Arguments of the form of their kind are those of a command. -/
theorem exists_ofArguments (h : argumentsFit kind parts = true) (line : Text) :
    ∃ command, Command.ofArguments kind line parts = .ok command := by
  obtain ⟨harity, hparts⟩ := Bool.and_eq_true_iff.1 h
  rw [beq_iff_eq] at harity
  cases kind with
  | goTo | assign => cases harity
  | fill =>
    match parts, harity with
    | [], _ => exact ⟨_, rfl⟩
  | size =>
    match parts, harity with
    | [_], _ => exact ⟨_, rfl⟩
  | spawn =>
    match parts, harity with
    | [_, _], _ => exact ⟨_, rfl⟩
  | drawLine | drawCircle =>
    match parts, harity with
    | [_, _, _], _ => exact ⟨_, rfl⟩
  | drawRectangle =>
    match parts, harity with
    | [_, _, _, _, _], _ => exact ⟨_, rfl⟩
  | color =>
    match parts, harity, hparts with
    | [argument], _, hparts =>
      obtain ⟨name, hname⟩ := exists_colorName (Bool.and_eq_true_iff.1 hparts).1
      exact ⟨.color name, bind_eq_ok_iff.2 ⟨name, hname, rfl⟩⟩
  | colorCount =>
    match parts, harity, hparts with
    | argument :: _, _, hparts =>
      obtain ⟨name, hname⟩ := exists_colorName (Bool.and_eq_true_iff.1 hparts).1
      exact ⟨.colorCount line, bind_eq_ok_iff.2 ⟨name, hname, rfl⟩⟩

theorem exists_ofArguments_of_callFits (h : callFits kind line = true) :
    ∃ command, (do Command.ofArguments kind line (← Command.arguments kind line)) =
      .ok command := by
  unfold callFits at h
  split at h
  · rename_i inner hinner
    have hline := Command.callArguments?_eq_some_iff.1 hinner
    have harity : some (splitArguments inner).length = kind.arity :=
      beq_iff_eq.1 (Bool.and_eq_true_iff.1 h).1
    have harguments : Command.arguments kind line = .ok (splitArguments inner) :=
      Command.arguments_eq_ok_iff.2 ⟨inner, hline, rfl, harity.symm, ne_nil_of_argumentsFit h⟩
    rw [harguments, ok_bind]
    exact exists_ofArguments h line
  · cases h

end Calls

section Lines

variable {kind : Command.Kind} {line : Text}

/-- A line whose form nothing can be said against is taken apart. -/
theorem exists_ofLine_of_commandForm (h : commandForm kind line = []) :
    ∃ command, Command.ofLine kind line = .ok command := by
  have hfits : ∀ {fits : Prop} [Decidable fits] {objection : Finding},
      (if fits then [] else [objection]) = [] → fits := by
    intro fits _ objection h
    by_contra hnot
    rw [if_neg hnot] at h
    cases h
  cases kind with
  | goTo =>
    obtain ⟨⟨label, condition⟩, hparts⟩ := Option.isSome_iff_exists.1 (hfits h)
    exact ⟨.goTo label condition, by rw [Command.ofLine, Command.ofJump, hparts]⟩
  | assign =>
    rw [commandForm] at h
    split at h
    · rename_i name hname
      obtain ⟨blanks, rest, hassigns⟩ := AssignsTo.of_assignedName? hname
      split at h
      · cases h
      · rename_i hreserved
        exact ⟨_, hassigns.ofAssignment_eq.trans (if_neg hreserved)⟩
    · cases h
  | fill =>
    rw [Command.ofLine]
    split
    · exact ⟨.fill, rfl⟩
    · rename_i hbare
      have hcall := hfits h
      rw [decide_eq_false hbare, Bool.false_or] at hcall
      exact exists_ofArguments_of_callFits hcall
  | spawn | color | drawLine | size | drawCircle | colorCount | drawRectangle =>
    exact exists_ofArguments_of_callFits (hfits h)

/-- Jumps and assignments to whose form there is an objection are not taken apart. -/
theorem ofLine_of_commandForm_ne_nil (hkind : kind = .goTo ∨ kind = .assign)
    (hline : trim line = line) (h : commandForm kind line ≠ []) :
    ∃ fault, Command.ofLine kind line = .error fault := by
  rcases hkind with rfl | rfl
  · have hparts : Command.jumpParts? line = none := by
      by_contra hsome
      exact h (if_pos (Option.isSome_iff_ne_none.2 hsome))
    exact ⟨.malformed .goTo, by rw [Command.ofLine, Command.ofJump, hparts]⟩
  · cases hcommand : Command.ofAssignment line with
    | error fault => exact ⟨fault, hcommand⟩
    | ok command =>
      obtain ⟨name, blanks, rest, hassigns⟩ := AssignsTo.of_ofAssignment hline hcommand
      have hfree : ¬ isReserved name = true := by
        intro hreserved
        rw [hassigns.ofAssignment_eq, if_pos hreserved] at hcommand
        cases hcommand
      rw [commandForm, hassigns.assignedName?_eq] at h
      exact absurd (if_neg hfree) h

end Lines

end Inspection

theorem Fault.category_of_ofForm {fault : Fault} (h : fault.ofForm = true) :
    fault.category = .syntactic := by
  cases fault with
  | malformed | unquotedColor | nothingToAssign | invalidIdentifier => rfl
  | _ => cases h

/-- A command is refused for no form, and as badly written only for an expression: for the number
of arguments of a query or for a quotation that is not closed. -/
theorem Fault.cases_of_ofEffect {fault : Fault} (h : fault.ofEffect = true) :
    fault.ofForm = false ∧
      (fault.category = .syntactic →
        (∃ query : Query, ∃ found, fault = .argumentCount query.name query.arity found) ∨
          ∃ source, fault = .unclosedQuotation source) := by
  cases fault with
  | malformed | unquotedColor | nothingToAssign | invalidIdentifier => cases h
  | unclosedQuotation source => exact ⟨rfl, fun _ => .inr ⟨source, rfl⟩⟩
  | argumentCount name expected found =>
    obtain ⟨query, hquery, harity⟩ := (Option.any_eq_true _ _).1 h
    refine ⟨rfl, fun _ => .inl ⟨query, found, ?_⟩⟩
    rw [Query.name_of_ofName? hquery, eq_of_beq harity]
  | _ => exact ⟨rfl, fun hsyntactic => by cases hsyntactic⟩

/-- A line of good form is not refused for its form, and a jump or an assignment of bad form is
refused as badly written. -/
theorem Inspection.form_agrees_with_process {line : Text} {kind : Command.Kind}
    (hline : trim line = line) (hkind : Command.Kind.ofLine? line = some kind) (labels : Labels)
    (scene : Scene) :
    (form line = [] → ∀ fault, (Command.process labels scene kind line).2 = .error fault →
      fault.ofForm = false ∧
        (fault.category = .syntactic →
          (∃ query : Query, ∃ found, fault = .argumentCount query.name query.arity found) ∨
            ∃ source, fault = .unclosedQuotation source)) ∧
    (kind = .goTo ∨ kind = .assign → commandForm kind line ≠ [] →
      ∃ fault, (Command.process labels scene kind line).2 = .error fault ∧
        fault.category = .syntactic) := by
  constructor
  · intro hform fault hfault
    rw [form, hkind] at hform
    obtain ⟨command, hcommand⟩ :=
      exists_ofLine_of_commandForm (List.append_eq_nil_iff.1 hform).2
    rw [Command.process, hcommand] at hfault
    exact Fault.cases_of_ofEffect
      (Command.run_refused labels scene (Command.isFreeName_of_ofLine hcommand) fault hfault)
  · intro hexact hform
    obtain ⟨fault, hfault⟩ := ofLine_of_commandForm_ne_nil hexact hline hform
    refine ⟨fault, by rw [Command.process, hfault, Command.runParsed], ?_⟩
    exact Fault.category_of_ofForm (Command.ofLine_refused kind line fault hfault)

/-- `a-b` is assigned `-GetActualX(1)` after a wide blank, which is refused for the query alone;
`Fill` cannot be assigned to. -/
theorem Inspection.form_agrees_with_process_hyphen :
    let scene : Scene := ⟨.fresh 3, .empty⟩
    let line := "a-b\u3000<--GetActualX(1)".toList
    (form line = [] ∧
      (Command.process .empty scene .assign line).2 =
        .error (.argumentCount "GetActualX".toList 0 1) ∧
      ∃ query : Query, ∃ found,
        Fault.argumentCount "GetActualX".toList 0 1 =
          .argumentCount query.name query.arity found) ∧
    commandForm .assign "Fill <- 2".toList ≠ [] ∧
      ∃ fault, (Command.process .empty scene .assign "Fill <- 2".toList).2 = .error fault ∧
        fault.category = .syntactic := by
  intro scene line
  have hfault : (Command.process .empty scene .assign line).2 =
      .error (.argumentCount "GetActualX".toList 0 1) := by decide +kernel
  have hform : form line = [] := by decide +kernel
  have hobjection : commandForm .assign "Fill <- 2".toList ≠ [] := by decide +kernel
  have hline : trim line = line := by decide +kernel
  have hkind : Command.Kind.ofLine? line = some .assign := by decide +kernel
  have hquery := (form_agrees_with_process hline hkind .empty scene).1 hform _ hfault
  refine ⟨⟨hform, hfault, ?_⟩, hobjection, ?_⟩
  · rcases hquery.2 rfl with hquery | ⟨source, hsource⟩
    · exact hquery
    · cases hsource
  · exact (form_agrees_with_process (by decide) (by decide) .empty scene).2 (.inr rfl) hobjection

end Brushwork

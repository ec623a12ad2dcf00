import Brushwork.Proofs.Command.Jump
import Brushwork.Proofs.Program.Leads
import Brushwork.Proofs.Program.Limit
import Brushwork.Proofs.Program.Steps

/-!
# Labels and where they lead

The labels of a program are settled before it runs. A label belongs to the first line
that declares it, and every later line that declares it again is reported, in the
order of the lines. So a jump always goes to a line of the program, and to the same
one however often and in whatever scene it is made.
-/

namespace Brushwork

theorem isFreeName_of_labelOf? {line name : Text} (h : labelOf? line = some name) :
    isFreeName name = true := by
  obtain ⟨hfree, heq⟩ := Option.ite_none_right_eq_some.1 h
  cases heq
  exact hfree

theorem labelOf?_of_isStatement {line : Text} (h : isStatement line = true) :
    labelOf? line = none := by
  simp only [isStatement, Bool.and_eq_true, Option.isNone_iff_eq_none] at h
  exact h.2

namespace Labels

theorem resolve?_cons (entry : Text × Nat) (entries : List (Text × Nat)) (name : Text) :
    resolve? ⟨entry :: entries⟩ name =
      if entry.1 = name then some entry.2 else resolve? ⟨entries⟩ name := by
  by_cases h : entry.1 = name
  · simp [resolve?, h]
  · simp [resolve?, h]

/-- The one reason for which a free name is not declared is that it is declared already. -/
theorem declare_of_isFreeName (labels : Labels) {name : Text} (h : isFreeName name = true)
    (line : Nat) :
    labels.declare name line =
      if labels.declares name then .error (.duplicateLabel name)
      else .ok ⟨(name, line) :: labels.entries⟩ := by
  simp [declare, h]

end Labels

/-- A label is first declared by the line at a position. -/
structure FirstDeclaration (lines : List Text) (name : Text) (position : Nat) : Prop where
  declared : ∃ line, lines[position]? = some line ∧ labelOf? line = some name
  first : ∀ i < position, ∀ line, lines[i]? = some line → labelOf? line ≠ some name

namespace FirstDeclaration

variable {lines : List Text} {name : Text} {position : Nat}

theorem isFreeName (h : FirstDeclaration lines name position) : isFreeName name = true := by
  obtain ⟨line, -, hlabel⟩ := h.declared
  exact isFreeName_of_labelOf? hlabel

theorem exists_not_isStatement (h : FirstDeclaration lines name position) :
    ∃ line, lines[position]? = some line ∧ isStatement line = false := by
  obtain ⟨line, hline, hlabel⟩ := h.declared
  exact ⟨line, hline, by simp [isStatement, hlabel]⟩

end FirstDeclaration

/-- The diagnostic of a line whose label a line above it has declared. -/
def duplicateAt? (lines : List Text) (position : Nat) : Option Diagnostic := do
  let line ← lines[position]?
  let name ← labelOf? line
  if (lines.take position).any (labelOf? · == some name) then
    some ((Fault.duplicateLabel name).finding.at (position + 1) line)
  else none

theorem duplicateAt?_eq_some {lines : List Text} {position : Nat} {d : Diagnostic}
    (h : duplicateAt? lines position = some d) :
    ∃ line name, lines[position]? = some line ∧ labelOf? line = some name ∧
      d = (Fault.duplicateLabel name).finding.at (position + 1) line := by
  obtain ⟨line, hline, h⟩ := Option.bind_eq_some_iff.1 h
  obtain ⟨name, hname, h⟩ := Option.bind_eq_some_iff.1 h
  obtain ⟨-, h⟩ := Option.ite_none_right_eq_some.1 h
  exact ⟨line, name, hline, hname, (Option.some.inj h).symm⟩

section Declaring

variable {labels : Labels} {position : Nat} {line name : Text}

theorem declareLabels_of_none (h : labelOf? line = none) (rest : List Text) :
    declareLabels labels position (line :: rest) = declareLabels labels (position + 1) rest := by
  simp only [declareLabels, h]

theorem declareLabels_of_new (h : labelOf? line = some name)
    (hnew : labels.resolve? name = none) (rest : List Text) :
    declareLabels labels position (line :: rest) =
      declareLabels ⟨(name, position) :: labels.entries⟩ (position + 1) rest := by
  have hdeclare := labels.declare_of_isFreeName (isFreeName_of_labelOf? h) position
  rw [Labels.declares, hnew, if_neg (by simp)] at hdeclare
  simp only [declareLabels, h, hdeclare]

theorem declareLabels_of_known {known : Nat} (h : labelOf? line = some name)
    (hknown : labels.resolve? name = some known) (rest : List Text) :
    declareLabels labels position (line :: rest) =
      ((declareLabels labels (position + 1) rest).1,
        (Fault.duplicateLabel name).finding.at (position + 1) line ::
          (declareLabels labels (position + 1) rest).2) := by
  have hdeclare := labels.declare_of_isFreeName (isFreeName_of_labelOf? h) position
  rw [Labels.declares, hknown, if_pos (by simp)] at hdeclare
  simp only [declareLabels, h, hdeclare]

end Declaring

/-- Labels declared before keep their lines; the others belong to the first line that declares
them. -/
theorem resolve?_declareLabels (labels : Labels) (position : Nat) (lines : List Text)
    (name : Text) :
    (declareLabels labels position lines).1.resolve? name =
      (labels.resolve? name).or
        ((lines.findIdx? (labelOf? · == some name)).map (position + ·)) := by
  induction lines generalizing labels position with
  | nil => simp [declareLabels]
  | cons line rest ih =>
    have hshift : ∀ found : Option Nat,
        (found.map (· + 1)).map (position + ·) = found.map (position + 1 + ·) := by
      intro found
      cases found with
      | none => rfl
      | some i => exact congrArg some (Nat.add_right_comm position i 1)
    cases hlabel : labelOf? line with
    | none =>
      rw [declareLabels_of_none hlabel, ih, List.findIdx?_cons, if_neg (by simp [hlabel]), hshift]
    | some declared =>
      cases hknown : labels.resolve? declared with
      | none =>
        rw [declareLabels_of_new hlabel hknown, ih, Labels.resolve?_cons, List.findIdx?_cons]
        by_cases heq : declared = name
        · subst heq
          simp [hlabel, hknown]
        · rw [if_neg heq, if_neg (by simpa [hlabel] using heq), hshift]
      | some known =>
        rw [declareLabels_of_known hlabel hknown, ih, List.findIdx?_cons]
        by_cases heq : declared = name
        · subst heq
          simp [hknown]
        · rw [if_neg (by simpa [hlabel] using heq), hshift]

theorem duplicateAt?_append (above : List Text) (line : Text) (rest : List Text) :
    duplicateAt? (above ++ line :: rest) above.length =
      (labelOf? line).bind fun name =>
        if above.any (labelOf? · == some name) then
          some ((Fault.duplicateLabel name).finding.at (above.length + 1) line)
        else none := by
  simp [duplicateAt?]

/-- Where the lines above have declared the labels so far, exactly the duplicates are refused. -/
theorem refused_declareLabels {labels : Labels} {above : List Text}
    (h : ∀ name, (labels.resolve? name).isSome = above.any (labelOf? · == some name))
    (lines : List Text) :
    (declareLabels labels above.length lines).2 =
      (List.range' above.length lines.length).filterMap (duplicateAt? (above ++ lines)) := by
  induction lines generalizing labels above with
  | nil => rfl
  | cons line rest ih =>
    have hrest : ∀ labels : Labels,
        (∀ name, (labels.resolve? name).isSome =
          (above ++ [line]).any (labelOf? · == some name)) →
        (declareLabels labels (above.length + 1) rest).2 =
          (List.range' (above.length + 1) rest.length).filterMap
            (duplicateAt? (above ++ line :: rest)) := by
      intro labels hlabels
      have hrest := ih hlabels
      rwa [List.length_append, List.length_singleton, List.append_assoc,
        List.singleton_append] at hrest
    rw [List.length_cons, List.range'_succ, List.filterMap_cons, duplicateAt?_append]
    cases hlabel : labelOf? line with
    | none =>
      rw [declareLabels_of_none hlabel, Option.bind_none]
      refine hrest labels fun name => ?_
      simp [h, hlabel]
    | some declared =>
      rw [Option.bind_some, ← h]
      cases hknown : labels.resolve? declared with
      | none =>
        rw [declareLabels_of_new hlabel hknown, if_neg (by simp)]
        refine hrest _ fun name => ?_
        rw [Labels.resolve?_cons, List.any_append, ← h]
        by_cases heq : declared = name
        · subst heq
          simp [hlabel]
        · simp [hlabel, heq]
      | some known =>
        rw [declareLabels_of_known hlabel hknown, if_pos (by simp)]
        refine congrArg (List.cons _) (hrest labels fun name => ?_)
        rw [List.any_append, ← h]
        by_cases heq : declared = name
        · subst heq
          simp [hknown]
        · simp [hlabel, heq]

namespace Program

theorem resolve?_labels_iff {size : Nat} {lines : List Text} {name : Text} {position : Nat} :
    (ofLines size lines).labels.resolve? name = some position ↔
      FirstDeclaration lines name position := by
  have hfirst : (ofLines size lines).labels.resolve? name =
      lines.findIdx? (labelOf? · == some name) := by
    change (declareLabels .empty 0 lines).1.resolve? name = _
    rw [resolve?_declareLabels]
    simp [Labels.resolve?, Labels.empty]
  rw [hfirst, List.findIdx?_eq_some_iff_getElem]
  constructor
  · rintro ⟨hlt, hdeclared, hbefore⟩
    refine ⟨⟨lines[position], List.getElem?_eq_getElem hlt, by simpa using hdeclared⟩, ?_⟩
    intro i hi line hline hlabel
    obtain ⟨hlt', rfl⟩ := List.getElem?_eq_some_iff.1 hline
    exact hbefore i hi (by simpa using hlabel)
  · rintro ⟨⟨line, hline, hlabel⟩, hbefore⟩
    obtain ⟨hlt, rfl⟩ := List.getElem?_eq_some_iff.1 hline
    refine ⟨hlt, by simpa using hlabel, fun i hi hlabel' => ?_⟩
    exact hbefore i hi _ (List.getElem?_eq_getElem (by omega)) (by simpa using hlabel')

theorem refused_ofLines (size : Nat) (lines : List Text) :
    (ofLines size lines).refused =
      (List.range lines.length).filterMap (duplicateAt? lines) := by
  have hnone : ∀ name, (Labels.empty.resolve? name).isSome =
      ([] : List Text).any (labelOf? · == some name) := fun _ => rfl
  rw [List.range_eq_range']
  exact refused_declareLabels hnone lines

theorem resolve?_labels_of_undeclared {size : Nat} {lines : List Text} {name : Text}
    (h : ∀ line ∈ lines, labelOf? line ≠ some name) :
    (ofLines size lines).labels.resolve? name = none := by
  cases hfound : (ofLines size lines).labels.resolve? name with
  | none => rfl
  | some position =>
    obtain ⟨line, hline, hlabel⟩ := (resolve?_labels_iff.1 hfound).declared
    exact absurd hlabel (h line (List.mem_of_getElem? hline))

/-- Every refused label is reported as a duplicate, never for its name. -/
theorem message_ne_of_mem_refused {size : Nat} {lines : List Text} {d : Diagnostic}
    (h : d ∈ (ofLines size lines).refused) (name : Text) :
    d.message ≠ (Fault.invalidLabelName name).message := by
  rw [refused_ofLines] at h
  obtain ⟨position, -, hduplicate⟩ := List.mem_filterMap.1 h
  obtain ⟨line, declared, -, -, rfl⟩ := duplicateAt?_eq_some hduplicate
  have hopening : opening (Fault.duplicateLabel declared).message = ['d', 'u'] := by
    unfold Fault.message
    exact opening_append 'd' 'u' _ _
  have hinvalid : opening (Fault.invalidLabelName name).message = ['i', 'n'] := by
    unfold Fault.message
    exact opening_append 'i' 'n' _ _
  intro hmessage
  change (Fault.duplicateLabel declared).message = _ at hmessage
  rw [hmessage, hinvalid] at hopening
  revert hopening
  decide

end Program

theorem isStatement_jumpLine (label condition : Text) :
    isStatement (Command.jumpLine label condition) = true := by
  obtain ⟨middle, hline⟩ : ∃ middle,
      Command.jumpLine label condition = 'G' :: middle ++ [')'] :=
    ⟨"oTo [".toList ++ (label ++ ']' :: ' ' :: '(' :: condition),
      by simp [Command.jumpLine, Command.jumpEnd]⟩
  have hblank : ' ' ∈ Command.jumpLine label condition := by simp [Command.jumpLine]
  rw [hline] at hblank ⊢
  have hnot : isFreeName ('G' :: middle ++ [')']) = false := by
    refine Bool.eq_false_iff.2 fun hfree => ?_
    have hchars := isNameChar_of_isIdentifier (isIdentifier_of_isFreeName hfree)
    exact absurd (hchars ' ' hblank) (by decide)
  have hstart : trimStart ('G' :: middle ++ [')']) = 'G' :: middle ++ [')'] :=
    trimStart_cons (by decide) _
  have hend : trimEnd ('G' :: middle ++ [')']) = 'G' :: middle ++ [')'] :=
    trimEnd_concat (by decide) _
  have hcolon : dropFinal? ':' ('G' :: middle ++ [')']) = none := by
    rw [dropFinal?, List.getLast?_concat, if_neg (by decide)]
  have hlabel : labelOf? ('G' :: middle ++ [')']) = none := by
    rw [labelOf?, trim, hstart, hend, hcolon, Option.getD_none, hend, hnot]
    rfl
  rw [isStatement, hlabel]
  rfl

/-- Only a jump goes anywhere but to the next line. -/
theorem Run.position_dispatch_of_not_goTo {line : Text}
    (h : Command.Kind.ofLine? line ≠ some .goTo) (labels labels' : Labels) (size : Nat) (run : Run)
    (position : Nat) :
    (run.dispatch labels position (.ofLine labels' size line)).position = position + 1 := by
  rw [position_dispatch]
  cases hkind : Command.Kind.ofLine? line with
  | none => rw [Step.ofStatement_of_unrecognized hkind]
  | some kind =>
    rw [Step.position_of_kind hkind]
    split
    · rename_i target hjump
      obtain ⟨rfl, -⟩ := Command.process_eq_jump hjump
      exact absurd hkind h
    · rfl

/-- A label belongs to the first line that declares it, which is not to be run. Exactly those lines
are reported whose label a line above them has declared, and none for the name of its label. A jump
goes to a line of the program: to the first that declares its label, in whatever scene it is made.
If no line declares the label, the next line follows. -/
theorem Program.labels_lead_to_first_declarations (size : Nat) (lines : List Text) :
    let labels := (ofLines size lines).labels
    let refused := (ofLines size lines).refused
    (∀ name position, labels.resolve? name = some position ↔
      FirstDeclaration lines name position) ∧
    (∀ name position, FirstDeclaration lines name position →
      ∃ line, lines[position]? = some line ∧ isStatement line = false) ∧
    refused = (List.range lines.length).filterMap (duplicateAt? lines) ∧
    (∀ d ∈ refused, ∀ name, d.message ≠ (Fault.invalidLabelName name).message) ∧
    (∀ (run : Run) position line kind target, Command.Kind.ofLine? line = some kind →
      (Command.process labels run.scene kind line).2 = .ok (.jump target) →
        (run.dispatch labels position (.ofLine labels size line)).position = target ∧
          target < lines.length) ∧
    (∀ name target, FirstDeclaration lines name target →
      let line := Command.jumpLine name "true".toList
      isStatement line = true ∧ Command.Kind.ofLine? line = some .goTo ∧
        ∀ scene, Command.process labels scene .goTo line = (scene, .ok (.jump target))) ∧
    (∀ line label condition, Command.jumpParts? line = some (label, condition) →
      (∀ other ∈ lines, labelOf? other ≠ some label) →
        ∀ (run : Run) position,
          (run.dispatch labels position (.ofLine labels size line)).position = position + 1) := by
  intro labels refused
  refine ⟨fun _ _ => resolve?_labels_iff, fun _ _ => FirstDeclaration.exists_not_isStatement,
    refused_ofLines size lines, fun _ => message_ne_of_mem_refused, ?_, ?_, ?_⟩
  · intro run position line kind target hkind hjump
    obtain ⟨-, label, condition, -, htarget⟩ := Command.process_eq_jump hjump
    obtain ⟨declaration, hdeclaration, -⟩ := (resolve?_labels_iff.1 htarget).declared
    refine ⟨?_, (List.getElem?_eq_some_iff.1 hdeclaration).1⟩
    rw [Run.position_dispatch, Step.position_of_kind hkind, hjump]
  · intro name target hfirst line
    have hidentifier := isIdentifier_of_isFreeName hfirst.isFreeName
    refine ⟨isStatement_jumpLine name _, ?_, ?_⟩
    · exact Command.ofLine?_of_jumpParts? (Command.jumpParts?_jumpLine hidentifier (by decide))
    · exact Command.process_jumpLine hidentifier (resolve?_labels_iff.2 hfirst)
  · intro line label condition hparts hundeclared run position
    have hnone : labels.resolve? label = none := resolve?_labels_of_undeclared hundeclared
    rw [Run.position_dispatch, Step.position_of_kind (Command.ofLine?_of_jumpParts? hparts)]
    split
    · rename_i target hjump
      obtain ⟨-, label', condition', hparts', htarget⟩ := Command.process_eq_jump hjump
      rw [hparts] at hparts'
      cases hparts'
      rw [hnone] at htarget
      cases htarget
    · rfl

end Brushwork

import Brushwork.Command.Basic
import Brushwork.Proofs.Command.Frame
import Brushwork.Proofs.Text.Arguments

/-!
# Lines written like calls

A line that is written from a keyword and its arguments, with a comma and a blank between
each two, is taken apart into these arguments. And whatever line is taken apart, its
arguments are all that stands between the commas of its parentheses, blanks around them
aside.
-/

namespace Brushwork

namespace Command

def Kind.callLine (kind : Kind) (parts : List Text) : Text :=
  kind.keyword ++ '(' :: (", ".toList.intercalate parts ++ [')'])

/-- A text that can be written as an argument: its quotations and parentheses are closed, and no
comma of it stands outside them. -/
structure IsArgument (t : Text) : Prop where
  ne_nil : t ≠ []
  trimmed : trim t = t
  quotes : t.count '"' % 2 = 0
  balanced : parenthesesBalanced t = true
  undivided : ∀ before after, t = before ++ ',' :: after →
    (before.foldl Nesting.after {}).atTop = false

theorem undivided_iff {t : Text} :
    (∀ before after, t = before ++ ',' :: after → (before.foldl Nesting.after {}).atTop = false) ↔
      Nesting.commas.Whole {} t := by
  rw [Separation.whole_iff]
  constructor
  · intro h before after heq htop
    exact Bool.eq_false_iff.1 (h before after heq) (Nesting.atTop_iff.2 htop)
  · intro h before after heq
    exact Bool.eq_false_iff.2 fun htop => h before after heq (Nesting.atTop_iff.1 htop)

theorem isArgument_iff {t : Text} : IsArgument t ↔ t ≠ [] ∧ trim t = t ∧ t.count '"' % 2 = 0 ∧
    parenthesesBalanced t = true ∧ Nesting.commas.Whole {} t := by
  rw [← undivided_iff]
  exact ⟨fun h => ⟨h.1, h.2, h.3, h.4, h.5⟩, fun ⟨h₁, h₂, h₃, h₄, h₅⟩ => ⟨h₁, h₂, h₃, h₄, h₅⟩⟩

instance (t : Text) : Decidable (IsArgument t) := decidable_of_iff _ isArgument_iff.symm

namespace IsArgument

variable {t : Text}

theorem endsAtTop (h : IsArgument t) : Nesting.commas.EndsAtTop t where
  whole := undivided_iff.1 h.undivided
  foldl_eq := foldl_of_parenthesesBalanced h.balanced h.quotes

theorem trim_append_ne_nil (h : IsArgument t) (rest : Text) : trim (t ++ rest) ≠ [] := by
  cases t with
  | nil => exact absurd rfl h.ne_nil
  | cons c t =>
    intro hnil
    have hblank := trim_eq_nil_iff.1 hnil c List.mem_cons_self
    rw [isBlank_of_trim_eq h.trimmed] at hblank
    cases hblank

end IsArgument

/-- A comma and a blank between each two arguments make parts that begin with the blank, the first
one apart. -/
theorem parts_intercalate {first : Text} {others : List Text}
    (h : ∀ part ∈ first :: others, IsArgument part) :
    Nesting.commas.parts (", ".toList.intercalate (first :: others)) =
      first :: others.map (' ' :: ·) := by
  induction others generalizing first with
  | nil =>
    rw [List.intercalate_singleton]
    exact Nesting.commas.parts_of_whole (h first List.mem_cons_self).endsAtTop.whole
  | cons second others ih =>
    obtain ⟨hfirst, hothers⟩ := List.forall_mem_cons.1 h
    have hjoined : ", ".toList.intercalate (first :: second :: others) =
        first ++ Nesting.commas.mark :: ' ' :: ", ".toList.intercalate (second :: others) := by
      rw [List.intercalate_cons_cons, List.append_assoc]
      rfl
    have hblank : ∀ t, Nesting.commas.parts (' ' :: t) =
        (Nesting.commas.parts t).modifyHead (' ' :: ·) := by
      intro t
      rw [Separation.parts, Separation.partsFrom, if_neg (by decide)]
      rfl
    rw [hjoined, Nesting.commas.parts_append hfirst.endsAtTop, hblank, ih hothers]
    rfl

theorem splitArguments_intercalate {parts : List Text} (h : ∀ part ∈ parts, IsArgument part) :
    splitArguments (", ".toList.intercalate parts) = parts := by
  cases parts with
  | nil => rfl
  | cons first others =>
    obtain ⟨hfirst, hothers⟩ := List.forall_mem_cons.1 h
    have hnonblank : trim (", ".toList.intercalate (first :: others)) ≠ [] := by
      cases others with
      | nil => simpa using hfirst.trim_append_ne_nil []
      | cons second others =>
        rw [List.intercalate_cons_cons, List.append_assoc]
        exact hfirst.trim_append_ne_nil _
    have htrim : (others.map (' ' :: ·)).map trim = others := by
      rw [List.map_map]
      refine (List.map_congr_left fun part hpart => ?_).trans (List.map_id others)
      have hstart : trimStart (' ' :: part) = trimStart part :=
        trimStart_cons_of_blank (by decide) _
      rw [Function.comp_apply, trim, hstart]
      exact (hothers part hpart).trimmed
    rw [splitArguments_eq hnonblank, parts_intercalate h, List.map_cons, hfirst.trimmed, htrim]

theorem callArguments?_eq_some_iff {keyword line inner : Text} :
    callArguments? keyword line = some inner ↔ line = keyword ++ '(' :: (inner ++ [')']) := by
  unfold callArguments?
  constructor
  · intro h
    obtain ⟨rest, hrest, h⟩ := Option.bind_eq_some_iff.1 h
    obtain ⟨rest', hrest', h⟩ := Option.bind_eq_some_iff.1 h
    rw [dropStart?_eq_some_iff.1 hrest, dropStart?_eq_some_iff.1 hrest',
      dropFinal?_eq_some_iff.1 h]
    rfl
  · rintro rfl
    refine Option.bind_eq_some_iff.2 ⟨_, dropStart?_eq_some_iff.2 rfl, ?_⟩
    exact Option.bind_eq_some_iff.2
      ⟨_, dropStart?_eq_some_iff.2 rfl, dropFinal?_eq_some_iff.2 rfl⟩

theorem quotedText?_eq_some_iff {argument name : Text} :
    quotedText? argument = some name ↔ trim argument = '"' :: name ++ ['"'] := by
  unfold quotedText?
  constructor
  · intro h
    obtain ⟨rest, hrest, hfinal⟩ := Option.bind_eq_some_iff.1 h
    rw [dropStart?_eq_some_iff.1 hrest, dropFinal?_eq_some_iff.1 hfinal]
    rfl
  · intro h
    rw [h]
    exact Option.bind_eq_some_iff.2 ⟨_, dropStart?_eq_some_iff.2 rfl, dropFinal?_eq_some_iff.2 rfl⟩

/-- What it takes for a line to have its arguments. -/
theorem arguments_eq_ok_iff {kind : Kind} {line : Text} {parts : List Text} :
    arguments kind line = .ok parts ↔ ∃ inner, line = kind.keyword ++ '(' :: (inner ++ [')']) ∧
      splitArguments inner = parts ∧ kind.arity = some parts.length ∧ [] ∉ parts := by
  constructor
  · intro h
    have harity := arity_of_arguments h
    unfold arguments at h
    split at h
    · cases h
    · rename_i inner hinner
      dsimp only at h
      split at h
      · cases h
      · rename_i hright
        cases h
        refine ⟨inner, callArguments?_eq_some_iff.1 hinner, rfl, harity, fun hnil => ?_⟩
        exact (not_or.1 hright).2 (List.any_eq_true.2 ⟨[], hnil, rfl⟩)
  · rintro ⟨inner, hline, rfl, harity, hnil⟩
    rw [arguments, callArguments?_eq_some_iff.2 hline]
    dsimp only
    rw [if_neg]
    rintro (hwrong | hempty)
    · exact hwrong harity.symm
    · obtain ⟨part, hpart, hempty⟩ := List.any_eq_true.1 hempty
      rw [List.isEmpty_iff.1 hempty] at hpart
      exact hnil hpart

/-- The line with given arguments is taken apart into these arguments. -/
theorem arguments_callLine {kind : Kind} {parts : List Text}
    (harity : kind.arity = some parts.length)
    (h : ∀ part ∈ parts, IsArgument part) : arguments kind (kind.callLine parts) = .ok parts :=
  arguments_eq_ok_iff.2
    ⟨_, rfl, splitArguments_intercalate h, harity, fun hnil => (h [] hnil).ne_nil rfl⟩

/-- The line with given arguments is taken apart into these. A line that is taken apart has as many
arguments as its kind, none of them empty; and if it has any, they are all that stands between the
commas of its parentheses, blanks around them aside. -/
theorem arguments_round_trip (kind : Kind) :
    (∀ parts, kind.arity = some parts.length → (∀ part ∈ parts, IsArgument part) →
      arguments kind (kind.callLine parts) = .ok parts) ∧
    ∀ line parts, kind.arity ≠ some 0 → arguments kind line = .ok parts →
      kind.arity = some parts.length ∧ (∀ part ∈ parts, part ≠ [] ∧ trim part = part) ∧
      ∃ pieces, line = kind.keyword ++ '(' :: ([','].intercalate pieces ++ [')']) ∧
        pieces.map trim = parts := by
  refine ⟨fun parts harity h => arguments_callLine harity h, fun line parts hany harguments => ?_⟩
  obtain ⟨inner, hline, hparts, harity, hnil⟩ := arguments_eq_ok_iff.1 harguments
  have hnonblank : trim inner ≠ [] := by
    intro hblank
    rw [splitArguments_of_trim_eq_nil hblank] at hparts
    rw [← hparts] at harity
    exact hany harity
  rw [splitArguments_eq hnonblank] at hparts
  refine ⟨harity, fun part hpart => ⟨?_, ?_⟩, Nesting.commas.parts inner, ?_, hparts⟩
  · rintro rfl
    exact hnil hpart
  · rw [← hparts] at hpart
    obtain ⟨piece, -, rfl⟩ := List.mem_map.1 hpart
    exact trim_trim piece
  · rw [show [','] = [Nesting.commas.mark] from rfl, Nesting.commas.intercalate_parts]
    exact hline

/-- A call, a group and a quotation with commas of their own; and a line with blanks of all kinds
around its commas. -/
theorem arguments_round_trip_nested :
    let parts := ["f(a, \"),\")".toList, "(1, 2) - é".toList, "\"(,\"".toList]
    let line := "DrawLine( 1,(2,\n2)\t, \u3000\",\"\u3000)".toList
    ((∀ part ∈ parts, IsArgument part) ∧
      arguments .drawLine (Kind.callLine .drawLine parts) = .ok parts) ∧
    arguments .drawLine line = .ok ["1".toList, "(2,\n2)".toList, "\",\"".toList] ∧
    ∃ pieces, line = "DrawLine(".toList ++ ([','].intercalate pieces ++ [')']) ∧
      pieces.map trim = ["1".toList, "(2,\n2)".toList, "\",\"".toList] := by
  intro parts line
  have hparts : ∀ part ∈ parts, IsArgument part := by decide
  have hline : arguments .drawLine line = .ok ["1".toList, "(2,\n2)".toList, "\",\"".toList] := by
    decide
  obtain ⟨hwritten, hread⟩ := arguments_round_trip .drawLine
  obtain ⟨-, -, hpieces⟩ := hread line _ (by decide) hline
  exact ⟨⟨hparts, hwritten parts rfl hparts⟩, hline, hpieces⟩

end Command

end Brushwork

import Mathlib.Data.List.Forall2
import Brushwork.Proofs.Text.Lines
import Brushwork.Proofs.Text.Trimming

/-!
# The layout of a text

What stands around the lines of a text: carriage returns before the line feeds, and
blanks before the lines. Neither of them reaches a trimmed line. A text is blank as a whole
exactly when all of its lines are.
-/

namespace Brushwork

def withReturns (t : Text) : Text :=
  t.flatMap fun c => if c = '\n' then ['\r', '\n'] else [c]

/-- The text with an indentation of its own before each line, whose positions count from zero. -/
def indentLines (indent : Nat → Text) (t : Text) : Text :=
  ['\n'].intercalate ((splitLines t).mapIdx fun i line => indent i ++ line)

theorem trim_blank_append {blanks : Text} (h : ∀ c ∈ blanks, isBlank c = true) (t : Text) :
    trim (blanks ++ t) = trim t := by
  rw [trim, trimStart, List.dropWhile_append_of_pos h, ← trimStart, ← trim]

section Lines

theorem splitLines_lineFeed (t : Text) : splitLines ('\n' :: t) = [] :: splitLines t := by
  rw [splitLines, if_pos rfl]

/-- Any character but a line feed goes to the first line. -/
theorem splitLines_cons_of_ne {c : Char} (hc : c ≠ '\n') {t first : Text} {others : List Text}
    (h : splitLines t = first :: others) : splitLines (c :: t) = (c :: first) :: others := by
  rw [splitLines, if_neg hc, h]

theorem exists_splitLines_eq_cons (t : Text) :
    ∃ first others, splitLines t = first :: others :=
  List.exists_cons_of_ne_nil (splitLines_ne_nil t)

/-- Each line but the last gets a carriage return at its end. -/
theorem forall₂_splitLines_withReturns (t : Text) :
    List.Forall₂ (fun line other => line = other ∨ line = other ++ ['\r'])
      (splitLines (withReturns t)) (splitLines t) := by
  induction t with
  | nil => exact .cons (.inl rfl) .nil
  | cons c t ih =>
    rw [withReturns, List.flatMap_cons, ← withReturns]
    by_cases hc : c = '\n'
    · subst hc
      have hreturn : splitLines ('\r' :: '\n' :: withReturns t) =
          ['\r'] :: splitLines (withReturns t) :=
        splitLines_cons_of_ne (by decide) (splitLines_lineFeed _)
      rw [splitLines_lineFeed, if_pos rfl, List.cons_append, List.singleton_append, hreturn]
      exact .cons (.inr rfl) ih
    · obtain ⟨first, others, hlines⟩ := exists_splitLines_eq_cons t
      obtain ⟨first', others', hlines'⟩ := exists_splitLines_eq_cons (withReturns t)
      rw [hlines, hlines', List.forall₂_cons] at ih
      rw [if_neg hc, List.singleton_append, splitLines_cons_of_ne hc hlines,
        splitLines_cons_of_ne hc hlines']
      refine .cons ?_ ih.2
      rcases ih.1 with rfl | rfl
      · exact .inl rfl
      · exact .inr rfl

theorem trim_splitLines_withReturns (t : Text) :
    (splitLines (withReturns t)).map trim = (splitLines t).map trim := by
  rw [← List.forall₂_eq_eq_eq, List.forall₂_map_left_iff, List.forall₂_map_right_iff]
  refine (forall₂_splitLines_withReturns t).imp fun line other h => ?_
  rcases h with rfl | rfl
  · rfl
  · exact trim_concat_of_blank (by decide) other

variable {indent : Nat → Text}

theorem splitLines_indentLines (h : ∀ i, '\n' ∉ indent i) (t : Text) :
    splitLines (indentLines indent t) = (splitLines t).mapIdx fun i line => indent i ++ line := by
  rw [splitLines_eq_splitOn, indentLines]
  apply List.splitOn_intercalate
  · intro piece hpiece
    obtain ⟨i, hi, rfl⟩ := List.mem_mapIdx.1 hpiece
    simp [h i, lineFeed_notMem_of_mem_splitLines (List.getElem_mem hi)]
  · intro hnil
    exact splitLines_ne_nil t (List.mapIdx_eq_nil_iff.1 hnil)

theorem trim_splitLines_indentLines (h : ∀ i, ∀ c ∈ indent i, isBlank c = true ∧ c ≠ '\n')
    (t : Text) : (splitLines (indentLines indent t)).map trim = (splitLines t).map trim := by
  rw [splitLines_indentLines (fun i hmem => (h i _ hmem).2 rfl)]
  refine List.ext_getElem? fun i => ?_
  rw [List.getElem?_map, List.getElem?_mapIdx, List.getElem?_map, Option.map_map]
  refine Option.map_congr fun line _ => ?_
  exact trim_blank_append (fun c hc => (h i c hc).1) line

/-- A text holds nothing but blanks if its lines do. -/
theorem trim_eq_nil_of_lines {t : Text} (h : ∀ line ∈ splitLines t, trim line = []) :
    trim t = [] := by
  simp only [trim_eq_nil_iff] at h ⊢
  induction t with
  | nil => nofun
  | cons c t ih =>
    by_cases hc : c = '\n'
    · subst hc
      rw [splitLines_lineFeed] at h
      exact List.forall_mem_cons.2 ⟨by decide, ih (List.forall_mem_cons.1 h).2⟩
    · obtain ⟨first, others, hlines⟩ := exists_splitLines_eq_cons t
      rw [splitLines_cons_of_ne hc hlines, List.forall_mem_cons, List.forall_mem_cons] at h
      rw [hlines, List.forall_mem_cons] at ih
      exact List.forall_mem_cons.2 ⟨h.1.1, ih ⟨h.1.2, h.2⟩⟩

theorem trim_eq_nil_iff_lines {t : Text} :
    trim t = [] ↔ ∀ line ∈ splitLines t, trim line = [] :=
  ⟨fun ht _ h => trim_of_mem_splitLines ht h, trim_eq_nil_of_lines⟩

end Lines

end Brushwork

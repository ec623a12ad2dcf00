import Brushwork.Text.Blank

/-!
# Replacing a line of a text

The lines of a text are its pieces between line feeds. None of them holds a line
feed, so a line can be replaced by any other, and the text that is put together
again has the same lines but for that one.
-/

namespace Brushwork

theorem splitLines_eq_splitOn (t : Text) : splitLines t = t.splitOn '\n' := by
  induction t with
  | nil => exact (List.splitOn_nil '\n').symm
  | cons c t ih =>
    rw [List.splitOn_cons_eq_if_modifyHead, splitLines, ih]
    by_cases hc : c = '\n'
    · rw [if_pos hc, if_pos (beq_iff_eq.2 hc)]
    · rw [if_neg hc, if_neg (by simpa using hc)]
      cases hpieces : t.splitOn '\n' with
      | nil => exact absurd hpieces (List.splitOn_ne_nil _ _)
      | cons piece pieces => rfl

theorem lineFeed_notMem_of_mem_splitLines {t piece : Text} (h : piece ∈ splitLines t) :
    '\n' ∉ piece := by
  induction t generalizing piece with
  | nil =>
    rw [List.mem_singleton.1 h]
    exact List.not_mem_nil
  | cons c t ih =>
    rw [splitLines] at h
    split at h
    · rcases List.mem_cons.1 h with rfl | h
      · exact List.not_mem_nil
      · exact ih h
    · rename_i hc
      split at h
      · rename_i hpieces
        exact absurd hpieces (splitLines_ne_nil t)
      · rename_i first others hpieces
        rcases List.mem_cons.1 h with rfl | h
        · have hfirst : '\n' ∉ first := ih (hpieces ▸ List.mem_cons_self)
          simp [hfirst, Ne.symm hc]
        · exact ih (hpieces ▸ List.mem_cons_of_mem first h)

/-- Lines that are each ended by a line feed are the lines of their text, and nothing follows the
last one. -/
theorem splitLines_ended {lines : List Text} (h : ∀ line ∈ lines, '\n' ∉ line) :
    splitLines (lines.flatMap (· ++ ['\n'])) = lines ++ [[]] := by
  induction lines with
  | nil => rfl
  | cons line lines ih =>
    rw [List.forall_mem_cons] at h
    rw [splitLines_eq_splitOn, List.flatMap_cons, List.append_assoc, List.singleton_append,
      List.splitOn_append_cons_self_of_not_mem h.1, ← splitLines_eq_splitOn, ih h.2]
    rfl

/-- The text with another line in the place of the one at a position, counted from zero. -/
def replaceLine (t : Text) (position : Nat) (line : Text) : Text :=
  ['\n'].intercalate ((splitLines t).set position line)

theorem splitLines_replaceLine (t : Text) (position : Nat) {line : Text} (h : '\n' ∉ line) :
    splitLines (replaceLine t position line) = (splitLines t).set position line := by
  rw [splitLines_eq_splitOn, replaceLine]
  apply List.splitOn_intercalate
  · intro piece hpiece
    rcases List.mem_or_eq_of_mem_set hpiece with hpiece | rfl
    · exact lineFeed_notMem_of_mem_splitLines hpiece
    · exact h
  · intro hnil
    exact splitLines_ne_nil t (by simpa using hnil)

end Brushwork

import Mathlib.Data.List.DropRight
import Mathlib.Data.List.TakeWhile
import Brushwork.Text.Blank

/-!
# Blank texts and their lines

Trimming takes away the blanks at an end and stops at any other character. A text is
trimmed to nothing exactly when it holds blanks only, and a line of a text holds no
characters but those of the text.
-/

namespace Brushwork

theorem trimStart_cons_of_blank {c : Char} (h : isBlank c = true) (t : Text) :
    trimStart (c :: t) = trimStart t := by
  simp [trimStart, h]

theorem trimStart_cons {c : Char} (h : isBlank c = false) (t : Text) :
    trimStart (c :: t) = c :: t := by
  simp [trimStart, h]

theorem trimStart_append_cons {blanks : Text} (h : ∀ d ∈ blanks, isBlank d = true) {c : Char}
    (hc : isBlank c = false) (t : Text) : trimStart (blanks ++ c :: t) = c :: t := by
  rw [trimStart, List.dropWhile_append_of_pos h, ← trimStart, trimStart_cons hc]

theorem trimStart_eq_cons_iff {c : Char} (hc : isBlank c = false) {t rest : Text} :
    trimStart t = c :: rest ↔
      ∃ blanks, (∀ d ∈ blanks, isBlank d = true) ∧ t = blanks ++ c :: rest := by
  constructor
  · intro h
    refine ⟨t.takeWhile isBlank, fun d => List.mem_takeWhile_imp, ?_⟩
    rw [← h, trimStart, List.takeWhile_append_dropWhile]
  · rintro ⟨blanks, hblanks, rfl⟩
    exact trimStart_append_cons hblanks hc rest

theorem trimEnd_concat_of_blank {c : Char} (h : isBlank c = true) (t : Text) :
    trimEnd (t ++ [c]) = trimEnd t := by
  simp [trimEnd, h]

theorem trimEnd_concat {c : Char} (h : isBlank c = false) (t : Text) :
    trimEnd (t ++ [c]) = t ++ [c] := by
  simp [trimEnd, h]

theorem trimEnd_trimEnd (t : Text) : trimEnd (trimEnd t) = trimEnd t := by
  rw [trimEnd, trimEnd, List.reverse_reverse, List.dropWhile_idempotent]

theorem trimEnd_eq_concat_iff {c : Char} (hc : isBlank c = false) {t front : Text} :
    trimEnd t = front ++ [c] ↔
      ∃ blanks, (∀ d ∈ blanks, isBlank d = true) ∧ t = front ++ c :: blanks := by
  have hreverse : trimEnd t = front ++ [c] ↔ trimStart t.reverse = c :: front.reverse := by
    rw [trimEnd, trimStart, List.reverse_eq_iff, List.reverse_concat]
  rw [hreverse, trimStart_eq_cons_iff hc]
  constructor
  · rintro ⟨blanks, hblanks, ht⟩
    refine ⟨blanks.reverse, fun d hd => hblanks d (List.mem_reverse.1 hd), ?_⟩
    simpa using congrArg List.reverse ht
  · rintro ⟨blanks, hblanks, rfl⟩
    exact ⟨blanks.reverse, fun d hd => hblanks d (List.mem_reverse.1 hd), by simp⟩

theorem trim_concat_of_blank {c : Char} (h : isBlank c = true) (t : Text) :
    trim (t ++ [c]) = trim t := by
  have hstart :
      trimStart (t ++ [c]) = if (trimStart t).isEmpty then [] else trimStart t ++ [c] := by
    simp [trimStart, List.dropWhile_append, h]
  rw [trim, hstart, trim]
  split
  · rename_i hempty
    rw [List.isEmpty_iff.1 hempty]
  · exact trimEnd_concat_of_blank h _

theorem trim_eq_self {t : Text} (h : ∀ c ∈ t, isBlank c = false) : trim t = t := by
  have hstart : trimStart t = t := by
    cases t with
    | nil => rfl
    | cons c t => exact trimStart_cons (h c List.mem_cons_self) t
  rw [trim, hstart]
  rcases List.eq_nil_or_concat t with rfl | ⟨front, last, rfl⟩
  · rfl
  · rw [List.concat_eq_append] at h ⊢
    exact trimEnd_concat (h last (by simp)) front

theorem trim_eq_nil_iff {t : Text} : trim t = [] ↔ ∀ c ∈ t, isBlank c = true := by
  have hrest : trim t = [] ↔ ∀ c ∈ t.dropWhile isBlank, isBlank c = true := by
    simp [trim, trimEnd, trimStart, List.dropWhile_eq_nil_iff]
  rw [hrest]
  constructor
  · intro h c hc
    rw [← List.takeWhile_append_dropWhile (p := isBlank) (l := t)] at hc
    rcases List.mem_append.1 hc with hc | hc
    · exact List.all_eq_true.1 List.all_takeWhile c hc
    · exact h c hc
  · intro h c hc
    exact h c ((List.dropWhile_sublist isBlank).subset hc)

theorem trim_append_of_blank {blanks : Text} (h : ∀ c ∈ blanks, isBlank c = true) (t : Text) :
    trim (t ++ blanks) = trim t := by
  induction blanks generalizing t with
  | nil => rw [List.append_nil]
  | cons c blanks ih =>
    have hrest : ∀ d ∈ blanks, isBlank d = true := fun d hd => h d (List.mem_cons_of_mem c hd)
    rw [List.append_cons, ih hrest, trim_concat_of_blank (h c List.mem_cons_self)]

theorem exists_trimEnd_append (t : Text) :
    ∃ blanks, (∀ c ∈ blanks, isBlank c = true) ∧ trimEnd t ++ blanks = t := by
  refine ⟨(t.reverse.takeWhile isBlank).reverse, ?_, ?_⟩
  · intro c hc
    exact List.all_eq_true.1 List.all_takeWhile c (List.mem_reverse.1 hc)
  · rw [trimEnd, ← List.reverse_append, List.takeWhile_append_dropWhile, List.reverse_reverse]

theorem trim_trim (t : Text) : trim (trim t) = trim t := by
  have hend : trimEnd (trim t) = trim t := trimEnd_trimEnd (trimStart t)
  have hstart : trimStart (trim t) = trim t := by
    obtain ⟨blanks, -, heq⟩ := exists_trimEnd_append (trimStart t)
    cases hform : trim t with
    | nil => rfl
    | cons c rest =>
      have hhead := List.head?_dropWhile_not isBlank t
      rw [← trimStart, ← heq, ← trim, hform] at hhead
      exact trimStart_cons hhead rest
  rw [trim, hstart, hend]

theorem isBlank_of_trim_eq {c : Char} {t : Text} (h : trim (c :: t) = c :: t) :
    isBlank c = false := by
  refine Bool.eq_false_iff.2 fun hc => ?_
  have hlength : (trim (c :: t)).length ≤ t.length := by
    rw [trim, trimStart_cons_of_blank hc, trimEnd, List.length_reverse]
    refine (List.dropWhile_suffix isBlank).length_le.trans ?_
    rw [List.length_reverse]
    exact (List.dropWhile_suffix isBlank).length_le
  rw [h, List.length_cons] at hlength
  omega

theorem trim_eq_nil_iff_trimStart {t : Text} : trim t = [] ↔ trimStart t = [] := by
  rw [trim_eq_nil_iff, trimStart, List.dropWhile_eq_nil_iff]

theorem mem_of_mem_splitLines {t piece : Text} (h : piece ∈ splitLines t) {c : Char}
    (hc : c ∈ piece) : c ∈ t := by
  induction t generalizing piece with
  | nil =>
    rw [List.mem_singleton.1 h] at hc
    exact hc
  | cons d t ih =>
    simp only [splitLines] at h
    split at h
    · rcases List.mem_cons.1 h with rfl | h
      · cases hc
      · exact List.mem_cons_of_mem d (ih h hc)
    · split at h
      · rw [List.mem_singleton.1 h] at hc
        exact List.mem_singleton.1 hc ▸ List.mem_cons_self
      · rename_i first others heq
        rcases List.mem_cons.1 h with rfl | h
        · rcases List.mem_cons.1 hc with rfl | hc
          · exact List.mem_cons_self
          · exact List.mem_cons_of_mem d (ih (heq ▸ List.mem_cons_self) hc)
        · exact List.mem_cons_of_mem d (ih (heq ▸ List.mem_cons_of_mem first h) hc)

theorem trim_of_mem_splitLines {t piece : Text} (ht : trim t = []) (h : piece ∈ splitLines t) :
    trim piece = [] := by
  rw [trim_eq_nil_iff] at ht ⊢
  intro c hc
  exact ht c (mem_of_mem_splitLines h hc)

end Brushwork

import Brushwork.Proofs.Separation
import Brushwork.Proofs.Text.Trimming
import Brushwork.Text.Arguments
import Brushwork.Text.Name

/-!
# Argument lists and their commas

The pieces of an argument list are the parts between the commas that stand outside
quotation marks and outside all parentheses. Quotation marks are told apart by their
number alone, an even number of them opens and closes; and where parentheses are
balanced, the nesting at the end is that at the start.
-/

namespace Brushwork

namespace Nesting

/-- Cutting at the commas outside quotation marks and outside all parentheses. -/
def commas : Separation Nesting Char where
  after := after
  top := {}
  mark := ','
  after_mark := rfl

theorem atTop_iff {s : Nesting} : s.atTop = true ↔ s = {} := by
  obtain ⟨depth, inQuotes⟩ := s
  cases inQuotes <;> simp [atTop]

/-- The characters that neither open nor close nor separate anything. -/
def isPlain (c : Char) : Bool := c != '"' && c != '(' && c != ')' && c != ','

theorem isPlain_iff {c : Char} : isPlain c = true ↔ c ≠ '"' ∧ c ≠ '(' ∧ c ≠ ')' ∧ c ≠ ',' := by
  simp [isPlain, and_assoc]

theorem after_of_isPlain (s : Nesting) {c : Char} (h : isPlain c = true) : s.after c = s := by
  obtain ⟨hquote, hopening, hclosing, -⟩ := isPlain_iff.1 h
  simp [after, hquote, hopening, hclosing]

theorem isPlain_of_isNameChar {c : Char} (h : isNameChar c = true) : isPlain c = true := by
  refine isPlain_iff.2 ⟨?_, ?_, ?_, ?_⟩ <;> rintro rfl <;> cases h

theorem isPlain_of_isBlank {c : Char} (h : isBlank c = true) : isPlain c = true := by
  refine isPlain_iff.2 ⟨?_, ?_, ?_, ?_⟩ <;> rintro rfl <;> cases h

theorem after_inQuotes (depth : Int) {c : Char} (hc : c ≠ '"') :
    after ⟨depth, true⟩ c = ⟨depth, true⟩ := by
  simp [after, hc]

theorem foldl_inQuotes (depth : Int) {t : Text} (ht : '"' ∉ t) :
    t.foldl after ⟨depth, true⟩ = ⟨depth, true⟩ := by
  induction t with
  | nil => rfl
  | cons c t ih =>
    obtain ⟨hc, ht⟩ := not_or.1 (mt List.mem_cons.2 ht)
    rw [List.foldl_cons, after_inQuotes depth (Ne.symm hc), ih ht]

theorem balancedFrom_cons {s : Nesting} {c : Char} {depth : Nat} {inQuotes : Bool}
    (h : s.after c = ⟨depth, inQuotes⟩) (t : Text) :
    balancedFrom s (c :: t) = balancedFrom ⟨depth, inQuotes⟩ t := by
  rw [balancedFrom, h]
  exact if_neg (Int.not_lt.2 (Int.natCast_nonneg depth))

theorem balancedFrom_inQuotes (depth : Nat) {inside : Text} (h : '"' ∉ inside) (t : Text) :
    balancedFrom ⟨depth, true⟩ (inside ++ '"' :: t) = balancedFrom ⟨depth, false⟩ t := by
  induction inside with
  | nil => exact balancedFrom_cons rfl t
  | cons c inside ih =>
    obtain ⟨hc, hinside⟩ := not_or.1 (mt List.mem_cons.2 h)
    rw [List.cons_append, balancedFrom_cons (after_inQuotes depth (Ne.symm hc)), ih hinside]

theorem balancedFrom_append (depth : Nat) {t : Text} (h : ∀ c ∈ t, isPlain c = true)
    (rest : Text) :
    balancedFrom ⟨depth, false⟩ (t ++ rest) = balancedFrom ⟨depth, false⟩ rest := by
  induction t with
  | nil => rfl
  | cons c t ih =>
    obtain ⟨hc, ht⟩ := List.forall_mem_cons.1 h
    rw [List.cons_append, balancedFrom_cons (after_of_isPlain _ hc), ih ht]

theorem inQuotes_after (s : Nesting) (c : Char) :
    (s.after c).inQuotes = (s.inQuotes ^^ c == '"') := by
  by_cases hquote : c = '"'
  · simp [after, hquote]
  · rw [beq_false_of_ne hquote, Bool.xor_false, after, if_neg hquote]
    split
    · rfl
    · split
      · rfl
      · split <;> rfl

/-- A quotation is open after an odd number of quotation marks. -/
theorem inQuotes_foldl (s : Nesting) (t : Text) :
    (t.foldl after s).inQuotes = (s.inQuotes ^^ t.count '"' % 2 == 1) := by
  induction t generalizing s with
  | nil => simp
  | cons c t ih =>
    rw [List.foldl_cons, ih, inQuotes_after, List.count_cons]
    by_cases hquote : c = '"'
    · rcases Nat.mod_two_eq_zero_or_one (t.count '"') with hparity | hparity
      · have hnext : (t.count '"' + 1) % 2 = 1 := by omega
        simp [hquote, hparity, hnext]
      · have hnext : (t.count '"' + 1) % 2 = 0 := by omega
        simp [hquote, hparity, hnext]
    · simp [beq_false_of_ne hquote]

end Nesting

theorem depth_of_balancedFrom {s : Nesting} {t : Text} (h : balancedFrom s t = true) :
    (t.foldl Nesting.after s).depth = 0 := by
  induction t generalizing s with
  | nil => simpa [balancedFrom] using h
  | cons c t ih =>
    simp only [balancedFrom] at h
    split at h
    · cases h
    · exact ih h

/-- Balanced parentheses and an even number of quotation marks leave nothing open. -/
theorem foldl_of_parenthesesBalanced {t : Text} (hbalanced : parenthesesBalanced t = true)
    (hquotes : t.count '"' % 2 = 0) : t.foldl Nesting.after {} = {} := by
  have hdepth := depth_of_balancedFrom hbalanced
  have hinQuotes := Nesting.inQuotes_foldl {} t
  rw [hquotes] at hinQuotes
  exact Nesting.atTop_iff.1 (by simp [Nesting.atTop, hdepth, hinQuotes])

theorem piecesFrom_eq_partsFrom (s : Nesting) (t : Text) :
    (piecesFrom s t).1 :: (piecesFrom s t).2 = Nesting.commas.partsFrom s t := by
  induction t generalizing s with
  | nil => rfl
  | cons c t ih =>
    have hcut : (c = ',' && s.atTop) = true ↔ s = Nesting.commas.top ∧ c = Nesting.commas.mark := by
      rw [Bool.and_eq_true, decide_eq_true_eq, Nesting.atTop_iff, and_comm]
      rfl
    have hrest : _ = Nesting.commas.partsFrom (Nesting.commas.after s c) t := ih (s.after c)
    rw [piecesFrom, Separation.partsFrom, ← hrest]
    by_cases h : s = Nesting.commas.top ∧ c = Nesting.commas.mark
    · simp only [hcut.2 h, if_pos h, if_true]
    · simp only [Bool.eq_false_iff.2 (mt hcut.1 h), if_neg h]
      rfl

theorem splitArguments_of_trim_eq_nil {t : Text} (h : trim t = []) : splitArguments t = [] := by
  simp [splitArguments, h]

theorem splitArguments_eq {t : Text} (h : trim t ≠ []) :
    splitArguments t = (Nesting.commas.parts t).map trim := by
  rw [splitArguments, if_neg (by simpa using h), Separation.parts, ← piecesFrom_eq_partsFrom]
  rfl

end Brushwork

import Brushwork.Proofs.Token.Names
import Brushwork.Text.Numeral

/-!
# Numerals and their numbers

A numeral is made of digits, after a minus sign for a negative number, and it is the
literal of its number.
-/

namespace Brushwork

theorem decimal_natCast (k : Nat) : decimal k = Nat.toDigits 10 k := by
  simp [decimal]

theorem decimal_neg {k : Nat} (hk : 0 < k) : decimal (-k) = '-' :: decimal k := by
  rw [decimal_natCast, decimal, if_pos (by omega)]
  simp

theorem digits_ne_nil (k : Nat) : decimal k ≠ [] := by
  rw [decimal_natCast]
  exact Nat.toDigits_ne_nil

theorem isDigit_of_mem_digits {k : Nat} {c : Char} (h : c ∈ decimal k) : c.isDigit = true := by
  rw [decimal_natCast] at h
  exact Nat.isDigit_of_mem_toDigits (by decide) (by decide) h

theorem digitsValue_digits (k : Nat) : digitsValue (decimal k) = k := by
  rw [decimal_natCast]
  exact Nat.ofDigitChars_ten_toDigits

theorem natCast_or_neg (n : Int) : (∃ k : Nat, n = k) ∨ ∃ k : Nat, 0 < k ∧ n = -k := by
  by_cases hn : n < 0
  · exact .inr ⟨n.natAbs, by omega, by omega⟩
  · exact .inl ⟨n.toNat, by omega⟩

theorem isDigit_of_mem_decimal {n : Int} {c : Char} (h : c ∈ decimal n) :
    c = '-' ∨ c.isDigit = true := by
  rcases natCast_or_neg n with ⟨k, rfl⟩ | ⟨k, hk, rfl⟩
  · exact .inr (isDigit_of_mem_digits h)
  · rw [decimal_neg hk] at h
    exact (List.mem_cons.1 h).imp_right isDigit_of_mem_digits

theorem decimal_ne_nil (n : Int) : decimal n ≠ [] := by
  rcases natCast_or_neg n with ⟨k, rfl⟩ | ⟨k, hk, rfl⟩
  · exact digits_ne_nil k
  · rw [decimal_neg hk]
    exact List.cons_ne_nil _ _

/-- A numeral is the literal of its number. -/
theorem literalValue?_decimal {n : Int} (h : fitsWord n = true) :
    literalValue? (decimal n) = some n := by
  have hdigits : ∀ k : Nat, (decimal k).all Char.isDigit = true := fun k =>
    List.all_eq_true.2 fun c hc => isDigit_of_mem_digits hc
  rcases natCast_or_neg n with ⟨k, rfl⟩ | ⟨k, hk, rfl⟩
  · have hsign : ∀ rest, decimal k ≠ '-' :: rest := by
      intro rest heq
      have hminus : '-' ∈ decimal k := by rw [heq]; exact List.mem_cons_self
      cases isDigit_of_mem_digits hminus
    unfold literalValue?
    split
    rename_i negative digits hparts
    split at hparts
    · rename_i rest heq
      exact absurd heq (hsign rest)
    · cases hparts
      simp [digits_ne_nil, hdigits, digitsValue_digits, h]
  · rw [decimal_neg hk]
    simp [literalValue?, digits_ne_nil, hdigits, digitsValue_digits, h]

theorem isNameChar_of_mem_decimal {n : Int} {c : Char} (h : c ∈ decimal n) :
    isNameChar c = true := by
  rcases isDigit_of_mem_decimal h with rfl | hdigit
  · rfl
  · exact isNameChar_of_isDigit hdigit

end Brushwork

import Mathlib.Data.List.TakeWhile
import Brushwork.Proofs.Refusal
import Brushwork.Token.Lexer

/-!
# Names among the tokens

A run of name characters without hyphens is one name, whatever variables there are.
A run that is itself a variable is one name with all its hyphens, unless a hyphen
ends it: such a run is cut before one of its hyphens, so it never is one name.
-/

namespace Brushwork

theorem isNameChar_of_isAlpha {c : Char} (h : c.isAlpha = true) : isNameChar c = true := by
  simp [isNameChar, Char.isAlphanum, h]

theorem isNameChar_of_isDigit {c : Char} (h : c.isDigit = true) : isNameChar c = true := by
  simp [isNameChar, Char.isAlphanum, h]

theorem isIdentifier_of_isFreeName {name : Text} (h : isFreeName name = true) :
    isIdentifier name = true :=
  ((isFreeName_iff name).1 h).1

theorem isNameChar_of_isIdentifier {name : Text} (h : isIdentifier name = true) :
    ∀ c ∈ name, isNameChar c = true := by
  cases name with
  | nil => cases h
  | cons c t =>
    obtain ⟨hc, ht⟩ := Bool.and_eq_true_iff.1 h
    exact List.forall_mem_cons.2 ⟨isNameChar_of_isAlpha hc, List.all_eq_true.1 ht⟩

theorem isAlpha_iff {c : Char} :
    c.isAlpha = true ↔ 65 ≤ c.toNat ∧ c.toNat ≤ 90 ∨ 97 ≤ c.toNat ∧ c.toNat ≤ 122 := by
  delta Char.isAlpha Char.isUpper Char.isLower
  simp [UInt32.le_iff_toNat_le, ← Char.toNat_val]

theorem isDigit_iff {c : Char} : c.isDigit = true ↔ 48 ≤ c.toNat ∧ c.toNat ≤ 57 := by
  simp [Char.isDigit, UInt32.le_iff_toNat_le, ← Char.toNat_val]

theorem isDigit_of_isAlpha {c : Char} (h : c.isAlpha = true) : c.isDigit = false := by
  rw [isAlpha_iff] at h
  rw [← Bool.not_eq_true, isDigit_iff]
  omega

theorem isBlank_of_isNameChar {c : Char} (h : isNameChar c = true) : isBlank c = false := by
  have hcode : c.toNat = 45 ∨ 48 ≤ c.toNat ∧ c.toNat ≤ 122 := by
    simp only [isNameChar, Char.isAlphanum, Bool.or_eq_true, isAlpha_iff, isDigit_iff,
      beq_iff_eq] at h
    rcases h with (((h | h) | h) | rfl) | rfl
    · omega
    · omega
    · omega
    · decide
    · decide
  simp only [isBlank, Bool.or_eq_false_iff, Bool.and_eq_false_iff, decide_eq_false_iff_not,
    beq_eq_false_iff_ne]
  omega

theorem isNameChar_of_isBlank {c : Char} (h : isBlank c = true) : isNameChar c = false := by
  cases hname : isNameChar c with
  | false => rfl
  | true =>
    rw [isBlank_of_isNameChar hname] at h
    cases h

namespace Token

theorem canEnd_cons {c : Char} (hname : isNameChar c = true) (afterHyphen : Bool) (t : Text) :
    canEnd afterHyphen (c :: t) = (c == '-') := by
  simp [canEnd, hname]

/-- A run without hyphens can end only where it ends. -/
theorem longest?_of_plain {t : Text} (h : ∀ c ∈ t, isNameChar c = true ∧ c ≠ '-')
    (isVariable : Text → Bool) :
    longest? isVariable false t = if isVariable t then some t else none := by
  induction t generalizing isVariable with
  | nil => simp [longest?, canEnd]
  | cons c t ih =>
    obtain ⟨⟨hname, hhyphen⟩, ht⟩ := List.forall_mem_cons.1 h
    have hbeq : (c == '-') = false := beq_false_of_ne hhyphen
    rw [longest?, canEnd_cons hname, hbeq, if_pos hname, ih ht]
    cases isVariable (c :: t) <;> rfl

theorem shortest_of_plain {t : Text} (h : ∀ c ∈ t, isNameChar c = true ∧ c ≠ '-') :
    shortest t = t := by
  rw [shortest, List.takeWhile_eq_self_iff]
  intro c hc
  simp [h c hc]

theorem continuation_of_plain {t : Text} (h : ∀ c ∈ t, isNameChar c = true ∧ c ≠ '-')
    (isVariable : Text → Bool) (c : Char) : continuation isVariable c t = t := by
  rw [continuation, longest?_of_plain h, shortest_of_plain h]
  split <;> rfl

/-- A variable is found with all its hyphens if none of them ends it. -/
theorem longest?_of_isVariable {t : Text} (h : ∀ c ∈ t, isNameChar c = true)
    (isVariable : Text → Bool) (hvariable : isVariable t = true) {previous : Char}
    (hend : (previous :: t).getLast? ≠ some '-') :
    longest? isVariable (previous == '-') t = some t := by
  induction t generalizing isVariable previous with
  | nil =>
    have hprevious : (previous == '-') = false := by simpa using hend
    simp [longest?, canEnd, hvariable, hprevious]
  | cons c t ih =>
    obtain ⟨hname, ht⟩ := List.forall_mem_cons.1 h
    have hrest : longest? (fun rest => isVariable (c :: rest)) (c == '-') t = some t := by
      apply ih ht _ hvariable
      rwa [List.getLast?_cons_cons] at hend
    rw [longest?, if_pos hname, hrest]

theorem continuation_of_isVariable {c : Char} {t : Text} (hc : c.isAlpha = true)
    (h : ∀ d ∈ t, isNameChar d = true) {isVariable : Text → Bool}
    (hvariable : isVariable (c :: t) = true) (hend : (c :: t).getLast? ≠ some '-') :
    continuation isVariable c t = t := by
  have hhyphen : (c == '-') = false := by
    apply beq_false_of_ne
    rintro rfl
    cases hc
  have hfound := longest?_of_isVariable h (fun rest => isVariable (c :: rest)) hvariable hend
  rw [hhyphen] at hfound
  rw [continuation, hfound, Option.getD_some]

theorem scanBy_nil (continueName : Char → Text → Text) : scanBy continueName [] = .ok [] := by
  rw [scanBy.eq_def]

/-- A letter begins a name. -/
theorem scan_letter (isVariable : Text → Bool) {c : Char} (hc : c.isAlpha = true) (t : Text) :
    scan isVariable (c :: t) = do
      let tokens ← scan isVariable (t.drop (continuation isVariable c t).length)
      return ofWord (c :: continuation isVariable c t) :: tokens := by
  have hblank := isBlank_of_isNameChar (isNameChar_of_isAlpha hc)
  rw [scan, scanBy.eq_def]
  dsimp only
  rw [if_neg (by simp [hblank]), if_neg (by simp [isDigit_of_isAlpha hc]), if_pos hc]
  rfl

/-- A text that a name fills to its end is one token. -/
theorem scan_of_continuation {isVariable : Text → Bool} {c : Char} {t : Text}
    (hc : c.isAlpha = true) (h : continuation isVariable c t = t) :
    scan isVariable (c :: t) = .ok [ofWord (c :: t)] := by
  rw [scan_letter isVariable hc, h, List.drop_length, scan, scanBy_nil]
  rfl

theorem scan_of_plain {c : Char} {t : Text} (hc : c.isAlpha = true)
    (h : ∀ d ∈ t, isNameChar d = true ∧ d ≠ '-') (isVariable : Text → Bool) :
    scan isVariable (c :: t) = .ok [ofWord (c :: t)] :=
  scan_of_continuation hc (continuation_of_plain h isVariable c)

theorem scan_of_isVariable {name : Text} (hname : isIdentifier name = true)
    {isVariable : Text → Bool} (hvariable : isVariable name = true)
    (hend : name.getLast? ≠ some '-') : scan isVariable name = .ok [ofWord name] := by
  cases name with
  | nil => cases hname
  | cons c t =>
    obtain ⟨hc, ht⟩ := Bool.and_eq_true_iff.1 hname
    exact scan_of_continuation hc
      (continuation_of_isVariable hc (List.all_eq_true.1 ht) hvariable hend)

/-- Where a name is found to end, it can end. -/
theorem canEnd_of_longest? {isVariable : Text → Bool} {previous : Char} {t found : Text}
    (h : longest? isVariable (previous == '-') t = some found) :
    ∃ rest, t = found ++ rest ∧ canEnd ((previous :: found).getLast? == some '-') rest = true := by
  induction t generalizing isVariable previous found with
  | nil =>
    simp only [longest?, Option.ite_none_right_eq_some, Bool.and_eq_true, Option.some.injEq] at h
    obtain ⟨⟨hend, -⟩, rfl⟩ := h
    exact ⟨[], rfl, by simpa using hend⟩
  | cons c t ih =>
    rw [longest?] at h
    split at h
    · rename_i longer hlonger
      cases h
      obtain ⟨-, hlonger⟩ := Option.ite_none_right_eq_some.1 hlonger
      obtain ⟨rest, rfl, hend⟩ := ih hlonger
      exact ⟨rest, rfl, by rwa [List.getLast?_cons_cons]⟩
    · simp only [Option.ite_none_right_eq_some, Bool.and_eq_true, Option.some.injEq] at h
      obtain ⟨⟨hend, -⟩, rfl⟩ := h
      exact ⟨c :: t, rfl, by simpa using hend⟩

theorem exists_shortest_append {t : Text} (h : ∀ c ∈ t, isNameChar c = true) (hhyphen : '-' ∈ t) :
    ∃ rest, t = shortest t ++ '-' :: rest := by
  induction t with
  | nil => cases hhyphen
  | cons c t ih =>
    obtain ⟨hname, ht⟩ := List.forall_mem_cons.1 h
    by_cases hc : c = '-'
    · exact ⟨t, by simp [shortest, hc]⟩
    · obtain ⟨rest, hrest⟩ := ih ht ((List.mem_cons.1 hhyphen).resolve_left (Ne.symm hc))
      have hshortest : shortest (c :: t) = c :: shortest t := by
        simp [shortest, hname, hc]
      exact ⟨rest, by rw [hshortest, List.cons_append, ← hrest]⟩

/-- A run of name characters that a hyphen ends. -/
structure HyphenRun (t : Text) : Prop where
  names : ∀ c ∈ t, isNameChar c = true
  last : t.getLast? = some '-'

theorem HyphenRun.of_append (before : Text) {t : Text} (h : HyphenRun (before ++ t))
    (ht : t ≠ []) : HyphenRun t where
  names c hc := h.names c (List.mem_append_right before hc)
  last := by
    have hlast := h.last
    rwa [List.getLast?_append, List.getLast?_eq_some_getLast ht, Option.some_or,
      ← List.getLast?_eq_some_getLast ht] at hlast

/-- Such a run is cut before one of its hyphens. -/
theorem HyphenRun.exists_continuation_append {c : Char} {t : Text} (h : HyphenRun (c :: t))
    (hc : c.isAlpha = true) (isVariable : Text → Bool) :
    ∃ rest, t = continuation isVariable c t ++ '-' :: rest := by
  obtain ⟨-, ht⟩ := List.forall_mem_cons.1 h.names
  have hne : c ≠ '-' := by
    rintro rfl
    cases hc
  cases hfound : longest? (fun rest => isVariable (c :: rest)) false t with
  | some found =>
    rw [continuation, hfound, Option.getD_some]
    rw [← beq_false_of_ne hne] at hfound
    obtain ⟨rest, rfl, hcan⟩ := canEnd_of_longest? hfound
    cases rest with
    | nil =>
      have hlast := h.last
      rw [List.append_nil] at hlast
      rw [hlast] at hcan
      cases hcan
    | cons d rest =>
      rw [canEnd_cons (ht d (by simp))] at hcan
      exact ⟨rest, by rw [eq_of_beq hcan]⟩
  | none =>
    rw [continuation, hfound, Option.getD_none]
    apply exists_shortest_append ht
    exact (List.mem_cons.1 (List.mem_of_getLast? h.last)).resolve_left (Ne.symm hne)

/-- Tokens of which a minus is the last and none is a connective. -/
structure MinusRun (tokens : List Token) : Prop where
  plain : ∀ token ∈ tokens, token.isLogical = false
  last : tokens.getLast? = some (.arith .sub)

theorem MinusRun.cons {tokens : List Token} (h : MinusRun tokens) {token : Token}
    (htoken : token.isLogical = false) : MinusRun (token :: tokens) where
  plain := List.forall_mem_cons.2 ⟨htoken, h.plain⟩
  last := by rw [List.getLast?_cons, h.last]; rfl

theorem isLogical_ofWord (word : Text) : (ofWord word).isLogical = false := by
  unfold ofWord
  split
  · rfl
  · split <;> rfl

/-- The tokens of a run that a hyphen ends have a minus at their end. -/
theorem HyphenRun.minusRun {isVariable : Text → Bool} {t : Text} (h : HyphenRun t)
    {tokens : List Token} (hscan : scan isVariable t = .ok tokens) : MinusRun tokens := by
  unfold scan at hscan
  fun_induction scanBy (continuation isVariable) t generalizing tokens with
  | case1 => cases h.last
  | case2 c t hblank ih =>
    rw [isBlank_of_isNameChar (h.names c List.mem_cons_self)] at hblank
    cases hblank
  | case3 c t hblank hdigit value hfits ih =>
    obtain ⟨rest, hrest, heq⟩ := bind_eq_ok_iff.1 hscan
    cases heq
    have hdrop : t.dropWhile Char.isDigit ≠ [] := by
      intro hnil
      have hall : ∀ d ∈ c :: t, d.isDigit = true :=
        List.forall_mem_cons.2 ⟨hdigit, List.dropWhile_eq_nil_iff.1 hnil⟩
      cases hall '-' (List.mem_of_getLast? h.last)
    have hrun : HyphenRun (t.dropWhile Char.isDigit) := by
      apply HyphenRun.of_append (c :: t.takeWhile Char.isDigit) _ hdrop
      rwa [List.cons_append, List.takeWhile_append_dropWhile]
    exact (ih hrun hrest).cons rfl
  | case4 => cases hscan
  | case5 c t hblank hdigit halpha name ih =>
    obtain ⟨rest, hrest, heq⟩ := bind_eq_ok_iff.1 hscan
    cases heq
    obtain ⟨tail, ht⟩ := h.exists_continuation_append halpha isVariable
    have hdrop : t.drop name.length = '-' :: tail := by
      rw [ht]
      exact List.drop_left
    have hrun : HyphenRun (t.drop name.length) := by
      rw [hdrop]
      apply HyphenRun.of_append (c :: name) _ (List.cons_ne_nil _ _)
      rwa [List.cons_append, ← ht]
    exact (ih hrun hrest).cons (isLogical_ofWord _)
  | case6 => cases hscan
  | case7 t head after hafter =>
    cases h.names '"' List.mem_cons_self
  | case8 => cases hscan
  | case9 c t hblank hdigit halpha hquote token after hsymbol ih =>
    obtain ⟨rest, hrest, heq⟩ := bind_eq_ok_iff.1 hscan
    cases heq
    have hc : c = '_' ∨ c = '-' := by
      simpa [isNameChar, Char.isAlphanum, hdigit, halpha] using h.names c List.mem_cons_self
    rcases hc with rfl | rfl
    · cases hsymbol
    · cases hsymbol
      cases t with
      | nil =>
        rw [scanBy_nil] at hrest
        cases hrest
        exact ⟨by simp [isLogical], rfl⟩
      | cons d t =>
        have hrun := HyphenRun.of_append ['-'] h (List.cons_ne_nil d t)
        exact (ih hrun hrest).cons rfl

end Token

end Brushwork

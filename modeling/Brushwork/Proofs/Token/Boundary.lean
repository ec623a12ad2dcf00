import Brushwork.Proofs.Text.Trimming
import Brushwork.Proofs.Token.Names

/-!
# Texts that are read part by part

A text begins with a blank, a numeral, a name, a quotation or a sign, and reading goes on
after it; there is one equation for each. A token does not go on beyond a character that
belongs to no name and is no second half of a sign. So a text that begins with such a
character is read on its own, whatever stands before it, unless a quotation that is still
open takes it up (`scan_append`).
-/

namespace Brushwork

theorem isDigit_of_not_isNameChar {c : Char} (h : isNameChar c = false) : c.isDigit = false := by
  refine Bool.eq_false_iff.2 fun hdigit => ?_
  rw [isNameChar_of_isDigit hdigit] at h
  cases h

namespace Token

/-- The longest variable is one, and it is made of name characters. -/
theorem longest?_eq_some {isVariable : Text → Bool} {afterHyphen : Bool} {t found : Text}
    (h : longest? isVariable afterHyphen t = some found) :
    isVariable found = true ∧ ∀ c ∈ found, isNameChar c = true := by
  induction t generalizing isVariable afterHyphen found with
  | nil =>
    simp only [longest?, Option.ite_none_right_eq_some, Bool.and_eq_true, Option.some.injEq] at h
    obtain ⟨⟨-, hvariable⟩, rfl⟩ := h
    exact ⟨hvariable, by simp⟩
  | cons c t ih =>
    rw [longest?] at h
    split at h
    · rename_i longer hlonger
      cases h
      obtain ⟨hname, hlonger⟩ := Option.ite_none_right_eq_some.1 hlonger
      obtain ⟨hvariable, hnames⟩ := ih hlonger
      exact ⟨hvariable, List.forall_mem_cons.2 ⟨hname, hnames⟩⟩
    · simp only [Option.ite_none_right_eq_some, Bool.and_eq_true, Option.some.injEq] at h
      obtain ⟨⟨-, hvariable⟩, rfl⟩ := h
      exact ⟨hvariable, by simp⟩

/-- A name is continued by name characters, and it is a variable or has no hyphen. -/
theorem continuation_spec (isVariable : Text → Bool) {c : Char} (hc : c.isAlpha = true)
    (t : Text) :
    isIdentifier (c :: continuation isVariable c t) = true ∧
      ('-' ∉ c :: continuation isVariable c t ∨
        isVariable (c :: continuation isVariable c t) = true) := by
  have hne : '-' ≠ c := by
    rintro rfl
    cases hc
  cases hfound : longest? (fun rest => isVariable (c :: rest)) false t with
  | some found =>
    obtain ⟨hvariable, hnames⟩ := longest?_eq_some hfound
    rw [continuation, hfound, Option.getD_some]
    exact ⟨by simpa [isIdentifier, hc] using hnames, .inr hvariable⟩
  | none =>
    have hshortest : ∀ d ∈ shortest t, isNameChar d = true ∧ d ≠ '-' := by
      intro d hd
      simpa using List.mem_takeWhile_imp hd
    rw [continuation, hfound, Option.getD_none]
    refine ⟨?_, .inl ?_⟩
    · simpa [isIdentifier, hc] using fun d hd => (hshortest d hd).1
    · intro hhyphen
      rcases List.mem_cons.1 hhyphen with heq | hmem
      · exact hne heq
      · exact (hshortest '-' hmem).2 rfl

theorem continuation_isPrefix (isVariable : Text → Bool) {c : Char} (hc : c.isAlpha = true)
    (t : Text) : continuation isVariable c t <+: t := by
  have hne : (c == '-') = false := by
    apply beq_false_of_ne
    rintro rfl
    cases hc
  cases hfound : longest? (fun rest => isVariable (c :: rest)) false t with
  | some found =>
    rw [continuation, hfound, Option.getD_some]
    rw [← hne] at hfound
    obtain ⟨after, ht, -⟩ := canEnd_of_longest? hfound
    exact ⟨after, ht.symm⟩
  | none =>
    rw [continuation, hfound, Option.getD_none]
    exact List.takeWhile_prefix _

theorem exists_quotation_append {t after : Text} {head : Char}
    (h : t.dropWhile (· ≠ '"') = head :: after) :
    ∃ inside, t.takeWhile (· ≠ '"') = inside ∧ t = inside ++ '"' :: after ∧ '"' ∉ inside := by
  have hhead := List.head?_dropWhile_not (· ≠ '"') t
  rw [h] at hhead
  obtain rfl : head = '"' := by simpa using hhead
  refine ⟨_, rfl, ?_, fun hmem => by simpa using List.mem_takeWhile_imp hmem⟩
  rw [← h, List.takeWhile_append_dropWhile]

section Equations

variable (isVariable : Text → Bool)

theorem scan_nil : scan isVariable [] = .ok [] := scanBy_nil _

theorem scan_blank {c : Char} (hc : isBlank c = true) (t : Text) :
    scan isVariable (c :: t) = scan isVariable t := by
  rw [scan, scanBy.eq_def]
  dsimp only
  rw [if_pos hc]
  rfl

theorem scan_digits {c : Char} {t : Text} (hc : c.isDigit = true)
    (hfits : fitsWord (digitsValue (c :: t.takeWhile Char.isDigit) : Nat) = true) :
    scan isVariable (c :: t) = do
      let tokens ← scan isVariable (t.dropWhile Char.isDigit)
      return .number (digitsValue (c :: t.takeWhile Char.isDigit) : Nat) :: tokens := by
  have hblank := isBlank_of_isNameChar (isNameChar_of_isDigit hc)
  rw [scan, scanBy.eq_def]
  dsimp only
  rw [if_neg (by simp [hblank]), if_pos hc, if_pos hfits]
  rfl

theorem scan_numeral {c : Char} {t : Text} (hc : c.isDigit = true)
    (hfits : ¬ fitsWord (digitsValue (c :: t.takeWhile Char.isDigit) : Nat) = true) :
    scan isVariable (c :: t) = .error .numeral := by
  have hblank := isBlank_of_isNameChar (isNameChar_of_isDigit hc)
  rw [scan, scanBy.eq_def]
  dsimp only
  rw [if_neg (by simp [hblank]), if_pos hc, if_neg hfits]

theorem scan_quotation {t : Text} (ht : '"' ∉ t) (rest : Text) :
    scan isVariable ('"' :: t ++ '"' :: rest) = do
      let tokens ← scan isVariable rest
      return .quotation t :: tokens := by
  have hinside : ∀ c ∈ t, decide (c ≠ '"') = true := by
    intro c hc
    rw [decide_eq_true_eq]
    rintro rfl
    exact ht hc
  have htake : (t ++ '"' :: rest).takeWhile (· ≠ '"') = t := by
    rw [List.takeWhile_append_of_pos hinside, List.takeWhile_cons_of_neg (by simp), List.append_nil]
  have hdrop : (t ++ '"' :: rest).dropWhile (· ≠ '"') = '"' :: rest := by
    rw [List.dropWhile_append_of_pos hinside, List.dropWhile_cons_of_neg (by simp)]
  rw [List.cons_append, scan, scanBy.eq_def]
  dsimp only
  rw [if_neg (by decide), if_neg (by decide), if_neg (by decide), if_pos rfl, htake]
  split
  · rename_i hnone
    cases hdrop.symm.trans hnone
  · rename_i hsome
    cases hdrop.symm.trans hsome
    rfl

theorem scan_unclosed {t : Text} (ht : '"' ∉ t) :
    scan isVariable ('"' :: t) = .error .unclosed := by
  have hdrop : t.dropWhile (· ≠ '"') = [] := by
    rw [List.dropWhile_eq_nil_iff]
    intro c hc
    rw [decide_eq_true_eq]
    rintro rfl
    exact ht hc
  rw [scan, scanBy.eq_def]
  dsimp only
  rw [if_neg (by decide), if_neg (by decide), if_neg (by decide), if_pos rfl]
  split
  · rfl
  · rename_i hsome
    cases hdrop.symm.trans hsome

/-- What begins with no other token begins with a sign, or with a stray character. -/
theorem scan_other {c : Char} {t : Text}
    (hplain : isBlank c = false ∧ c.isDigit = false ∧ c.isAlpha = false ∧ c ≠ '"') :
    scan isVariable (c :: t) =
      match symbol? c t with
      | none => .error (.stray c)
      | some (token, after) => do
        let tokens ← scan isVariable after
        return token :: tokens := by
  obtain ⟨hblank, hdigit, halpha, hquote⟩ := hplain
  rw [scan, scanBy.eq_def]
  dsimp only
  rw [if_neg (by simp [hblank]), if_neg (by simp [hdigit]), if_neg (by simp [halpha]),
    if_neg hquote]
  split
  · rename_i hnone
    rw [hnone]
  · rename_i hsome
    rw [hsome]
    rfl

theorem scan_symbol {c : Char} {t after : Text} {token : Token}
    (hplain : isBlank c = false ∧ c.isDigit = false ∧ c.isAlpha = false ∧ c ≠ '"')
    (hsymbol : symbol? c t = some (token, after)) :
    scan isVariable (c :: t) = do
      let tokens ← scan isVariable after
      return token :: tokens := by
  rw [scan_other isVariable hplain, hsymbol]

theorem scan_stray {c : Char} {t : Text}
    (hplain : isBlank c = false ∧ c.isDigit = false ∧ c.isAlpha = false ∧ c ≠ '"')
    (hsymbol : symbol? c t = none) : scan isVariable (c :: t) = .error (.stray c) := by
  rw [scan_other isVariable hplain, hsymbol]

end Equations

/-- A text that is empty or begins with a character with which no token goes on: it belongs to no
name and is no second half of a sign. -/
def Boundary (rest : Text) : Prop :=
  ∀ c ∈ rest.head?, isNameChar c = false ∧ c ∉ "*&|=".toList

theorem boundary_cons {c : Char} (hname : isNameChar c = false) (hsign : c ∉ "*&|=".toList)
    (t : Text) : Boundary (c :: t) := by
  intro d hd
  cases hd
  exact ⟨hname, hsign⟩

theorem boundary_of_isBlank {rest : Text} (h : ∀ c ∈ rest.head?, isBlank c = true) :
    Boundary rest := by
  intro c hc
  refine ⟨isNameChar_of_isBlank (h c hc), fun hsign => ?_⟩
  have hplain : ∀ d ∈ "*&|=".toList, isBlank d = false := by simp [isBlank]
  cases (hplain c hsign).symm.trans (h c hc)

namespace Boundary

variable {rest : Text}

theorem takeWhile_append (h : Boundary rest) {p : Char → Bool}
    (hp : ∀ c, isNameChar c = false → p c = false) (t : Text) :
    (t ++ rest).takeWhile p = t.takeWhile p := by
  induction t with
  | nil =>
    cases rest with
    | nil => rfl
    | cons c rest =>
      rw [List.nil_append, List.takeWhile_cons, hp c (h c rfl).1]
      rfl
  | cons c t ih => rw [List.cons_append, List.takeWhile_cons, List.takeWhile_cons, ih]

theorem dropWhile_append (h : Boundary rest) {p : Char → Bool}
    (hp : ∀ c, isNameChar c = false → p c = false) (t : Text) :
    (t ++ rest).dropWhile p = t.dropWhile p ++ rest := by
  induction t with
  | nil =>
    cases rest with
    | nil => rfl
    | cons c rest =>
      rw [List.nil_append, List.dropWhile_cons, hp c (h c rfl).1]
      rfl
  | cons c t ih =>
    rw [List.cons_append, List.dropWhile_cons, List.dropWhile_cons, ih]
    split <;> rfl

theorem longest?_append (h : Boundary rest) (isVariable : Text → Bool) (afterHyphen : Bool)
    (t : Text) :
    longest? isVariable afterHyphen (t ++ rest) = longest? isVariable afterHyphen t := by
  induction t generalizing isVariable afterHyphen with
  | nil =>
    cases rest with
    | nil => rfl
    | cons c rest =>
      have hname := (h c rfl).1
      have hhyphen : (c == '-') = false := by
        apply beq_false_of_ne
        rintro rfl
        cases hname
      simp [longest?, canEnd, hname, hhyphen]
  | cons c t ih =>
    rw [List.cons_append, longest?, longest?, ih]
    rfl

theorem shortest_append (h : Boundary rest) (t : Text) : shortest (t ++ rest) = shortest t := by
  apply h.takeWhile_append
  intro c hc
  rw [hc, Bool.false_and]

theorem continuation_append (h : Boundary rest) (isVariable : Text → Bool) (c : Char)
    (t : Text) : continuation isVariable c (t ++ rest) = continuation isVariable c t := by
  rw [continuation, continuation, h.longest?_append, h.shortest_append]

theorem exists_cons (h : Boundary rest) {c : Char} (hc : c ∈ "*&|=".toList) {t u : Text}
    (heq : t ++ rest = c :: u) : ∃ v, t = c :: v := by
  cases t with
  | nil =>
    rw [List.nil_append] at heq
    subst heq
    exact absurd hc (h c rfl).2
  | cons d t =>
    cases heq
    exact ⟨t, rfl⟩

/-- A sign ends before a boundary. -/
theorem symbol?_append (h : Boundary rest) (c : Char) (t : Text) :
    symbol? c (t ++ rest) = (symbol? c t).map fun found => (found.1, found.2 ++ rest) := by
  have hstart : ∀ {d : Char} {P : Prop} {t : Text}, (∀ v, P → t = d :: v → False) →
      d ∈ "*&|=".toList → ∀ u, P → t ++ rest = d :: u → False := by
    intro d P t ht hd u hP heq
    obtain ⟨v, hv⟩ := h.exists_cons hd heq
    exact ht v hP hv
  -- what a text does not begin with, it does not begin with before a boundary either; the
  -- equations of `symbol?` ask for that
  fun_cases symbol? c t with
  | case8 t ht | case9 t ht | case12 t ht =>
    have hnot := fun u => hstart (fun v (_ : True) => ht v) (by decide) u trivial
    simp only [symbol?, Option.map_some]
  | case18 c t hpow hboth heither heq hne hle hge =>
    have hpow := hstart hpow (by decide)
    have hboth := hstart hboth (by decide)
    have heither := hstart heither (by decide)
    have heq := hstart heq (by decide)
    have hne := hstart hne (by decide)
    have hle := hstart hle (by decide)
    have hge := hstart hge (by decide)
    simp only [symbol?, Option.map_none]
  | _ => rfl

end Boundary

theorem count_quote_of_symbol? {c : Char} {t after : Text} {token : Token}
    (h : symbol? c t = some (token, after)) : t.count '"' = after.count '"' := by
  unfold symbol? at h
  split at h <;> simp only [Option.some.injEq, Prod.mk.injEq, reduceCtorEq] at h <;>
    obtain ⟨-, rfl⟩ := h <;> simp

theorem count_quote_append {u : Text} (hu : ∀ c ∈ u, isNameChar c = true) (after : Text) :
    (u ++ after).count '"' = after.count '"' := by
  have hquote : '"' ∉ u := fun hmem => by cases hu _ hmem
  rw [List.count_append, List.count_eq_zero.2 hquote, Nat.zero_add]

theorem count_quote_dropWhile {c : Char} (hc : c.isDigit = true) (t : Text) :
    (c :: t).count '"' = (t.dropWhile Char.isDigit).count '"' := by
  have hdigits : ∀ d ∈ c :: t.takeWhile Char.isDigit, isNameChar d = true :=
    List.forall_mem_cons.2 ⟨isNameChar_of_isDigit hc,
      fun d hd => isNameChar_of_isDigit (List.mem_takeWhile_imp hd)⟩
  have hcount := count_quote_append hdigits (t.dropWhile Char.isDigit)
  rwa [List.cons_append, List.takeWhile_append_dropWhile] at hcount

section Parts

variable (isVariable : Text → Bool)

theorem count_quote_drop {c : Char} (hc : c.isAlpha = true) (t : Text) :
    (c :: t).count '"' = (t.drop (continuation isVariable c t).length).count '"' := by
  have hwhole := List.prefix_iff_eq_append.1 (continuation_isPrefix isVariable hc t)
  have hnames := isNameChar_of_isIdentifier (continuation_spec isVariable hc t).1
  have hcount := count_quote_append hnames (t.drop (continuation isVariable c t).length)
  rwa [List.cons_append, hwhole] at hcount

namespace Boundary

variable {rest : Text}

theorem scan_digits_append (h : Boundary rest) {c : Char} {t : Text} (hc : c.isDigit = true)
    (hfits : fitsWord (digitsValue (c :: t.takeWhile Char.isDigit) : Nat) = true) :
    scan isVariable (c :: t ++ rest) = do
      let tokens ← scan isVariable (t.dropWhile Char.isDigit ++ rest)
      return .number (digitsValue (c :: t.takeWhile Char.isDigit) : Nat) :: tokens := by
  have htake := h.takeWhile_append (fun _ => isDigit_of_not_isNameChar) t
  rw [List.cons_append, scan_digits isVariable hc (by rwa [htake]), htake,
    h.dropWhile_append (fun _ => isDigit_of_not_isNameChar)]

theorem scan_numeral_append (h : Boundary rest) {c : Char} {t : Text} (hc : c.isDigit = true)
    (hfits : ¬ fitsWord (digitsValue (c :: t.takeWhile Char.isDigit) : Nat) = true) :
    scan isVariable (c :: t ++ rest) = .error .numeral := by
  have htake := h.takeWhile_append (fun _ => isDigit_of_not_isNameChar) t
  rw [List.cons_append, scan_numeral isVariable hc (by rwa [htake])]

/-- A name ends before a boundary. -/
theorem scan_letter_append (h : Boundary rest) {c : Char} (hc : c.isAlpha = true) (t : Text) :
    scan isVariable (c :: t ++ rest) = do
      let tokens ← scan isVariable (t.drop (continuation isVariable c t).length ++ rest)
      return ofWord (c :: continuation isVariable c t) :: tokens := by
  have hlength := (continuation_isPrefix isVariable hc t).length_le
  rw [List.cons_append, scan_letter isVariable hc, h.continuation_append,
    List.drop_append_of_le_length hlength]

theorem scan_symbol_append (h : Boundary rest) {c : Char} {t after : Text} {token : Token}
    (hplain : isBlank c = false ∧ c.isDigit = false ∧ c.isAlpha = false ∧ c ≠ '"')
    (hsymbol : symbol? c t = some (token, after)) :
    scan isVariable (c :: t ++ rest) = do
      let tokens ← scan isVariable (after ++ rest)
      return token :: tokens := by
  rw [List.cons_append]
  apply scan_symbol isVariable hplain
  rw [h.symbol?_append, hsymbol]
  rfl

theorem scan_stray_append (h : Boundary rest) {c : Char} {t : Text}
    (hplain : isBlank c = false ∧ c.isDigit = false ∧ c.isAlpha = false ∧ c ≠ '"')
    (hsymbol : symbol? c t = none) :
    scan isVariable (c :: t ++ rest) = .error (.stray c) := by
  rw [List.cons_append]
  apply scan_stray isVariable hplain
  rw [h.symbol?_append, hsymbol]
  rfl

end Boundary

/-- A word that is not cut is one token before a boundary. -/
theorem scan_word {c : Char} {t : Text} (hc : c.isAlpha = true)
    (ht : continuation isVariable c t = t) {rest : Text} (hrest : Boundary rest) :
    scan isVariable (c :: t ++ rest) = do
      let tokens ← scan isVariable rest
      return ofWord (c :: t) :: tokens := by
  rw [hrest.scan_letter_append isVariable hc, ht, List.drop_length, List.nil_append]

theorem scan_quotation_append {inside : Text} (h : '"' ∉ inside) (after rest : Text) :
    scan isVariable ('"' :: (inside ++ '"' :: after) ++ rest) = do
      let tokens ← scan isVariable (after ++ rest)
      return .quotation inside :: tokens := by
  have hwhole : '"' :: (inside ++ '"' :: after) ++ rest =
      '"' :: inside ++ '"' :: (after ++ rest) := by
    simp
  rw [hwhole, scan_quotation isVariable h]

/-- What begins at a boundary is read on its own. What stands before it has closed its quotations,
or there is no quotation mark to close them. -/
theorem scan_append {rest : Text} (h : Boundary rest) {t : Text}
    (hclosed : '"' ∉ rest ∨ t.count '"' % 2 = 0) :
    scan isVariable (t ++ rest) = do
      let tokens ← scan isVariable t
      let others ← scan isVariable rest
      return tokens ++ others := by
  induction t using scanBy.induct (continuation isVariable) with
  | case1 => simp [scan_nil]
  | case2 c t hblank ih =>
    have hquote : c ≠ '"' := by
      rintro rfl
      cases hblank
    rw [List.count_cons_of_ne hquote] at hclosed
    rw [List.cons_append, scan_blank isVariable hblank, scan_blank isVariable hblank, ih hclosed]
  | case3 c t hblank hdigit value hfits ih =>
    rw [count_quote_dropWhile hdigit] at hclosed
    rw [h.scan_digits_append isVariable hdigit hfits, ih hclosed,
      scan_digits isVariable hdigit hfits]
    simp
  | case4 c t hblank hdigit value hfits =>
    rw [h.scan_numeral_append isVariable hdigit hfits, scan_numeral isVariable hdigit hfits]
    rfl
  | case5 c t hblank hdigit halpha name ih =>
    rw [count_quote_drop isVariable halpha] at hclosed
    rw [h.scan_letter_append isVariable halpha, ih hclosed, scan_letter isVariable halpha]
    simp [name]
  | case6 t hnil hblank hdigit halpha =>
    have ht : '"' ∉ t := by
      intro hmem
      simpa using List.dropWhile_eq_nil_iff.1 hnil _ hmem
    rcases hclosed with hrest | hcount
    · rw [List.cons_append, scan_unclosed isVariable ht,
        scan_unclosed isVariable (by simp [ht, hrest])]
      rfl
    · rw [List.count_cons_self, List.count_eq_zero.2 ht] at hcount
      cases hcount
  | case7 t head after hafter hblank hdigit halpha ih =>
    obtain ⟨inside, -, rfl, hinside⟩ := exists_quotation_append hafter
    have hafterClosed : '"' ∉ rest ∨ after.count '"' % 2 = 0 := by
      refine hclosed.imp_right fun hcount => ?_
      rw [List.count_cons_self, List.count_append, List.count_eq_zero.2 hinside,
        List.count_cons_self] at hcount
      omega
    rw [scan_quotation_append isVariable hinside, ih hafterClosed, ← List.cons_append,
      scan_quotation isVariable hinside]
    simp
  | case8 c t hblank hdigit halpha hquote hsymbol =>
    have hplain : isBlank c = false ∧ c.isDigit = false ∧ c.isAlpha = false ∧ c ≠ '"' := by
      simp_all
    rw [h.scan_stray_append isVariable hplain hsymbol, scan_stray isVariable hplain hsymbol]
    rfl
  | case9 c t hblank hdigit halpha hquote token after hsymbol ih =>
    have hplain : isBlank c = false ∧ c.isDigit = false ∧ c.isAlpha = false ∧ c ≠ '"' := by
      simp_all
    rw [List.count_cons_of_ne hquote, count_quote_of_symbol? hsymbol] at hclosed
    rw [h.scan_symbol_append isVariable hplain hsymbol, ih hclosed,
      scan_symbol isVariable hplain hsymbol]
    simp

theorem scan_of_isBlank {t : Text} (h : ∀ c ∈ t, isBlank c = true) :
    scan isVariable t = .ok [] := by
  induction t with
  | nil => exact scan_nil isVariable
  | cons c t ih =>
    obtain ⟨hc, ht⟩ := List.forall_mem_cons.1 h
    rw [scan_blank isVariable hc, ih ht]

theorem scan_trimStart (t : Text) : scan isVariable (trimStart t) = scan isVariable t := by
  induction t with
  | nil => rfl
  | cons c t ih =>
    cases hc : isBlank c with
    | false => rw [trimStart_cons hc]
    | true => rw [trimStart_cons_of_blank hc, ih, scan_blank isVariable hc]

/-- The blanks around a text make no difference to its tokens. -/
theorem scan_trim (t : Text) : scan isVariable (trim t) = scan isVariable t := by
  obtain ⟨blanks, hblanks, heq⟩ := exists_trimEnd_append (trimStart t)
  have hboundary : Boundary blanks :=
    boundary_of_isBlank fun c hc => hblanks c (List.mem_of_mem_head? hc)
  have hquote : '"' ∉ blanks := fun hmem => by cases hblanks _ hmem
  rw [← scan_trimStart isVariable t, ← heq, scan_append isVariable hboundary (.inl hquote),
    scan_of_isBlank isVariable hblanks, trim]
  cases scan isVariable (trimEnd (trimStart t)) with
  | error fault => rfl
  | ok tokens => simp

/-- A text without tokens is blank. -/
theorem trim_eq_nil_of_scan {t : Text} (h : scan isVariable t = .ok []) : trim t = [] := by
  rw [← scan_trim] at h
  cases ht : trim t with
  | nil => rfl
  | cons c rest =>
    have hblank : isBlank c = false := isBlank_of_trim_eq (by rw [← ht, trim_trim])
    rw [ht, scan, scanBy.eq_def] at h
    dsimp only at h
    rw [if_neg (by simp [hblank])] at h
    split at h
    · split at h
      · obtain ⟨tokens, -, heq⟩ := bind_eq_ok_iff.1 h
        cases heq
      · cases h
    · split at h
      · obtain ⟨tokens, -, heq⟩ := bind_eq_ok_iff.1 h
        cases heq
      · split at h
        · split at h
          · cases h
          · obtain ⟨tokens, -, heq⟩ := bind_eq_ok_iff.1 h
            cases heq
        · split at h
          · cases h
          · obtain ⟨tokens, -, heq⟩ := bind_eq_ok_iff.1 h
            cases heq

end Parts

end Token

end Brushwork

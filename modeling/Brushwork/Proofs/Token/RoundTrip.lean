import Brushwork.Proofs.Text.Numerals
import Brushwork.Proofs.Token.Boundary

/-!
# Tokens are read back as they are written

Rendered tokens stand one after another with a blank between each two. What is read
of a text depends on what follows only up to the next blank, so the text of a token
is read as that token wherever a blank or nothing follows it, and rendered tokens
are read back one by one. That needs tokens of the kind that reading makes: numbers
without a sign, quotations without a quotation mark, and names that reading does not
cut at a hyphen.
-/

namespace Brushwork.Token

/-- A name that reading makes: no word of a truth value, and with hyphens only as a variable and
never at its end. -/
structure CanonicalName (isVariable : Text → Bool) (name : Text) : Prop where
  identifier : isIdentifier name = true
  ne_true : name ≠ "true".toList
  ne_false : name ≠ "false".toList
  getLast?_ne : name.getLast? ≠ some '-'
  hyphen : '-' ∉ name ∨ isVariable name = true

/-- A token that reading makes. -/
def Canonical (isVariable : Text → Bool) : Token → Prop
  | .number n => 0 ≤ n ∧ fitsWord n = true
  | .name t => CanonicalName isVariable t
  | .quotation t => '"' ∉ t
  | _ => True

def Separated (rest : Text) : Prop := ∀ c ∈ rest.head?, isBlank c = true

theorem separated_nil : Separated [] := by
  intro c hc
  cases hc

theorem separated_cons {c : Char} (hc : isBlank c = true) (t : Text) : Separated (c :: t) := by
  intro d hd
  cases hd
  exact hc

theorem Separated.boundary {rest : Text} (h : Separated rest) : Boundary rest :=
  boundary_of_isBlank h

section Reading

variable (isVariable : Text → Bool)

/-- Before a blank or the end, a number is read as it is written. -/
theorem scan_number {n : Int} (hn : 0 ≤ n) (hfits : fitsWord n = true) {rest : Text}
    (hrest : Separated rest) :
    scan isVariable (decimal n ++ rest) = do
      let tokens ← scan isVariable rest
      return .number n :: tokens := by
  obtain ⟨k, rfl⟩ := Int.eq_ofNat_of_zero_le hn
  have hdigits : ∀ c ∈ decimal k, c.isDigit = true := fun _ => isDigit_of_mem_digits
  have hvalue := digitsValue_digits k
  cases hform : decimal k with
  | nil => exact absurd hform (digits_ne_nil k)
  | cons c t =>
    rw [hform] at hdigits hvalue
    obtain ⟨hc, ht⟩ := List.forall_mem_cons.1 hdigits
    have htake : (t ++ rest).takeWhile Char.isDigit = t := by
      rw [hrest.boundary.takeWhile_append (fun _ => isDigit_of_not_isNameChar),
        List.takeWhile_eq_self_iff.2 ht]
    have hdrop : (t ++ rest).dropWhile Char.isDigit = rest := by
      rw [hrest.boundary.dropWhile_append (fun _ => isDigit_of_not_isNameChar),
        List.dropWhile_eq_nil_iff.2 ht, List.nil_append]
    rw [List.cons_append, scan_digits isVariable hc (by rwa [htake, hvalue]), htake, hdrop, hvalue]

/-- Before a blank or the end, a name that reading makes is read as it is written. -/
theorem scan_name {name : Text} (h : CanonicalName isVariable name) {rest : Text}
    (hrest : Separated rest) :
    scan isVariable (name ++ rest) = do
      let tokens ← scan isVariable rest
      return .name name :: tokens := by
  have hword : ofWord name = .name name := by rw [ofWord, if_neg h.ne_true, if_neg h.ne_false]
  have hnames := isNameChar_of_isIdentifier h.identifier
  cases name with
  | nil => cases h.identifier
  | cons c t =>
    obtain ⟨hc, -⟩ := Bool.and_eq_true_iff.1 h.identifier
    have ht := (List.forall_mem_cons.1 hnames).2
    have hcontinuation : continuation isVariable c t = t := by
      rcases h.hyphen with hplain | hvariable
      · apply continuation_of_plain
        intro d hd
        refine ⟨ht d hd, ?_⟩
        rintro rfl
        exact hplain (List.mem_cons_of_mem c hd)
      · exact continuation_of_isVariable hc ht hvariable h.getLast?_ne
    rw [scan_word isVariable hc hcontinuation hrest.boundary, hword]

/-- Before a blank or the end, a token that reading makes is read as it is written. -/
theorem scan_text_append {token : Token} (h : token.Canonical isVariable) {rest : Text}
    (hrest : Separated rest) :
    scan isVariable (token.text ++ rest) = do
      let tokens ← scan isVariable rest
      return token :: tokens := by
  cases token with
  | number n => exact scan_number isVariable h.1 h.2 hrest
  | name t => exact scan_name isVariable h hrest
  | quotation t =>
    change scan isVariable ('"' :: t ++ ['"'] ++ rest) = _
    rw [List.append_assoc]
    exact scan_quotation isVariable h rest
  | truth b =>
    cases b with
    | true =>
      have hplain := continuation_of_plain (t := "rue".toList) (by simp [isNameChar]) isVariable 't'
      exact scan_word isVariable (by decide) hplain hrest.boundary
    | false =>
      have hplain :=
        continuation_of_plain (t := "alse".toList) (by simp [isNameChar]) isVariable 'f'
      exact scan_word isVariable (by decide) hplain hrest.boundary
  | arith op =>
    cases op with
    | add | sub | div | rem | pow => exact scan_symbol isVariable (by decide) rfl
    | mul => exact scan_symbol isVariable (by decide) (hrest.boundary.symbol?_append '*' [])
  | compare op =>
    cases op with
    | eq | ne | le | ge => exact scan_symbol isVariable (by decide) rfl
    | lt => exact scan_symbol isVariable (by decide) (hrest.boundary.symbol?_append '<' [])
    | gt => exact scan_symbol isVariable (by decide) (hrest.boundary.symbol?_append '>' [])
  | both | either | opening | closing | comma => exact scan_symbol isVariable (by decide) rfl

theorem render_cons_cons (token next : Token) (tokens : List Token) :
    render (token :: next :: tokens) = token.text ++ ' ' :: render (next :: tokens) := by
  simp [render, List.intercalate]

/-- Rendered tokens are read back. -/
theorem scan_render {tokens : List Token} (h : ∀ token ∈ tokens, token.Canonical isVariable) :
    scan isVariable (render tokens) = .ok tokens := by
  induction tokens with
  | nil => exact scanBy_nil _
  | cons token tokens ih =>
    obtain ⟨htoken, htokens⟩ := List.forall_mem_cons.1 h
    cases tokens with
    | nil =>
      have hlast := scan_text_append isVariable htoken separated_nil
      rw [List.append_nil] at hlast
      have hrender : render [token] = token.text := by simp [render, List.intercalate]
      rw [hrender, hlast, scan, scanBy_nil]
      rfl
    | cons next tokens =>
      have hspace : isBlank ' ' = true := by decide
      rw [render_cons_cons, scan_text_append isVariable htoken (separated_cons hspace _),
        scan_blank isVariable hspace, ih htokens]
      rfl

end Reading

section Writing

variable {isVariable : Text → Bool}

theorem canonical_ofWord {word : Text} (hidentifier : isIdentifier word = true)
    (hlast : word.getLast? ≠ some '-') (hhyphen : '-' ∉ word ∨ isVariable word = true) :
    (ofWord word).Canonical isVariable := by
  rw [ofWord]
  split
  · trivial
  · rename_i htrue
    split
    · trivial
    · rename_i hfalse
      exact ⟨hidentifier, htrue, hfalse, hlast, hhyphen⟩

theorem canonical_of_symbol? {c : Char} {t after : Text} {token : Token}
    (h : symbol? c t = some (token, after)) : token.Canonical isVariable := by
  unfold symbol? at h
  split at h <;> cases h <;> trivial

/-- Reading makes canonical tokens if no variable ends with a hyphen. -/
theorem canonical_of_scan (hvariable : ∀ name, name.getLast? = some '-' → isVariable name = false)
    {source : Text} {tokens : List Token} (h : scan isVariable source = .ok tokens) :
    ∀ token ∈ tokens, token.Canonical isVariable := by
  rw [scan] at h
  fun_induction scanBy (continuation isVariable) source generalizing tokens with
  | case1 =>
    cases h
    simp
  | case2 c t hblank ih => exact ih h
  | case3 c t hblank hdigit value hfits =>
    rename_i ih
    obtain ⟨rest, hrest, heq⟩ := bind_eq_ok_iff.1 h
    cases heq
    exact List.forall_mem_cons.2 ⟨⟨Int.natCast_nonneg _, hfits⟩, ih hrest⟩
  | case4 => cases h
  | case5 c t hblank hdigit halpha name =>
    rename_i ih
    obtain ⟨rest, hrest, heq⟩ := bind_eq_ok_iff.1 h
    cases heq
    obtain ⟨hidentifier, hhyphen⟩ := continuation_spec isVariable halpha t
    refine List.forall_mem_cons.2 ⟨canonical_ofWord hidentifier ?_ hhyphen, ih hrest⟩
    intro hlast
    rcases hhyphen with hplain | hknown
    · exact hplain (List.mem_of_getLast? hlast)
    · cases (hvariable _ hlast).symm.trans hknown
  | case6 => cases h
  | case7 t head after hafter hblank hdigit halpha ih =>
    obtain ⟨rest, hrest, heq⟩ := bind_eq_ok_iff.1 h
    cases heq
    refine List.forall_mem_cons.2 ⟨?_, ih hrest⟩
    intro hquote
    simpa using List.mem_takeWhile_imp hquote
  | case8 => cases h
  | case9 c t hblank hdigit halpha hquote token after hsymbol ih =>
    obtain ⟨rest, hrest, heq⟩ := bind_eq_ok_iff.1 h
    cases heq
    exact List.forall_mem_cons.2 ⟨canonical_of_symbol? hsymbol, ih hrest⟩

end Writing

/-- Canonical tokens that are rendered are read back. If no variable ends with a hyphen, reading
makes canonical tokens, so what was read is read again from its rendering. -/
theorem scan_render_round_trip (isVariable : Text → Bool) :
    (∀ tokens : List Token, (∀ token ∈ tokens, token.Canonical isVariable) →
      scan isVariable (render tokens) = .ok tokens) ∧
    ((∀ name : Text, name.getLast? = some '-' → isVariable name = false) →
      ∀ source tokens, scan isVariable source = .ok tokens →
        (∀ token ∈ tokens, token.Canonical isVariable) ∧
        scan isVariable (render tokens) = scan isVariable source) := by
  refine ⟨fun tokens h => scan_render isVariable h, ?_⟩
  intro hvariable source tokens hscan
  have hcanonical := canonical_of_scan hvariable hscan
  exact ⟨hcanonical, (scan_render isVariable hcanonical).trans hscan.symm⟩

theorem scan_render_round_trip_hyphens :
    let isVariable : Text → Bool := fun name => name == "x-y".toList
    let source := "x-y-01<\"*\"".toList
    let tokens : List Token :=
      [.name "x-y".toList, .arith .sub, .number 1, .compare .lt, .quotation "*".toList]
    scan isVariable source = .ok tokens ∧ (∀ token ∈ tokens, token.Canonical isVariable) ∧
      scan isVariable (render tokens) = .ok tokens := by
  intro isVariable source tokens
  have hscan : scan isVariable source = .ok tokens := by decide +kernel
  have hvariable : ∀ name : Text, name.getLast? = some '-' → isVariable name = false := by
    intro name hlast
    apply beq_false_of_ne
    rintro rfl
    cases hlast
  obtain ⟨hrender, hread⟩ := scan_render_round_trip isVariable
  have hcanonical := (hread hvariable source tokens hscan).1
  exact ⟨hscan, hcanonical, hrender tokens hcanonical⟩

end Brushwork.Token

import Brushwork.Proofs.Expr.Acceptance
import Brushwork.Proofs.Text.Arguments
import Brushwork.Proofs.Token.Boundary

/-!
# Argument lists as tokens

The tokens of an argument list are cut at the commas outside all parentheses, as its
text is. Reading a text keeps its parentheses and commas in their order, except for those
inside quotations (`SameMarks`); so a text and its tokens nest alike, the commas that
cut the one cut the other, and the parts of a text are read as the parts of its tokens
(`mapM_scan_parts`).
-/

namespace Brushwork

namespace Nesting

/-- A quotation leaves everything as open as it was. -/
theorem foldl_quotation (depth : Int) {inside : Text} (h : '"' ∉ inside) :
    (Token.quotation inside).text.foldl after ⟨depth, false⟩ = ⟨depth, false⟩ := by
  have hopened : after ⟨depth, false⟩ '"' = ⟨depth, true⟩ := rfl
  rw [Token.text, List.cons_append, List.foldl_cons, hopened, List.foldl_append,
    foldl_inQuotes depth h]
  rfl

theorem balancedFrom_quotation (depth : Nat) {inside : Text} (h : '"' ∉ inside) (t : Text) :
    balancedFrom ⟨depth, false⟩ ((Token.quotation inside).text ++ t) =
      balancedFrom ⟨depth, false⟩ t := by
  have hopened : after ⟨depth, false⟩ '"' = ⟨depth, true⟩ := rfl
  rw [Token.text, List.cons_append, List.cons_append, List.append_assoc,
    balancedFrom_cons hopened]
  exact balancedFrom_inQuotes depth h t

end Nesting

namespace Token

def depthAfter (depth : Int) : Token → Int
  | .opening => depth + 1
  | .closing => depth - 1
  | _ => depth

/-- Cutting at the commas outside all parentheses. -/
def commas : Separation Int Token where
  after := depthAfter
  top := 0
  mark := .comma
  after_mark := rfl

/-- The tokens between separating commas; no tokens make no list. -/
def splitArguments (tokens : List Token) : List (List Token) :=
  if tokens.isEmpty then [] else commas.parts tokens

def isMark : Token → Bool
  | .opening | .closing | .comma => true
  | _ => false

theorem depthAfter_of_not_isMark (depth : Int) {token : Token} (h : token.isMark = false) :
    depthAfter depth token = depth := by
  cases token with
  | opening | closing | comma => cases h
  | _ => rfl

theorem isParenthesis_of_not_isMark {token : Token} (h : token.isMark = false) :
    token.isParenthesis = false := by
  cases token with
  | opening | closing | comma => cases h
  | _ => rfl

theorem isMark_ofWord (word : Text) : (ofWord word).isMark = false := by
  unfold ofWord
  split
  · rfl
  · split <;> rfl

/-- The parentheses and commas of a text outside its quotations are those of the tokens. -/
inductive SameMarks : Text → List Token → Prop where
  | nil : SameMarks [] []
  | plain {c t tokens} (hc : Nesting.isPlain c = true) (rest : SameMarks t tokens) :
      SameMarks (c :: t) tokens
  | token {token t tokens} (htoken : token.isMark = false) (rest : SameMarks t tokens) :
      SameMarks t (token :: tokens)
  | quotation {inside t tokens} (hinside : '"' ∉ inside) (rest : SameMarks t tokens) :
      SameMarks ((Token.quotation inside).text ++ t) (.quotation inside :: tokens)
  | opening {t tokens} (rest : SameMarks t tokens) : SameMarks ('(' :: t) (.opening :: tokens)
  | closing {t tokens} (rest : SameMarks t tokens) : SameMarks (')' :: t) (.closing :: tokens)
  | comma {t tokens} (rest : SameMarks t tokens) : SameMarks (',' :: t) (.comma :: tokens)

namespace SameMarks

variable {t : Text} {tokens : List Token}

theorem append_plain {u : Text} (hu : ∀ c ∈ u, Nesting.isPlain c = true)
    (h : SameMarks t tokens) : SameMarks (u ++ t) tokens := by
  induction u with
  | nil => exact h
  | cons c u ih =>
    obtain ⟨hc, hu⟩ := List.forall_mem_cons.1 hu
    exact .plain hc (ih hu)

theorem symbol {c : Char} {after : Text} {token : Token}
    (hsymbol : symbol? c t = some (token, after)) (h : SameMarks after tokens) :
    SameMarks (c :: t) (token :: tokens) := by
  unfold symbol? at hsymbol
  split at hsymbol <;> cases hsymbol
  case h_15 => exact .opening h
  case h_16 => exact .closing h
  case h_17 => exact .comma h
  case h_1 | h_2 | h_3 | h_4 | h_5 | h_6 | h_7 =>
    exact .token rfl (.plain (by decide) (.plain (by decide) h))
  all_goals exact .token rfl (.plain (by decide) h)

/-- A text and its tokens nest alike. -/
theorem foldl_eq (h : SameMarks t tokens) (depth : Int) :
    t.foldl Nesting.after ⟨depth, false⟩ = ⟨tokens.foldl depthAfter depth, false⟩ := by
  induction h generalizing depth with
  | nil => rfl
  | plain hc _ ih => rw [List.foldl_cons, Nesting.after_of_isPlain _ hc, ih]
  | token htoken _ ih => rw [List.foldl_cons, depthAfter_of_not_isMark depth htoken, ih]
  | quotation hinside _ ih =>
    rw [List.foldl_append, Nesting.foldl_quotation depth hinside]
    exact ih depth
  | opening _ ih => exact ih (depth + 1)
  | closing _ ih => exact ih (depth - 1)
  | comma _ ih => exact ih depth

/-- Where no comma cuts a text, none cuts its tokens. -/
theorem whole (h : SameMarks t tokens) {depth : Int}
    (hwhole : Nesting.commas.Whole ⟨depth, false⟩ t) : commas.Whole depth tokens := by
  induction h generalizing depth with
  | nil => trivial
  | plain hc _ ih =>
    have hrest : Nesting.commas.Whole (Nesting.after ⟨depth, false⟩ _) _ := hwhole.2
    rw [Nesting.after_of_isPlain _ hc] at hrest
    exact ih hrest
  | @token token t tokens htoken _ ih =>
    have hafter : commas.after depth token = depth := depthAfter_of_not_isMark depth htoken
    refine ⟨?_, by rw [hafter]; exact ih hwhole⟩
    rintro ⟨-, rfl⟩
    cases htoken
  | quotation hinside _ ih =>
    have hclosed : _ = (⟨depth, false⟩ : Nesting) := Nesting.foldl_quotation depth hinside
    have hrest := (Nesting.commas.whole_append.1 hwhole).2
    refine ⟨?_, ih (hclosed ▸ hrest)⟩
    rintro ⟨-, hcomma⟩
    cases hcomma
  | opening _ ih => exact ⟨fun hcut => (nomatch hcut.2), ih hwhole.2⟩
  | closing _ ih => exact ⟨fun hcut => (nomatch hcut.2), ih hwhole.2⟩
  | comma _ ih =>
    refine ⟨fun hcut => hwhole.1 ⟨?_, rfl⟩, ih hwhole.2⟩
    obtain ⟨rfl, -⟩ := hcut
    rfl

/-- The parentheses of a text match where those of its tokens do. -/
theorem balancedFrom_eq (h : SameMarks t tokens) (depth : Nat) :
    balancedFrom ⟨depth, false⟩ t = closesAll depth tokens := by
  induction h generalizing depth with
  | nil => simp [balancedFrom, closesAll]
  | plain hc _ ih =>
    rw [Nesting.balancedFrom_cons (Nesting.after_of_isPlain _ hc), ih]
  | token htoken _ ih =>
    rw [ih]
    exact (neutral_singleton _ (isParenthesis_of_not_isMark htoken) depth _).symm
  | quotation hinside _ ih =>
    rw [Nesting.balancedFrom_quotation depth hinside, ih]
    exact (neutral_singleton _ rfl depth _).symm
  | opening _ ih =>
    rw [closesAll, ← ih]
    exact Nesting.balancedFrom_cons rfl _
  | closing _ ih =>
    cases depth with
    | zero => rfl
    | succ depth =>
      have hafter : Nesting.after ⟨(depth + 1 : Nat), false⟩ ')' = ⟨depth, false⟩ := by
        simp [Nesting.after]
      rw [closesAll, ← ih, Nesting.balancedFrom_cons hafter]
  | comma _ ih =>
    have hafter : Nesting.after ⟨depth, false⟩ ',' = ⟨depth, false⟩ := rfl
    rw [Nesting.balancedFrom_cons hafter, ih]
    exact (neutral_singleton .comma rfl depth _).symm

end SameMarks

section Reading

variable {isVariable : Text → Bool}

/-- Reading keeps parentheses and commas. -/
theorem sameMarks_of_scan {t : Text} {tokens : List Token}
    (h : scan isVariable t = .ok tokens) : SameMarks t tokens := by
  rw [scan] at h
  fun_induction scanBy (continuation isVariable) t generalizing tokens with
  | case1 =>
    cases h
    exact .nil
  | case2 c t hblank ih => exact .plain (Nesting.isPlain_of_isBlank hblank) (ih h)
  | case3 c t hblank hdigit value hfits =>
    rename_i ih
    obtain ⟨rest, hrest, heq⟩ := bind_eq_ok_iff.1 h
    cases heq
    have hdigits : ∀ d ∈ t.takeWhile Char.isDigit, Nesting.isPlain d = true := fun d hd =>
      Nesting.isPlain_of_isNameChar (isNameChar_of_isDigit (List.mem_takeWhile_imp hd))
    have hplain := (ih hrest).append_plain hdigits
    rw [List.takeWhile_append_dropWhile] at hplain
    exact .token rfl (.plain (Nesting.isPlain_of_isNameChar (isNameChar_of_isDigit hdigit)) hplain)
  | case4 => cases h
  | case5 c t hblank hdigit halpha name =>
    rename_i ih
    obtain ⟨rest, hrest, heq⟩ := bind_eq_ok_iff.1 h
    cases heq
    have hwhole := List.prefix_iff_eq_append.1 (continuation_isPrefix isVariable halpha t)
    have hnames := isNameChar_of_isIdentifier (continuation_spec isVariable halpha t).1
    have hplain := (ih hrest).append_plain fun d hd => Nesting.isPlain_of_isNameChar (hnames d hd)
    rw [List.cons_append, hwhole] at hplain
    exact .token (isMark_ofWord _) hplain
  | case6 => cases h
  | case7 t head after hafter hblank hdigit halpha ih =>
    obtain ⟨rest, hrest, heq⟩ := bind_eq_ok_iff.1 h
    cases heq
    obtain ⟨inside, htake, ht, hinside⟩ := exists_quotation_append hafter
    have htext : '"' :: t = (Token.quotation inside).text ++ after := by simp [ht, Token.text]
    rw [htake, htext]
    exact .quotation hinside (ih hrest)
  | case8 => cases h
  | case9 c t hblank hdigit halpha hquote token after hsymbol ih =>
    obtain ⟨rest, hrest, heq⟩ := bind_eq_ok_iff.1 h
    cases heq
    exact (ih hrest).symbol hsymbol

theorem endsAtTop_of_scan {front : Text} (hfront : Nesting.commas.EndsAtTop front)
    {tokens : List Token} (h : scan isVariable front = .ok tokens) : commas.EndsAtTop tokens := by
  have hmarks := sameMarks_of_scan h
  have hfoldl := (hmarks.foldl_eq 0).symm.trans hfront.foldl_eq
  exact ⟨hmarks.whole hfront.whole, congrArg Nesting.depth hfoldl⟩

/-- What stands before a cut is read on its own, and so is what follows it. -/
theorem scan_append_comma {front : Text} (hfront : Nesting.commas.EndsAtTop front) (rest : Text) :
    scan isVariable (front ++ ',' :: rest) = do
      let tokens ← scan isVariable front
      let others ← scan isVariable rest
      return tokens ++ .comma :: others := by
  have hquotes : front.count '"' % 2 = 0 := by
    have hclosed := Nesting.inQuotes_foldl {} front
    rw [show front.foldl Nesting.after {} = {} from hfront.foldl_eq] at hclosed
    simpa using hclosed
  have hboundary : Boundary (',' :: rest) := boundary_cons (by decide) (by decide) rest
  rw [scan_append isVariable hboundary (.inr hquotes),
    scan_symbol isVariable (by decide) (rfl : symbol? ',' rest = some (.comma, rest))]
  simp

/-- The parts of a text are read as the parts of its tokens. -/
theorem mapM_scan_parts (t : Text) :
    (Nesting.commas.parts t).mapM (scan isVariable) = (scan isVariable t).map commas.parts := by
  induction t using Nesting.commas.induct with
  | whole t hwhole =>
    rw [Nesting.commas.parts_of_whole hwhole]
    cases hscan : scan isVariable t with
    | error fault => simp [hscan, Except.map]
    | ok tokens =>
      have htokens := commas.parts_of_whole ((sameMarks_of_scan hscan).whole hwhole)
      simp [hscan, Except.map, htokens]
  | cut front rest hfront ih =>
    change _ = (scan isVariable (front ++ ',' :: rest)).map _
    rw [Nesting.commas.parts_append hfront, List.mapM_cons, ih, scan_append_comma hfront]
    cases hscan : scan isVariable front with
    | error fault => rfl
    | ok tokens =>
      have htokens := endsAtTop_of_scan hfront hscan
      cases scan isVariable rest with
      | error fault => rfl
      | ok others => exact congrArg Except.ok (commas.parts_append htokens others).symm

/-- The arguments of a text are read as the arguments of its tokens. -/
theorem mapM_scan_splitArguments (t : Text) :
    (Brushwork.splitArguments t).mapM (scan isVariable) =
      (scan isVariable t).map splitArguments := by
  by_cases hblank : trim t = []
  · rw [splitArguments_of_trim_eq_nil hblank, ← scan_trim, hblank, scan_nil]
    rfl
  · rw [splitArguments_eq hblank, List.mapM_map]
    simp only [Function.comp_def, scan_trim]
    rw [mapM_scan_parts]
    cases hscan : scan isVariable t with
    | error fault => rfl
    | ok tokens =>
      have htokens : tokens ≠ [] := by
        rintro rfl
        exact hblank (trim_eq_nil_of_scan isVariable hscan)
      simp [Except.map, splitArguments, htokens]

end Reading

end Token

end Brushwork

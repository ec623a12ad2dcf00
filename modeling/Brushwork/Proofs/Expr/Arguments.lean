import Brushwork.Proofs.Token.Arguments

/-!
# Argument lists as items

The reader looks at what stands before an operator or a comma outside all parentheses only to
leave it as it is: what follows is read as it would be on its own, on top of what has been read
before (`Atop`). So the items between commas are the items of the tokens between commas, whether
or not the parentheses match; and tokens whose parentheses do match are read alike inside the
parentheses of a query.
-/

namespace Brushwork

namespace Token

/-- Every token outside all parentheses satisfies a condition, from a depth on. -/
def Outside (p : Token → Prop) : (depth : Int) → List Token → Prop
  | _, [] => True
  | depth, token :: tokens => (depth = 0 → p token) ∧ Outside p (depthAfter depth token) tokens

instance decidableOutside (p : Token → Prop) [DecidablePred p] :
    (depth : Int) → (tokens : List Token) → Decidable (Outside p depth tokens)
  | _, [] => inferInstanceAs (Decidable True)
  | depth, token :: tokens =>
    have := decidableOutside p (depthAfter depth token) tokens
    inferInstanceAs (Decidable (_ ∧ _))

theorem outside_of_whole {depth : Int} {tokens : List Token} (h : commas.Whole depth tokens) :
    Outside (· ≠ .comma) depth tokens := by
  induction tokens generalizing depth with
  | nil => trivial
  | cons token tokens ih => exact ⟨not_and.1 h.1, ih h.2⟩

end Token

theorem Item.ofTokens_of_foldl_step {tokens : List Token} {items : List Item}
    (h : tokens.foldl Progress.step (.inside [] []) = .inside [] items) :
    ofTokens tokens = items.reverse := by
  rw [ofTokens, h]
  rfl

namespace Progress

def depth : Progress → Int
  | .inside outer _ => outer.length
  | .astray _ surplus _ => -(surplus + 1)

theorem depth_step (progress : Progress) (token : Token) :
    (progress.step token).depth = Token.depthAfter progress.depth token := by
  cases progress with
  | inside outer items =>
    cases token with
    | opening => simp [step, depth, Token.depthAfter]
    | closing =>
      cases outer with
      | nil => rfl
      | cons before outer => simp [step, depth, Token.depthAfter]
    | _ =>
      rw [step_token rfl]
      rfl
  | astray before surplus tokens =>
    cases token with
    | opening =>
      cases surplus with
      | zero => rfl
      | succ surplus =>
        simp only [step, depth, Token.depthAfter]
        omega
    | closing =>
      simp only [step, depth, Token.depthAfter]
      omega
    | _ => cases surplus <;> rfl

theorem depth_foldl_step (progress : Progress) (tokens : List Token) :
    (tokens.foldl step progress).depth = tokens.foldl Token.depthAfter progress.depth := by
  induction tokens generalizing progress with
  | nil => rfl
  | cons token tokens ih => rw [List.foldl_cons, List.foldl_cons, ih, depth_step]

theorem exists_of_depth_eq_zero {progress : Progress} (h : progress.depth = 0) :
    ∃ items, progress = .inside [] items := by
  cases progress with
  | inside outer items =>
    cases outer with
    | nil => exact ⟨items, rfl⟩
    | cons before outer =>
      simp only [depth, List.length_cons] at h
      omega
  | astray before surplus tokens =>
    simp only [depth] at h
    omega

def bottom : Progress → List Item
  | .inside outer items => outer.getLast?.getD items
  | .astray before _ _ => before

section Outside

variable {p : Token → Prop} {progress : Progress}

theorem forall_close {before : List Item} (h : ∀ t, .token t ∈ before → p t)
    (inner : List Item) : ∀ t, .token t ∈ close before inner → p t := by
  unfold close
  split
  · simp_all
  · simpa using h

/-- Only a token outside all parentheses gets among the items there. -/
theorem forall_bottom_step (h : ∀ t, .token t ∈ progress.bottom → p t) {token : Token}
    (htoken : progress.depth = 0 → p token) :
    ∀ t, .token t ∈ (progress.step token).bottom → p t := by
  cases progress with
  | inside outer items =>
    cases token with
    | opening => cases outer <;> exact h
    | closing =>
      match outer with
      | [] => exact h
      | [before] => exact forall_close h _
      | before :: next :: outer => exact h
    | _ =>
      rw [step_token rfl]
      cases outer with
      | nil => simpa [bottom] using ⟨htoken rfl, h⟩
      | cons before outer => exact h
  | astray before surplus tokens =>
    cases token with
    | opening =>
      cases surplus with
      | zero => simpa [step, bottom, Item.ofLost] using h
      | succ surplus => exact h
    | _ => cases surplus <;> exact h

theorem forall_bottom_foldl_step (h : ∀ t, .token t ∈ progress.bottom → p t)
    {tokens : List Token} (htokens : Token.Outside p progress.depth tokens) :
    ∀ t, .token t ∈ (tokens.foldl step progress).bottom → p t := by
  induction tokens generalizing progress with
  | nil => exact h
  | cons token tokens ih =>
    have hrest : Token.Outside p (Token.depthAfter progress.depth token) tokens := htokens.2
    rw [← depth_step] at hrest
    exact ih (forall_bottom_step h htokens.1) hrest

theorem forall_unclosed {before : List Item} {outer : List (List Item)}
    (h : ∀ t, .token t ∈ outer.getLast?.getD before → p t) (tokens : List Token) :
    ∀ t, .token t ∈ unclosed tokens before outer → p t := by
  induction outer generalizing before tokens with
  | nil => simpa [unclosed, Item.ofLost] using h
  | cons next outer ih =>
    rw [List.getLast?_cons, Option.getD_some] at h
    exact ih h _

theorem forall_finish (h : ∀ t, .token t ∈ progress.bottom → p t) :
    ∀ t, .token t ∈ progress.finish → p t := by
  cases progress with
  | inside outer items =>
    cases outer with
    | nil => simpa [finish, bottom] using h
    | cons before outer =>
      rw [bottom, List.getLast?_cons, Option.getD_some] at h
      exact forall_unclosed h _
  | astray before surplus tokens => simpa [finish, bottom, Item.ofLost] using h

end Outside

/-- Two readings of the same tokens, the second one on top of items that were read before. -/
inductive Atop (base : List Item) : Progress → Progress → Prop where
  | outside (items : List Item) : Atop base (.inside [] items) (.inside [] (items ++ base))
  | inside (outer : List (List Item)) (before items : List Item) :
      Atop base (.inside (outer ++ [before]) items) (.inside (outer ++ [before ++ base]) items)
  | astray (before : List Item) (surplus : Nat) (tokens : List Token) :
      Atop base (.astray before surplus tokens) (.astray (before ++ base) surplus tokens)

theorem close_append {base : List Item} (hbase : Ready base) (before inner : List Item) :
    close (before ++ base) inner = close before inner ++ base := by
  cases before with
  | nil => rw [List.nil_append, close_group hbase, close_group ready_nil, List.singleton_append]
  | cons item before =>
    cases item with
    | operand e => rfl
    | token token => cases token <;> rfl

namespace Atop

variable {base : List Item} {progress above : Progress}

theorem step (hbase : Ready base) (h : Atop base progress above) (token : Token) :
    Atop base (progress.step token) (above.step token) := by
  cases h with
  | outside items =>
    cases token with
    | opening => exact .inside [] items []
    | closing => exact .astray items 0 [.closing]
    | _ =>
      rw [step_token rfl, step_token rfl]
      exact .outside (_ :: items)
  | inside outer before items =>
    cases token with
    | opening => exact .inside (items :: outer) before []
    | closing =>
      cases outer with
      | nil =>
        have hclose := close_append hbase before items.reverse
        simp only [List.nil_append, Progress.step, hclose]
        exact .outside _
      | cons next outer => exact .inside outer before (close next items.reverse)
    | _ =>
      rw [step_token rfl, step_token rfl]
      exact .inside outer before (_ :: items)
  | astray before surplus tokens =>
    cases token with
    | opening =>
      cases surplus with
      | zero => exact .outside (_ :: before)
      | succ surplus => exact .astray before surplus (_ :: tokens)
    | _ => cases surplus <;> exact .astray before _ (_ :: tokens)

theorem foldl_step (hbase : Ready base) (h : Atop base progress above) (tokens : List Token) :
    Atop base (tokens.foldl Progress.step progress) (tokens.foldl Progress.step above) := by
  induction tokens generalizing progress above with
  | nil => exact h
  | cons token tokens ih => exact ih (h.step hbase token)

theorem unclosed_append (base : List Item) (tokens : List Token) (before : List Item)
    (outer : List (List Item)) (last : List Item) :
    unclosed tokens before (outer ++ [last ++ base]) =
      base.reverse ++ unclosed tokens before (outer ++ [last]) := by
  induction outer generalizing tokens before with
  | nil => simp [unclosed]
  | cons next outer ih => exact ih _ _

theorem finish (h : Atop base progress above) :
    above.finish = base.reverse ++ progress.finish := by
  cases h with
  | outside items => exact List.reverse_append
  | inside outer before items =>
    cases outer with
    | nil => simp [Progress.finish, unclosed]
    | cons next outer => exact unclosed_append base _ next outer before
  | astray before surplus tokens => simp [Progress.finish]

end Atop

/-- As long as the parentheses match, what stands before them is not looked at. -/
theorem exists_foldl_step {tokens : List Token} (outer : List (List Item)) (items : List Item)
    (h : Token.closesAll outer.length tokens = true) :
    ∃ found, ∀ around, tokens.foldl step (.inside (outer ++ around) items) =
      .inside around found := by
  -- `outer` holds what was opened since; nothing below it is ever taken off
  induction tokens generalizing outer items with
  | nil =>
    obtain rfl : outer = [] := by simpa [Token.closesAll] using h
    exact ⟨items, fun around => rfl⟩
  | cons token tokens ih =>
    cases token with
    | opening => exact ih (items :: outer) [] h
    | closing =>
      cases outer with
      | nil => cases h
      | cons before outer => exact ih outer (close before items.reverse) h
    | _ =>
      obtain ⟨found, hfound⟩ := ih outer (_ :: items) (by cases outer <;> exact h)
      refine ⟨found, fun around => ?_⟩
      rw [List.foldl_cons, step_token rfl]
      exact hfound around

/-- Tokens whose parentheses match are read alike wherever an operand may stand. -/
theorem reads_ofTokens {tokens : List Token} (h : Token.balanced tokens = true) :
    Reads tokens (Item.ofTokens tokens) := by
  intro outer before hbefore
  obtain ⟨items, hitems⟩ := exists_foldl_step [] [] h
  obtain ⟨found, hfound⟩ := exists_foldl_step [] before h
  have hfinish := (Atop.foldl_step hbefore (.outside []) tokens).finish
  rw [show tokens.foldl step (.inside [] ([] ++ before)) = _ from hfound [],
    show tokens.foldl step (.inside [] []) = _ from hitems []] at hfinish
  have heq : found = items ++ before := List.reverse_injective (by simpa [finish] using hfinish)
  rw [Item.ofTokens_of_foldl_step (hitems []), List.reverse_reverse, ← heq]
  exact hfound outer

end Progress

namespace Cuts

variable {α : Type} {accept : Option Item → Token → Option α} {items : List Item}

theorem uncut_of_forall (h : ∀ t, .token t ∈ items → ∀ item, accept item t = none)
    (before : Option Item) : Uncut accept before items := by
  induction items generalizing before with
  | nil => trivial
  | cons item items ih =>
    have hitems := ih fun t ht => h t (List.mem_cons_of_mem item ht)
    cases item with
    | operand e => exact hitems _
    | token t => exact ⟨h t List.mem_cons_self before, hitems _⟩

theorem uncut_acceptOnly {which : Token} (before : Option Item) (h : .token which ∉ items) :
    Uncut (acceptOnly which) before items := by
  refine uncut_of_forall (fun t ht item => if_neg ?_) before
  rintro rfl
  exact h ht

end Cuts

namespace Item

/-- The items that are single tokens come from outside all parentheses. -/
theorem forall_ofTokens {p : Token → Prop} {tokens : List Token} (h : Token.Outside p 0 tokens) :
    ∀ t, .token t ∈ ofTokens tokens → p t :=
  Progress.forall_finish (Progress.forall_bottom_foldl_step (fun _ => nofun) h)

theorem comma_notMem_ofTokens {tokens : List Token} (h : Token.commas.Whole 0 tokens) :
    .token .comma ∉ ofTokens tokens :=
  fun hmem => forall_ofTokens (Token.outside_of_whole h) .comma hmem rfl

/-- What follows an operator or a comma outside all parentheses is read as it is on its own. -/
theorem ofTokens_append {front : List Token} (h : front.foldl Token.depthAfter 0 = 0)
    {token : Token} (htoken : token.divides = true) (rest : List Token) :
    ofTokens (front ++ token :: rest) = ofTokens front ++ .token token :: ofTokens rest := by
  have hdepth : (front.foldl Progress.step (.inside [] [])).depth = 0 :=
    (Progress.depth_foldl_step _ front).trans h
  obtain ⟨items, hitems⟩ := Progress.exists_of_depth_eq_zero hdepth
  have hready : Progress.Ready (.token token :: items) := Progress.ready_cons htoken items
  have hrest := (Progress.Atop.foldl_step hready (.outside []) rest).finish
  calc ofTokens (front ++ token :: rest)
    _ = (rest.foldl Progress.step (.inside [] (.token token :: items))).finish := by
      rw [ofTokens, List.foldl_append, hitems, List.foldl_cons,
        Progress.step_token (Token.isParenthesis_of_divides htoken)]
    _ = (.token token :: items).reverse ++ ofTokens rest := hrest
    _ = ofTokens front ++ .token token :: ofTokens rest := by
      rw [ofTokens_of_foldl_step hitems, List.reverse_cons, List.append_assoc]
      rfl

theorem parts_ofTokens (tokens : List Token) :
    (Cuts.ofItems (acceptOnly .comma) none (ofTokens tokens)).parts =
      (Token.commas.parts tokens).map ofTokens := by
  induction tokens using Token.commas.induct with
  | whole tokens h =>
    have huncut := Cuts.uncut_acceptOnly none (comma_notMem_ofTokens h)
    rw [Token.commas.parts_of_whole h, Cuts.parts, huncut.ofItems_eq]
    rfl
  | cut front rest h ih =>
    have huncut := Cuts.uncut_acceptOnly none (comma_notMem_ofTokens h.whole)
    change (Cuts.ofItems _ none (ofTokens (front ++ .comma :: rest))).parts = _
    rw [Token.commas.parts_append h, List.map_cons, ← ih, ofTokens_append h.foldl_eq rfl,
      Cuts.parts_append huncut rfl, Cuts.ofItems_before (fun _ _ _ => rfl) (some _) none]

end Item

/-- The items between commas are those of the tokens between commas. -/
theorem commaParts_ofTokens (tokens : List Token) :
    commaParts (Item.ofTokens tokens) = (Token.splitArguments tokens).map Item.ofTokens := by
  cases tokens with
  | nil => rfl
  | cons token tokens =>
    have hne : Item.ofTokens (token :: tokens) ≠ [] := by
      intro hnil
      have htokens := Item.allTokens_ofTokens (token :: tokens)
      rw [hnil] at htokens
      cases htokens
    rw [commaParts, if_neg (by simpa using hne), Item.parts_ofTokens]
    rfl

/-- The arguments of a text can be read one by one exactly if the text can be read as a whole; the
tokens between its commas are then those of the arguments, and the reader of expressions takes the
same ones for arguments. -/
theorem Token.scan_splitArguments (isVariable : Text → Bool) (t : Text) :
    ((∃ tokens, scan isVariable t = .ok tokens) ↔
      ∀ part ∈ Brushwork.splitArguments t, ∃ tokens, scan isVariable part = .ok tokens) ∧
    ∀ tokens, scan isVariable t = .ok tokens →
      (Brushwork.splitArguments t).map (scan isVariable) = (splitArguments tokens).map .ok ∧
        commaParts (Item.ofTokens tokens) = (splitArguments tokens).map Item.ofTokens := by
  have hread : _ = (scan isVariable t).map splitArguments := mapM_scan_splitArguments t
  constructor
  · rw [← exists_mapM_eq_ok_iff, hread]
    cases scan isVariable t with
    | error fault => exact ⟨fun ⟨_, h⟩ => (nomatch h), fun ⟨_, h⟩ => (nomatch h)⟩
    | ok tokens => exact ⟨fun _ => ⟨_, rfl⟩, fun _ => ⟨_, rfl⟩⟩
  · intro tokens hscan
    rw [hscan] at hread
    exact ⟨mapM_eq_ok_iff.1 hread, commaParts_ofTokens tokens⟩

theorem Token.scan_splitArguments_unbalanced :
    let isVariable : Text → Bool := fun name => name == "x-y".toList
    let t := "),(1,\"a,(b\", ,x-y,f(1,2".toList
    let parts : List (List Token) :=
      [[.closing, .comma, .opening, .number 1], [.quotation "a,(b".toList], [],
        [.name "x-y".toList], [.name "f".toList, .opening, .number 1, .comma, .number 2]]
    scan isVariable t = .ok ([.comma].intercalate parts) ∧
      (Brushwork.splitArguments t).map (scan isVariable) = parts.map .ok ∧
      commaParts (Item.ofTokens ([.comma].intercalate parts)) = parts.map Item.ofTokens := by
  intro isVariable t parts
  have hscan : scan isVariable t = .ok ([.comma].intercalate parts) := by decide +kernel
  have hparts : splitArguments ([.comma].intercalate parts) = parts := by decide
  have harguments := (scan_splitArguments isVariable t).2 _ hscan
  rw [hparts] at harguments
  exact ⟨hscan, harguments⟩

end Brushwork

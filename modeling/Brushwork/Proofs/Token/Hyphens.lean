import Brushwork.Proofs.Expr.Names
import Brushwork.Proofs.Token.Boundary

/-!
# What the variables decide about the tokens

A run of name characters can be cut before each of its hyphens, and at its end unless a
hyphen ends it. Only the first of these names may be free of hyphens, and it is the one that
is taken if no longer one is a variable. So a variable without hyphens decides nothing
about the tokens, and a name with hyphens is a token only where it is the longest variable
among the names that can be cut from its run.
-/

namespace Brushwork

namespace Token

/-- A name that can be cut from a run of name characters: it stands before a hyphen, or it is the
run itself, which no hyphen ends then. -/
def CutFrom (run name : Text) : Prop :=
  name ++ ['-'] <+: run ∨ name = run ∧ run.getLast? ≠ some '-'

/-- The longest of the names that can be cut from a run and are variables. -/
structure LongestVariable (isVariable : Text → Bool) (run name : Text) : Prop where
  cut : CutFrom run name
  known : isVariable name = true
  longest : ∀ other, CutFrom run other → isVariable other = true → other.length ≤ name.length

/-- After `previous`, a text begins with name characters at whose end a name can end. -/
def CanStop (previous : Char) (t found : Text) : Prop :=
  ∃ rest, t = found ++ rest ∧ (∀ c ∈ found, isNameChar c = true) ∧
    canEnd ((previous :: found).getLast? == some '-') rest = true

theorem canEnd_iff (afterHyphen : Bool) (rest : Text) :
    canEnd afterHyphen rest = true ↔
      rest.head? = some '-' ∨ afterHyphen = false ∧ rest.takeWhile isNameChar = [] := by
  cases rest with
  | nil => simp [canEnd]
  | cons d rest =>
    by_cases hname : isNameChar d = true
    · simp [canEnd, hname]
    · simp [canEnd, hname]

/-- The names that can be cut from the run at the beginning of a text are where a name can stop. -/
theorem cutFrom_takeWhile_iff {c : Char} (hc : c.isAlpha = true) (t name : Text) :
    CutFrom ((c :: t).takeWhile isNameChar) name ↔
      ∃ found, name = c :: found ∧ CanStop c t found := by
  have hrun : (c :: t).takeWhile isNameChar = c :: t.takeWhile isNameChar :=
    List.takeWhile_cons_of_pos (isNameChar_of_isAlpha hc)
  rw [hrun]
  constructor
  · rintro (⟨after, hafter⟩ | ⟨rfl, hlast⟩)
    · cases name with
      | nil =>
        cases hafter
        cases hc
      | cons d found =>
        simp only [List.cons_append, List.cons.injEq] at hafter
        obtain ⟨rfl, hafter⟩ := hafter
        have hnames : ∀ e ∈ found ++ ['-'] ++ after, isNameChar e = true := by
          rw [hafter]
          exact fun e => List.mem_takeWhile_imp
        refine ⟨found, rfl, '-' :: (after ++ t.dropWhile isNameChar), ?_, ?_, ?_⟩
        · have ht := List.takeWhile_append_dropWhile (p := isNameChar) (l := t)
          rw [← hafter] at ht
          simpa using ht.symm
        · exact fun e he => hnames e (by simp [he])
        · exact (canEnd_iff _ _).2 (.inl rfl)
    · refine ⟨_, rfl, t.dropWhile isNameChar, List.takeWhile_append_dropWhile.symm,
        fun e => List.mem_takeWhile_imp, (canEnd_iff _ _).2 (.inr ⟨?_, ?_⟩)⟩
      · exact beq_false_of_ne hlast
      · rw [List.takeWhile_eq_nil_iff]
        intro hpos
        exact List.dropWhile_get_zero_not isNameChar t hpos
  · rintro ⟨found, rfl, rest, rfl, hnames, hend⟩
    rw [List.takeWhile_append_of_pos hnames]
    rcases (canEnd_iff _ _).1 hend with hhyphen | ⟨hlast, hrest⟩
    · obtain ⟨rest, rfl⟩ := List.head?_eq_some_iff.1 hhyphen
      have hname : isNameChar '-' = true := by decide
      refine .inl ⟨rest.takeWhile isNameChar, ?_⟩
      simp [hname]
    · rw [hrest, List.append_nil]
      exact .inr ⟨rfl, ne_of_beq_false hlast⟩

/-- What is found is a variable and ends where a name can. -/
theorem canStop_of_longest? {isVariable : Text → Bool} {previous : Char} {t found : Text}
    (h : longest? isVariable (previous == '-') t = some found) :
    CanStop previous t found := by
  obtain ⟨rest, ht, hend⟩ := canEnd_of_longest? h
  exact ⟨rest, ht, (longest?_eq_some h).2, hend⟩

/-- Wherever a name can stop that is a variable, one at least as long is found. -/
theorem exists_longest? {isVariable : Text → Bool} {previous : Char} {t found : Text}
    (h : CanStop previous t found) (hvariable : isVariable found = true) :
    ∃ longer, longest? isVariable (previous == '-') t = some longer ∧
      found.length ≤ longer.length := by
  obtain ⟨rest, rfl, hnames, hend⟩ := h
  induction found generalizing isVariable previous with
  | nil =>
    have hend : canEnd (previous == '-') rest = true := by simpa using hend
    cases rest with
    | nil => exact ⟨[], by simp [longest?, hend, hvariable], Nat.le_refl _⟩
    | cons d rest =>
      simp only [List.nil_append, longest?, hend, hvariable]
      split
      · exact ⟨_, rfl, Nat.zero_le _⟩
      · exact ⟨[], rfl, Nat.le_refl _⟩
  | cons c found ih =>
    obtain ⟨hc, hnames⟩ := List.forall_mem_cons.1 hnames
    rw [List.getLast?_cons_cons] at hend
    obtain ⟨longer, hlonger, hle⟩ : ∃ longer,
        longest? (fun rest => isVariable (c :: rest)) (c == '-') (found ++ rest) = some longer ∧
          found.length ≤ longer.length := ih hvariable hnames hend
    refine ⟨c :: longer, ?_, Nat.succ_le_succ hle⟩
    rw [List.cons_append, longest?, if_pos hc, hlonger]

/-- A name with hyphens is the longest variable that can be cut from its run. -/
theorem longestVariable_continuation {isVariable : Text → Bool} {c : Char} (hc : c.isAlpha = true)
    {t : Text} (hhyphen : '-' ∈ c :: continuation isVariable c t) :
    LongestVariable isVariable ((c :: t).takeWhile isNameChar)
      (c :: continuation isVariable c t) := by
  have hfirst : (c == '-') = false := by
    refine beq_false_of_ne ?_
    rintro rfl
    cases hc
  have hvariable := (continuation_spec isVariable hc t).2.resolve_left (not_not_intro hhyphen)
  cases hfound : longest? (fun rest => isVariable (c :: rest)) false t with
  | none =>
    rw [continuation, hfound, Option.getD_none] at hhyphen
    rcases List.mem_cons.1 hhyphen with rfl | hmem
    · cases hc
    · simpa using List.mem_takeWhile_imp hmem
  | some found =>
    have hcontinuation : continuation isVariable c t = found := by
      rw [continuation, hfound, Option.getD_some]
    rw [← hfirst] at hfound
    rw [hcontinuation] at hvariable ⊢
    have hcut := (cutFrom_takeWhile_iff hc t _).2 ⟨found, rfl, canStop_of_longest? hfound⟩
    refine ⟨hcut, hvariable, fun other hother hvariable' => ?_⟩
    obtain ⟨stop, rfl, hstop⟩ := (cutFrom_takeWhile_iff hc t _).1 hother
    obtain ⟨longer, hlonger, hle⟩ : ∃ longer,
        longest? (fun rest => isVariable (c :: rest)) (c == '-') t = some longer ∧
          stop.length ≤ longer.length := exists_longest? hstop hvariable'
    cases hfound.symm.trans hlonger
    exact Nat.succ_le_succ hle

section Agreement

theorem longest?_cons (isVariable : Text → Bool) (afterHyphen : Bool) (c : Char) (t : Text) :
    longest? isVariable afterHyphen (c :: t) =
      ((if isNameChar c then longest? (fun rest => isVariable (c :: rest)) (c == '-') t
        else none).map (c :: ·)).or
        (if canEnd afterHyphen (c :: t) && isVariable [] then some [] else none) := by
  rw [longest?]
  split
  · rename_i hlonger
    rw [hlonger]
    rfl
  · rename_i hnone
    rw [hnone]
    rfl

variable {isVariable isVariable' : Text → Bool}

/-- Where a name goes on does not depend on the variables without hyphens. -/
theorem getD_longest?_congr (h : ∀ rest, '-' ∈ rest → isVariable rest = isVariable' rest)
    (afterHyphen : Bool) (t : Text) :
    (longest? isVariable afterHyphen t).getD (shortest t) =
      (longest? isVariable' afterHyphen t).getD (shortest t) := by
  -- whether the empty continuation makes a variable plays no role, as it is the shortest one
  have hstop : ∀ (longer : Option Text) (stops : Bool),
      (longer.or (if stops then some [] else none)).getD [] = longer.getD [] := by
    intro longer stops
    cases longer <;> cases stops <;> rfl
  induction t generalizing isVariable isVariable' afterHyphen with
  | nil =>
    have hnil : ∀ isVariable : Text → Bool, (longest? isVariable afterHyphen []).getD [] = [] :=
      fun isVariable => hstop none _
    exact (hnil isVariable).trans (hnil isVariable').symm
  | cons c t ih =>
    rw [longest?_cons, longest?_cons]
    by_cases hhyphen : c = '-'
    · subst hhyphen
      have hsame : (fun rest => isVariable ('-' :: rest)) = fun rest => isVariable' ('-' :: rest) :=
        funext fun rest => h _ List.mem_cons_self
      have hshortest : shortest ('-' :: t) = [] := rfl
      rw [hshortest, hstop, hstop, hsame]
    · by_cases hname : isNameChar c = true
      · have hshortest : shortest (c :: t) = c :: shortest t := by simp [shortest, hname, hhyphen]
        have hcan : canEnd afterHyphen (c :: t) = false := by
          rw [canEnd_cons hname]
          exact beq_false_of_ne hhyphen
        have hrest :
            (longest? (fun rest => isVariable (c :: rest)) (c == '-') t).getD (shortest t) =
              (longest? (fun rest => isVariable' (c :: rest)) (c == '-') t).getD (shortest t) :=
          ih (fun rest hrest => h _ (List.mem_cons_of_mem c hrest)) (c == '-')
        simp only [if_pos hname, hcan, Bool.false_and, Bool.false_eq_true, if_false, Option.or_none,
          hshortest]
        rw [Option.getD_map (c :: ·), Option.getD_map (c :: ·), hrest]
      · have hshortest : shortest (c :: t) = [] := by simp [shortest, hname]
        rw [hshortest, hstop, hstop, if_neg hname, if_neg hname]

theorem continuation_congr (h : ∀ name, '-' ∈ name → isVariable name = isVariable' name) :
    continuation isVariable = continuation isVariable' := by
  funext c t
  exact getD_longest?_congr (fun rest hrest => h _ (List.mem_cons_of_mem c hrest)) false t

theorem scan_congr (h : ∀ name, '-' ∈ name → isVariable name = isVariable' name)
    (source : Text) : scan isVariable source = scan isVariable' source := by
  rw [scan, scan, continuation_congr h]

end Agreement

section Reading

variable {isVariable : Text → Bool} {source after name : Text} {tokens : List Token}

/-- The tokens are those of a last part of the source, which begins with the name. -/
def ReadsName (isVariable : Text → Bool) (source name : Text) (tokens : List Token) : Prop :=
  ∃ c t, c :: t <:+ source ∧ c.isAlpha = true ∧ name = c :: continuation isVariable c t ∧
    scan isVariable (c :: t) = .ok tokens

theorem ReadsName.of_suffix (h : ReadsName isVariable after name tokens)
    (hafter : after <:+ source) : ReadsName isVariable source name tokens := by
  obtain ⟨c, t, hsuffix, hread⟩ := h
  exact ⟨c, t, hsuffix.trans hafter, hread⟩

/-- A sign is no name, and the text goes on after it. -/
theorem sign_of_symbol? {c : Char} {t after : Text} {token : Token}
    (h : symbol? c t = some (token, after)) : after <:+ t ∧ token ≠ .name name := by
  unfold symbol? at h
  split at h <;> cases h
  case h_1 | h_2 | h_3 | h_4 | h_5 | h_6 | h_7 => exact ⟨List.suffix_cons _ _, nofun⟩
  all_goals exact ⟨List.suffix_rfl, nofun⟩

theorem ofWord_eq_name {word : Text} (h : ofWord word = .name name) : word = name := by
  unfold ofWord at h
  split at h
  · cases h
  · split at h
    · cases h
    · exact Token.name.inj h

/-- From the token of a name on, the tokens are read from the name on. -/
theorem readsName_of_scan (h : scan isVariable source = .ok tokens) {i : Nat}
    (hname : tokens[i]? = some (.name name)) :
    ReadsName isVariable source name (tokens.drop i) := by
  unfold scan at h
  fun_induction scanBy (continuation isVariable) source generalizing tokens i with
  | case1 =>
    cases h
    cases hname
  | case2 c t hblank ih => exact (ih h hname).of_suffix (List.suffix_cons c t)
  | case3 c t hblank hdigit value hfits =>
    rename_i ih
    obtain ⟨rest, hrest, heq⟩ := bind_eq_ok_iff.1 h
    cases heq
    cases i with
    | zero => cases hname
    | succ i =>
      exact (ih hrest hname).of_suffix ((List.dropWhile_suffix _).trans (List.suffix_cons c t))
  | case4 => cases h
  | case5 c t hblank hdigit halpha word =>
    rename_i ih
    have hscan : scan isVariable (c :: t) = .ok tokens := (scan_letter isVariable halpha t).trans h
    obtain ⟨rest, hrest, heq⟩ := bind_eq_ok_iff.1 h
    cases heq
    cases i with
    | zero =>
      have hword := ofWord_eq_name (Option.some.inj hname)
      exact ⟨c, t, List.suffix_rfl, halpha, hword.symm, hscan⟩
    | succ i =>
      exact (ih hrest hname).of_suffix ((List.drop_suffix _ _).trans (List.suffix_cons c t))
  | case6 => cases h
  | case7 t head after hafter hblank hdigit halpha =>
    rename_i ih
    obtain ⟨rest, hrest, heq⟩ := bind_eq_ok_iff.1 h
    cases heq
    cases i with
    | zero => cases hname
    | succ i =>
      have hsuffix : head :: after <:+ t := hafter ▸ List.dropWhile_suffix _
      exact (ih hrest hname).of_suffix
        (((List.suffix_cons head after).trans hsuffix).trans (List.suffix_cons _ t))
  | case8 => cases h
  | case9 c t hblank hdigit halpha hquote token after hsymbol =>
    rename_i ih
    obtain ⟨rest, hrest, heq⟩ := bind_eq_ok_iff.1 h
    cases heq
    obtain ⟨hsuffix, hsign⟩ := sign_of_symbol? hsymbol
    cases i with
    | zero => exact absurd (Option.some.inj hname) hsign
    | succ i => exact (ih hrest hname).of_suffix (hsuffix.trans (List.suffix_cons c t))

end Reading

end Token

namespace Scene

variable {scene scene' : Scene}

/-- Scenes in which the same names with hyphens are bound read every text alike. -/
theorem tokensOf_congr
    (h : ∀ name, '-' ∈ name → scene.vars.binds name = scene'.vars.binds name) (source : Text) :
    scene.tokensOf source = scene'.tokensOf source := by
  rw [tokensOf_eq, tokensOf_eq, Token.scan_congr h]

/-- Binding a name without hyphens binds no name that has some. -/
theorem binds_assign {vars : Variables} {name : Text} {value : Value}
    (h : scene.vars.assign name value = .ok vars) (hname : '-' ∉ name) {other : Text}
    (hother : '-' ∈ other) : vars.binds other = scene.vars.binds other := by
  have hne : other ≠ name := by
    rintro rfl
    exact hname hother
  rw [Variables.binds, Variables.binds, Variables.get?_assign h, if_neg hne]

end Scene

namespace Token

/-- What variables without hyphens there are plays no role for the tokens of a text, nor for the
fault for which it has none. So scenes in which the same names with hyphens are bound read it
alike, and binding a name without hyphens changes nothing. A name with hyphens is a token only as
the longest variable that can be cut from its run of name characters. -/
theorem plain_variables_change_no_tokens (source : Text) :
    (∀ isVariable isVariable' : Text → Bool,
      (∀ name, '-' ∈ name → isVariable name = isVariable' name) →
        scan isVariable source = scan isVariable' source) ∧
    (∀ scene scene' : Scene,
      (∀ name, '-' ∈ name → scene.vars.binds name = scene'.vars.binds name) →
        scene.tokensOf source = scene'.tokensOf source) ∧
    (∀ (scene : Scene) name value vars, scene.vars.assign name value = .ok vars → '-' ∉ name →
      Scene.tokensOf { scene with vars } source = scene.tokensOf source) ∧
    ∀ isVariable tokens i name, scan isVariable source = .ok tokens →
      tokens[i]? = some (.name name) → '-' ∈ name →
        ∃ rest, rest <:+ source ∧ scan isVariable rest = .ok (tokens.drop i) ∧
          LongestVariable isVariable (rest.takeWhile isNameChar) name := by
  refine ⟨fun _ _ h => scan_congr h source, fun _ _ h => Scene.tokensOf_congr h source,
    fun _ _ _ _ h hname => Scene.tokensOf_congr (fun _ => Scene.binds_assign h hname) source, ?_⟩
  intro isVariable tokens i name hscan hname hhyphen
  obtain ⟨c, t, hsuffix, hc, rfl, hrest⟩ := readsName_of_scan hscan hname
  exact ⟨c :: t, hsuffix, hrest, longestVariable_continuation hc hhyphen⟩

/-- The variables `a` and `b` play no role where `a-b` is one. -/
theorem plain_variables_change_no_tokens_hyphens :
    let source := "2*a-b-c".toList
    let tokens : List Token :=
      [.number 2, .arith .mul, .name "a-b".toList, .arith .sub, .name ['c']]
    let isVariable : Text → Bool := fun name => name == "a-b".toList
    let isVariable' : Text → Bool :=
      fun name => name == "a-b".toList || name == ['a'] || name == ['b']
    scan isVariable source = .ok tokens ∧ scan isVariable' source = .ok tokens ∧
      ∃ rest, rest <:+ source ∧ scan isVariable rest = .ok (tokens.drop 2) ∧
        LongestVariable isVariable (rest.takeWhile isNameChar) "a-b".toList := by
  intro source tokens isVariable isVariable'
  obtain ⟨hsame, -, -, hlongest⟩ := plain_variables_change_no_tokens source
  have hscan : scan isVariable source = .ok tokens := by decide +kernel
  have hagree : ∀ name, '-' ∈ name → isVariable name = isVariable' name := by
    intro name hname
    have ha : (name == ['a']) = false := by
      refine beq_false_of_ne ?_
      rintro rfl
      simp at hname
    have hb : (name == ['b']) = false := by
      refine beq_false_of_ne ?_
      rintro rfl
      simp at hname
    simp [isVariable, isVariable', ha, hb]
  exact ⟨hscan, (hsame isVariable isVariable' hagree).symm.trans hscan,
    hlongest isVariable tokens 2 _ hscan rfl (by decide)⟩

end Token

end Brushwork

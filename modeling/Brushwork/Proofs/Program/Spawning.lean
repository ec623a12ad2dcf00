import Brushwork.Proofs.Command.Arguments
import Brushwork.Proofs.Expr.Names
import Brushwork.Proofs.Program.Reporting
import Brushwork.Proofs.Token.Arguments
import Brushwork.Proofs.Token.RoundTrip

/-!
# Putting the agent on a literal place

A line `Spawn(x, y)` with two numerals is judged twice: its inspection reads the numerals
as literals, with their signs, and its command evaluates them as expressions, in which a
minus is an operator. Both come to the same: a place of the canvas is taken without a word,
and any other is objected to by both. The numeral of the least word is a literal but no
expression, and it names no place anyway.
-/

namespace Brushwork

section Literals

variable (isVariable : Text → Bool)

theorem scan_digits_eq (k : Nat) :
    Token.scan isVariable (decimal k) =
      if fitsWord k then .ok [.number k] else .error .numeral := by
  by_cases hfits : fitsWord k = true
  · have hread := Token.scan_number isVariable (Int.natCast_nonneg k) hfits Token.separated_nil
    rw [List.append_nil] at hread
    rw [hread, Token.scan_nil, if_pos hfits]
    rfl
  · rw [if_neg hfits]
    cases hform : decimal k with
    | nil => exact absurd hform (digits_ne_nil k)
    | cons c t =>
      have hdigits : ∀ d ∈ c :: t, d.isDigit = true := by
        rw [← hform]
        exact fun d hd => isDigit_of_mem_digits hd
      obtain ⟨hc, ht⟩ := List.forall_mem_cons.1 hdigits
      refine Token.scan_numeral isVariable hc ?_
      rwa [List.takeWhile_eq_self_iff.2 ht, ← hform, digitsValue_digits]

/-- The sign of a numeral is read as an operator. -/
theorem scan_decimal_neg {k : Nat} (hk : 0 < k) :
    Token.scan isVariable (decimal (-k)) =
      if fitsWord k then .ok [.arith .sub, .number k] else .error .numeral := by
  rw [decimal_neg hk, Token.scan_symbol isVariable (by decide) rfl, scan_digits_eq]
  split <;> rfl

end Literals

/-- A numeral is an expression for its number, but for the least word: what follows its sign fits
no word. -/
theorem Scene.evaluateNumber_decimal (scene : Scene) {n : Int} (h : fitsWord n = true) :
    scene.evaluateNumber (decimal n) =
      if n = leastWord then .error (.numeralTooLarge (trim (decimal n))) else .ok n := by
  have hbounds := (fitsWord_iff n).1 h
  rcases natCast_or_neg n with ⟨k, rfl⟩ | ⟨k, hk, rfl⟩
  · have hleast : (k : Int) ≠ leastWord := by
      simp only [leastWord]
      omega
    rw [evaluateNumber, tokensOf_eq, scan_digits_eq, if_pos h, if_neg hleast]
    rfl
  · rw [evaluateNumber, tokensOf_eq, scan_decimal_neg _ hk]
    by_cases hfits : fitsWord k = true
    · have hleast : -(k : Int) ≠ leastWord := by
        have hgreatest := ((fitsWord_iff k).1 hfits).2
        simp only [leastWord, greatestWord] at hgreatest ⊢
        omega
      rw [if_pos hfits, if_neg hleast]
      change inWord (-k) = _
      rw [inWord, if_pos h]
    · have hleast : -(k : Int) = leastWord := by
        rw [fitsWord_iff] at hfits
        simp only [leastWord, greatestWord] at hfits hbounds ⊢
        omega
      rw [if_neg hfits, if_pos hleast]
      rfl

/-- Name characters make an argument. -/
theorem Command.isArgument_of_isNameChar {t : Text} (hne : t ≠ [])
    (h : ∀ c ∈ t, isNameChar c = true) : IsArgument t where
  ne_nil := hne
  trimmed := trim_eq_self fun c hc => isBlank_of_isNameChar (h c hc)
  quotes := by
    have hquote : '"' ∉ t := fun hmem => by cases h _ hmem
    rw [List.count_eq_zero.2 hquote]
  balanced := by
    have hplain := Nesting.balancedFrom_append 0
      (fun c hc => Nesting.isPlain_of_isNameChar (h c hc)) []
    rw [List.append_nil] at hplain
    exact hplain
  undivided := by
    rintro before after rfl
    cases h ',' (by simp)

namespace Inspection

/-- A reader that needs a quotation finds nothing in a text without quotation marks. -/
theorem occurrences_of_notMem {α : Type} {read? : Text → Option (α × Text)}
    (hread : ∀ t found, read? t = some found → '"' ∈ t) {t : Text} (h : '"' ∉ t) :
    occurrences read? t = [] := by
  induction t with
  | nil => rw [occurrences]
  | cons c t ih =>
    have hnone : read? (c :: t) = none :=
      Option.eq_none_iff_forall_ne_some.2 fun found hfound => h (hread _ found hfound)
    rw [occurrences, hnone]
    exact ih fun hmem => h (List.mem_cons_of_mem c hmem)

theorem mem_of_quotation? {t : Text} {found : Text × Text}
    (h : quotation? (trimStart t) = some found) : '"' ∈ t := by
  obtain ⟨rest, hrest, -⟩ := Option.bind_eq_some_iff.1 h
  have hmem : '"' ∈ trimStart t := by
    rw [dropStart?_eq_some_iff.1 hrest]
    exact List.mem_cons_self
  exact (List.dropWhile_sublist _).subset hmem

theorem mem_of_colorQuery? (t : Text) (found : Text × Text) (h : colorQuery? t = some found) :
    '"' ∈ t := by
  obtain ⟨rest, hrest, h⟩ := Option.bind_eq_some_iff.1 h
  obtain ⟨word, -, hword⟩ := List.exists_of_findSome?_eq_some hrest
  rw [dropStart?_eq_some_iff.1 hword]
  exact List.mem_append_right word (mem_of_quotation? h)

theorem mem_of_literalCount? (t : Text) (found : List Text × Text)
    (h : literalCount? t = some found) : '"' ∈ t := by
  obtain ⟨rest, hrest, h⟩ := Option.bind_eq_some_iff.1 h
  obtain ⟨quotation, hquotation, -⟩ := Option.bind_eq_some_iff.1 h
  rw [dropStart?_eq_some_iff.1 hrest]
  exact List.mem_append_right countOpening (mem_of_quotation? hquotation)

theorem isArgumentChar_of_isNameChar {c : Char} (h : isNameChar c = true) :
    isArgumentChar c = true := by
  simp only [isNameChar, Bool.or_eq_true, beq_iff_eq] at h
  rcases h with (halnum | rfl) | rfl
  · simp [isArgumentChar, halnum]
  · decide
  · decide

end Inspection

namespace Command.Kind

/-- The line that puts the agent on a literal place. -/
def spawnLine (p : Point) : Text := callLine .spawn [decimal p.x, decimal p.y]

theorem ofLine?_spawnLine (p : Point) : ofLine? (spawnLine p) = some .spawn := rfl

end Command.Kind

section Lines

open Command Inspection

variable (p : Point)

theorem isArgument_of_mem_coordinates {part : Text} (h : part ∈ [decimal p.x, decimal p.y]) :
    IsArgument part := by
  rcases List.mem_pair.1 h with rfl | rfl
  all_goals exact isArgument_of_isNameChar (decimal_ne_nil _) fun c => isNameChar_of_mem_decimal

theorem callArguments?_spawnLine : callArguments? Kind.spawn.keyword (Kind.spawnLine p) =
    some (", ".toList.intercalate [decimal p.x, decimal p.y]) :=
  callArguments?_eq_some_iff.2 rfl

theorem splitArguments_coordinates :
    splitArguments (", ".toList.intercalate [decimal p.x, decimal p.y]) =
      [decimal p.x, decimal p.y] :=
  splitArguments_intercalate fun _ => isArgument_of_mem_coordinates p

theorem arguments_spawnLine :
    arguments .spawn (Kind.spawnLine p) = .ok [decimal p.x, decimal p.y] :=
  arguments_callLine rfl fun _ => isArgument_of_mem_coordinates p

theorem ofLine_spawnLine :
    Command.ofLine .spawn (Kind.spawnLine p) = .ok (.spawn (decimal p.x) (decimal p.y)) :=
  bind_eq_ok_iff.2 ⟨_, arguments_spawnLine p, rfl⟩

theorem spawnLine_eq : Kind.spawnLine p =
    "Spawn".toList ++ '(' :: (decimal p.x ++ ',' :: ' ' :: (decimal p.y ++ [')'])) := by
  rw [Kind.spawnLine, Kind.callLine, List.intercalate_cons_cons, List.intercalate_singleton,
    List.append_assoc, List.append_assoc]
  rfl

theorem parenthesesBalanced_spawnLine : parenthesesBalanced (Kind.spawnLine p) = true := by
  have hplain : ∀ n : Int, ∀ c ∈ decimal n, Nesting.isPlain c = true := fun n c hc =>
    Nesting.isPlain_of_isNameChar (isNameChar_of_mem_decimal hc)
  have hopened : Nesting.after ⟨(0 : Nat), false⟩ '(' = ⟨(1 : Nat), false⟩ := rfl
  have hcomma : Nesting.after ⟨(1 : Nat), false⟩ ',' = ⟨(1 : Nat), false⟩ := rfl
  have hblank : Nesting.after ⟨(1 : Nat), false⟩ ' ' = ⟨(1 : Nat), false⟩ := rfl
  have hstart : ({} : Nesting) = ⟨(0 : Nat), false⟩ := rfl
  have hkeyword : ∀ c ∈ "Spawn".toList, Nesting.isPlain c = true := by simp [Nesting.isPlain]
  rw [spawnLine_eq, parenthesesBalanced, hstart,
    Nesting.balancedFrom_append 0 hkeyword, Nesting.balancedFrom_cons hopened,
    Nesting.balancedFrom_append 1 (hplain p.x), Nesting.balancedFrom_cons hcomma,
    Nesting.balancedFrom_cons hblank, Nesting.balancedFrom_append 1 (hplain p.y)]
  rfl

theorem callFits_spawnLine : callFits .spawn (Kind.spawnLine p) = true := by
  have hplain : ∀ n : Int, isPlainArgument (decimal n) = true := by
    intro n
    have hchars : (decimal n).all isArgumentChar = true := List.all_eq_true.2 fun c hc =>
      isArgumentChar_of_isNameChar (isNameChar_of_mem_decimal hc)
    simp [isPlainArgument, decimal_ne_nil, hchars]
  rw [callFits, callArguments?_spawnLine]
  dsimp only
  rw [splitArguments_coordinates]
  simp [argumentsFit, Kind.arity, Kind.takesColor, hplain]

theorem form_spawnLine : form (Kind.spawnLine p) = [] := by
  rw [form, parenthesesBalanced_spawnLine, Kind.ofLine?_spawnLine]
  exact if_pos (callFits_spawnLine p)

theorem quote_notMem_spawnLine : '"' ∉ Kind.spawnLine p := by
  have hquote : ∀ n : Int, '"' ∉ decimal n := fun n hmem => by
    cases isNameChar_of_mem_decimal hmem
  simp [spawnLine_eq, hquote]

variable {p}

theorem spawnFinding_spawnLine (size : Nat) (hx : fitsWord p.x = true)
    (hy : fitsWord p.y = true) : spawnFinding size (Kind.spawnLine p) =
      if p.inSquare size then []
      else [referenceFinding ("spawn position " ++ Fault.pair p.x p.y ++
        " is outside the canvas (size " ++ toString size ++ ")")] := by
  have hcall : callArguments? "Spawn".toList (Kind.spawnLine p) = _ := callArguments?_spawnLine p
  rw [spawnFinding, hcall, Option.map_some, splitArguments_coordinates]
  dsimp only
  rw [literalValue?_decimal hx, literalValue?_decimal hy]

/-- Nothing but its place can be said against a line with a literal place. -/
theorem static_spawnLine (labels : Labels) (size : Nat) :
    Inspection.static labels size (Kind.spawnLine p) = spawnFinding size (Kind.spawnLine p) := by
  rw [Inspection.static, form_spawnLine, reference, commandReference, Kind.ofLine?_spawnLine,
    occurrences_of_notMem mem_of_colorQuery? (quote_notMem_spawnLine p),
    occurrences_of_notMem mem_of_literalCount? (quote_notMem_spawnLine p)]
  simp

end Lines

section Effect

variable (labels : Labels) (scene : Scene) {p : Point}

/-- A literal place of the canvas is taken. -/
theorem Command.run_spawn_of_inBounds (hx : fitsWord p.x = true) (hy : fitsWord p.y = true)
    (h : scene.agent.canvas.inBounds p = true) :
    (Command.spawn (decimal p.x) (decimal p.y)).run labels scene =
      ({ scene with agent := { scene.agent with position := p, spawned := true } }, .ok .next) := by
  obtain ⟨hleft, -, htop, -⟩ := (scene.agent.canvas.inBounds_iff p).1 h
  have hleast : leastWord < 0 := by decide
  have hspawn : scene.agent.spawn p = .ok { scene.agent with position := p, spawned := true } :=
    if_pos h
  rw [Command.run, scene.evaluateNumber_decimal hx, if_neg (by omega), ok_bind,
    scene.evaluateNumber_decimal hy, if_neg (by omega), ok_bind, hspawn]
  rfl

/-- A literal place outside the canvas is refused, as a place or as a numeral. -/
theorem Command.exists_run_spawn_eq_error (hx : fitsWord p.x = true) (hy : fitsWord p.y = true)
    (h : scene.agent.canvas.inBounds p = false) :
    ∃ fault : Fault, fault.category = .runtime ∧
      ((Command.spawn (decimal p.x) (decimal p.y)).run labels scene).2 = .error fault := by
  have hspawn : scene.agent.spawn p = .error (.outOfBounds p.x p.y) :=
    if_neg (Bool.eq_false_iff.1 h)
  rw [Command.run, scene.evaluateNumber_decimal hx, scene.evaluateNumber_decimal hy]
  by_cases hleast : p.x = leastWord
  · exact ⟨_, rfl, by rw [if_pos hleast]; rfl⟩
  · rw [if_neg hleast, ok_bind]
    by_cases hleast : p.y = leastWord
    · exact ⟨_, rfl, by rw [if_pos hleast]; rfl⟩
    · exact ⟨_, rfl, by rw [if_neg hleast, ok_bind, hspawn]; rfl⟩

end Effect

namespace Step

variable (labels labels' : Labels) (scene : Scene) (position : Nat) {p : Point}

theorem ofStatement_spawnLine : ofStatement labels scene position
    (.ofLine labels' scene.agent.canvas.size (Command.Kind.spawnLine p)) =
      ofCommand labels scene position
        (Inspection.spawnFinding scene.agent.canvas.size (Command.Kind.spawnLine p))
        (.ok (.spawn (decimal p.x) (decimal p.y))) := by
  rw [ofStatement_of_kind (Command.Kind.ofLine?_spawnLine p), static_spawnLine, ofLine_spawnLine]
  simp [Inspection.kindReadiness, Command.Kind.isDrawing]

theorem ofStatement_spawnLine_of_inBounds (hx : fitsWord p.x = true) (hy : fitsWord p.y = true)
    (h : scene.agent.canvas.inBounds p = true) :
    ofStatement labels scene position
      (.ofLine labels' scene.agent.canvas.size (Command.Kind.spawnLine p)) =
        ⟨{ scene with agent := { scene.agent with position := p, spawned := true } },
          position + 1, none, []⟩ := by
  have hfinding : Inspection.spawnFinding scene.agent.canvas.size (Command.Kind.spawnLine p) = [] :=
    (spawnFinding_spawnLine _ hx hy).trans (if_pos h)
  rw [ofStatement_spawnLine, hfinding, ofCommand, Command.runParsed,
    Command.run_spawn_of_inBounds labels scene hx hy h]

theorem exists_ofStatement_spawnLine (hx : fitsWord p.x = true) (hy : fitsWord p.y = true)
    (h : scene.agent.canvas.inBounds p = false) :
    ∃ located refused : Finding, located.category = .semantic ∧ refused.category = .runtime ∧
      ofStatement labels scene position
        (.ofLine labels' scene.agent.canvas.size (Command.Kind.spawnLine p)) =
          ⟨scene, position + 1, none, [located, refused]⟩ := by
  obtain ⟨located, hfinding, hlocated⟩ : ∃ located : Finding,
      Inspection.spawnFinding scene.agent.canvas.size (Command.Kind.spawnLine p) = [located] ∧
        located.category = .semantic :=
    ⟨_, (spawnFinding_spawnLine _ hx hy).trans (if_neg (Bool.eq_false_iff.1 h)), rfl⟩
  obtain ⟨fault, hcategory, hfault⟩ := Command.exists_run_spawn_eq_error labels scene hx hy h
  have hparsed : (Command.runParsed labels scene (.ok (.spawn (decimal p.x) (decimal p.y)))).2 =
      .error fault := hfault
  refine ⟨located, fault.finding, hlocated, hcategory, ?_⟩
  rw [ofStatement_spawnLine, hfinding, ofCommand_of_error hparsed, withFault_of_runtime hcategory]
  rfl

end Step

/-- A line with a literal place on the canvas puts the agent there and changes nothing else. Any
other literal place is objected to twice, by the inspection of the line and by the agent, and
changes nothing. -/
theorem Run.dispatch_spawnLine (labels : Labels) (run : Run) (position : Nat) (p : Point)
    (hx : fitsWord p.x = true) (hy : fitsWord p.y = true) :
    let agent := run.scene.agent
    let line := Command.Kind.spawnLine p
    let after := run.dispatch labels position (.ofLine labels agent.canvas.size line)
    if 0 ≤ p.x ∧ p.x < agent.canvas.size ∧ 0 ≤ p.y ∧ p.y < agent.canvas.size then
      after = { run with
        scene := { run.scene with agent := { agent with position := p, spawned := true } }
        position := position + 1
        steps := run.steps + 1 }
    else ∃ located refused : Finding,
      located.category = .semantic ∧ refused.category = .runtime ∧
      after = { run with
        position := position + 1
        steps := run.steps + 1
        log := run.log ++ [located.at (position + 1) line, refused.at (position + 1) line] } := by
  intro agent line after
  split
  · rename_i hinside
    have hstep := Step.ofStatement_spawnLine_of_inBounds labels labels run.scene position hx hy
      ((run.scene.agent.canvas.inBounds_iff p).2 hinside)
    simp [after, Run.dispatch, line, agent, hstep]
  · rename_i houtside
    have hout := Bool.eq_false_iff.2 (mt (run.scene.agent.canvas.inBounds_iff p).1 houtside)
    obtain ⟨located, refused, hlocated, hrefused, hstep⟩ :=
      Step.exists_ofStatement_spawnLine labels labels run.scene position hx hy hout
    refine ⟨located, refused, hlocated, hrefused, ?_⟩
    simp only [after, Run.dispatch, line, agent, hstep]
    rfl

/-- The last column of the canvas, and the least word, whose numeral is no expression. -/
theorem Run.dispatch_spawnLine_extremes :
    let run := Run.start 10 #[]
    let line := Command.Kind.spawnLine
    let after := fun p => run.dispatch .empty 4 (.ofLine .empty 10 (line p))
    (line ⟨9, 0⟩ = "Spawn(9, 0)".toList ∧
      after ⟨9, 0⟩ = { run with
        scene := ⟨{ run.scene.agent with position := ⟨9, 0⟩, spawned := true }, .empty⟩
        position := 5
        steps := 1 }) ∧
    line ⟨leastWord, 0⟩ = "Spawn(-9223372036854775808, 0)".toList ∧
    ∃ located refused : Finding, located.category = .semantic ∧ refused.category = .runtime ∧
      after ⟨leastWord, 0⟩ = { run with
        position := 5
        steps := 1
        log := #[located.at 5 (line ⟨leastWord, 0⟩), refused.at 5 (line ⟨leastWord, 0⟩)] } := by
  intro run line after
  have hlast := Run.dispatch_spawnLine .empty run 4 ⟨9, 0⟩ (by decide) (by decide)
  have hleast := Run.dispatch_spawnLine .empty run 4 ⟨leastWord, 0⟩ (by decide) (by decide)
  exact ⟨⟨by decide, hlast⟩, by decide, hleast⟩

end Brushwork

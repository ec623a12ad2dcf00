import Brushwork.Proofs.Expr.Conservation
import Brushwork.Proofs.Expr.Evaluation

/-!
# Nothing outside the grammar is accepted

Without connectives no operand is ever skipped, so a reading that gives a value has
looked at every part of its tree. Hence a tree of the reader that has a value is
the tree of a phrase, and by the conservation of tokens the phrase is written by
the tokens that were read. The invariant of the reader is that every operand it
has closed is sound: either no reading of it gives a value, or it is a phrase.
-/

namespace Brushwork

theorem atLevel_eq_ok {α : Type} {level : Nat} {x : Except Fault α} {a : α}
    (h : atLevel level x = .ok a) : x = .ok a := by
  unfold atLevel at h
  split at h
  · cases h
  · exact h

theorem map_eq_ok {ε α β : Type} {f : α → β} {x : Except ε α} {b : β} (h : x.map f = .ok b) :
    ∃ a, x = .ok a := by
  cases x with
  | error e => cases h
  | ok a => exact ⟨a, rfl⟩

theorem Sense.fromLevel_eq_ok {α : Type} {s : Sense α} {level : Nat} {a : α}
    (h : s.fromLevel level = .ok a) : s.outcome = .ok a ∧ level + s.depth ≤ deepest := by
  unfold Sense.fromLevel at h
  split at h
  · rename_i hdepth
    exact ⟨h, hdepth⟩
  · cases h

namespace Reading

/-- At some level one of the two readings gives a value. -/
def Succeeds (reading : Reading) : Prop :=
  (∃ level n, reading.number level = .ok n) ∨ ∃ level b, reading.truth level = .ok b

theorem succeeds_of_number {reading : Reading} {level : Nat} {n : Int}
    (h : reading.number level = .ok n) : reading.Succeeds :=
  .inl ⟨level, n, h⟩

theorem succeeds_ofNumber {found : Nat → Except Fault Int} (h : (ofNumber found).Succeeds) :
    ∃ level n, found level = .ok n := by
  rcases h with ⟨level, n, h⟩ | ⟨level, b, h⟩
  · exact ⟨level, n, atLevel_eq_ok h⟩
  · obtain ⟨n, hn⟩ := map_eq_ok (atLevel_eq_ok (atLevel_eq_ok h))
    exact ⟨level + 1, n, hn⟩

theorem succeeds_ofTruth {found : Nat → Except Fault Bool} (h : (ofTruth found).Succeeds) :
    ∃ level b, found level = .ok b := by
  rcases h with ⟨level, n, h⟩ | ⟨level, b, h⟩
  · obtain ⟨b, hb⟩ := map_eq_ok (atLevel_eq_ok (atLevel_eq_ok h))
    exact ⟨level + 1, b, hb⟩
  · exact ⟨level, b, atLevel_eq_ok h⟩

theorem succeeds_deeper {inner : Reading} (h : inner.deeper.Succeeds) : inner.Succeeds := by
  rcases h with ⟨level, n, h⟩ | ⟨level, b, h⟩
  · exact .inl ⟨level + 1, n, atLevel_eq_ok h⟩
  · exact .inr ⟨level + 1, b, atLevel_eq_ok h⟩

end Reading

namespace Expr

/-- Either no reading of the expression gives a value, or it is the tree of a phrase. -/
def Sound (scene : Scene) (t : Tier) (e : Expr) : Prop :=
  (e.reading scene).Succeeds → ∃ p : Phrase t, p.expr = e

variable {scene : Scene}

theorem sound_empty (t : Tier) : Sound scene t .empty := by
  rintro (⟨level, n, h⟩ | ⟨level, b, h⟩)
  · cases atLevel_eq_ok h
  · cases atLevel_eq_ok h

theorem sound_quotation (text : Text) (t : Tier) : Sound scene t (.quotation text) := by
  intro h
  obtain ⟨level, n, h⟩ := Reading.succeeds_ofNumber h
  cases h

theorem sound_unread (items : List Item) (t : Tier) : Sound scene t (.unread items) := by
  intro h
  obtain ⟨level, n, h⟩ := Reading.succeeds_ofNumber h
  cases h

theorem Sound.group {e : Expr} (he : Sound scene .either e) : Sound scene .operand (.group e) := by
  intro h
  obtain ⟨p, rfl⟩ := he (Reading.succeeds_deeper h)
  exact ⟨.group p, rfl⟩

theorem Sound.negate {e : Expr} (he : Sound scene .operand e) :
    Sound scene .operand (.negate e) := by
  intro h
  obtain ⟨level, n, h⟩ := Reading.succeeds_ofNumber h
  obtain ⟨m, hm, -⟩ := bind_eq_ok_iff.1 h
  obtain ⟨p, rfl⟩ := he (Reading.succeeds_of_number hm)
  exact ⟨.negate p, rfl⟩

/-- A value of an operation needs a value of each operand. -/
theorem succeeds_arith {op : Arith} {left right : Expr}
    (h : ((Expr.arith op left right).reading scene).Succeeds) :
    (left.reading scene).Succeeds ∧ (right.reading scene).Succeeds := by
  obtain ⟨level, n, h⟩ := Reading.succeeds_ofNumber h
  obtain ⟨a, ha, h⟩ := bind_eq_ok_iff.1 h
  obtain ⟨b, hb, -⟩ := bind_eq_ok_iff.1 h
  exact ⟨Reading.succeeds_of_number ha, Reading.succeeds_of_number hb⟩

theorem succeeds_compare {op : Comparison} {left right : Expr}
    (h : ((Expr.compare op left right).reading scene).Succeeds) :
    (left.reading scene).Succeeds ∧ (right.reading scene).Succeeds := by
  obtain ⟨level, n, h⟩ := Reading.succeeds_ofTruth h
  obtain ⟨a, ha, h⟩ := bind_eq_ok_iff.1 h
  obtain ⟨b, hb, -⟩ := bind_eq_ok_iff.1 h
  exact ⟨Reading.succeeds_of_number ha, Reading.succeeds_of_number hb⟩

/-- A node with sound operands is sound if it has no value without values of both, and phrases of
theirs make one of its own. -/
theorem Sound.join {t u v : Tier} {node : Expr → Expr → Expr} {left right : Expr}
    (hleft : Sound scene t left) (hright : Sound scene u right)
    (hparts : ((node left right).reading scene).Succeeds →
      (left.reading scene).Succeeds ∧ (right.reading scene).Succeeds)
    (hmake : ∀ (p : Phrase t) (q : Phrase u), ∃ r : Phrase v, r.expr = node p.expr q.expr) :
    Sound scene v (node left right) := by
  intro h
  obtain ⟨hl, hr⟩ := hparts h
  obtain ⟨p, rfl⟩ := hleft hl
  obtain ⟨q, rfl⟩ := hright hr
  exact hmake p q

/-- What is sound as one tier is so as another that takes its phrases. -/
theorem Sound.loosen {t u : Tier} {e : Expr} (he : Sound scene t e)
    (hup : ∀ p : Phrase t, ∃ q : Phrase u, q.expr = p.expr) : Sound scene u e := by
  intro h
  obtain ⟨p, rfl⟩ := he h
  exact hup p

end Expr

/-- A token that is no connective, or a sound operand. -/
def Item.Sound (scene : Scene) : Item → Prop
  | .token t => t.isLogical = false
  | .operand e => e.Sound scene .operand

namespace Cuts

variable {α : Type} {P : Item → Prop}

/-- Cutting makes no new items, and each cut has been accepted. -/
theorem forall_ofItems (accept : Option Item → Token → Option α) (before : Option Item)
    {items : List Item} (h : ∀ item ∈ items, P item) :
    (∀ item ∈ (ofItems accept before items).first, P item) ∧
      ∀ cut ∈ (ofItems accept before items).others,
        (∃ before t, accept before t = some cut.1) ∧ ∀ item ∈ cut.2, P item := by
  induction items generalizing before with
  | nil => simp [ofItems]
  | cons item rest ih =>
    obtain ⟨hitem, hrest⟩ := List.forall_mem_cons.1 h
    cases item with
    | operand e =>
      obtain ⟨hfirst, hothers⟩ := ih (some (.operand e)) hrest
      exact ⟨List.forall_mem_cons.2 ⟨hitem, hfirst⟩, hothers⟩
    | token t =>
      obtain ⟨hfirst, hothers⟩ := ih (some (.token t)) hrest
      cases hm : accept before t with
      | none =>
        simp only [ofItems, hm]
        exact ⟨List.forall_mem_cons.2 ⟨hitem, hfirst⟩, hothers⟩
      | some m =>
        simp only [ofItems, hm]
        exact ⟨by simp, List.forall_mem_cons.2 ⟨⟨⟨before, t, hm⟩, hfirst⟩, hothers⟩⟩

variable {accept : Option Item → Token → Option α} {scene : Scene} {t u : Tier}
  {read : List Item → Expr} {join : α → Expr → Expr → Expr} {items : List Item}

/-- A tier that joins from the left makes sound items a sound expression if the next tighter one
does, whose phrases it takes, and if its operators join phrases. -/
theorem sound_gather
    (hread : ∀ items, (∀ item ∈ items, item.Sound scene) → (read items).Sound scene u)
    (hup : ∀ p : Phrase u, ∃ q : Phrase t, q.expr = p.expr)
    (hparts : ∀ m (left right : Expr), ((join m left right).reading scene).Succeeds →
      (left.reading scene).Succeeds ∧ (right.reading scene).Succeeds)
    (hmake : ∀ before token m, accept before token = some m → ∀ (p : Phrase t) (q : Phrase u),
      ∃ r : Phrase t, r.expr = join m p.expr q.expr)
    (h : ∀ item ∈ items, item.Sound scene) :
    ((ofItems accept none items).gather read join).Sound scene t := by
  obtain ⟨hfirst, hothers⟩ := forall_ofItems accept none h
  have hleft := (hread _ hfirst).loosen hup
  refine List.foldlRecOn _ _ hleft fun left hleft cut hcut => ?_
  obtain ⟨⟨before, token, hm⟩, hpart⟩ := hothers cut hcut
  exact hleft.join (hread _ hpart) (hparts cut.1 _ _) (hmake before token cut.1 hm)

/-- A tier that joins from the right is sound in the same way. -/
theorem sound_gatherRight
    (hread : ∀ items, (∀ item ∈ items, item.Sound scene) → (read items).Sound scene u)
    (hup : ∀ p : Phrase u, ∃ q : Phrase t, q.expr = p.expr)
    (hparts : ∀ m (left right : Expr), ((join m left right).reading scene).Succeeds →
      (left.reading scene).Succeeds ∧ (right.reading scene).Succeeds)
    (hmake : ∀ m (p : Phrase u) (q : Phrase t), ∃ r : Phrase t, r.expr = join m p.expr q.expr)
    (h : ∀ item ∈ items, item.Sound scene) :
    ((ofItems accept none items).gatherRight read join).Sound scene t := by
  obtain ⟨hfirst, hothers⟩ := forall_ofItems accept none h
  unfold gatherRight
  generalize (ofItems accept none items).others = others at hothers
  generalize (ofItems accept none items).first = first at hfirst
  induction others generalizing first with
  | nil => exact (hread first hfirst).loosen hup
  | cons cut rest ih =>
    obtain ⟨⟨-, hpart⟩, hrest⟩ := List.forall_mem_cons.1 hothers
    exact (hread first hfirst).join (ih hrest cut.2 hpart) (hparts cut.1 _ _) (hmake cut.1)

/-- Items without connectives are whole to the tiers of the connectives. -/
theorem uncut_of_sound (which : Token) (hwhich : which.isLogical = true)
    (before : Option Item) {items : List Item} (h : ∀ item ∈ items, item.Sound scene) :
    Uncut (acceptOnly which) before items := by
  induction items generalizing before with
  | nil => trivial
  | cons item rest ih =>
    obtain ⟨hitem, hrest⟩ := List.forall_mem_cons.1 h
    cases item with
    | operand e => exact ih _ hrest
    | token t =>
      have hne : t ≠ which := by
        rintro rfl
        exact Bool.false_ne_true (hitem.symm.trans hwhich)
      exact ⟨if_neg hne, ih _ hrest⟩

end Cuts

namespace Expr

variable {scene : Scene} {items : List Item}

theorem sound_ofOperand (h : ∀ item ∈ items, item.Sound scene) :
    (ofOperand items).Sound scene .operand := by
  fun_induction ofOperand items with
  | case1 => exact sound_empty _
  | case2 rest ih => exact (ih (List.forall_mem_cons.1 h).2).negate
  | case3 n => exact fun _ => ⟨.number n, rfl⟩
  | case4 t => exact fun _ => ⟨.name t, rfl⟩
  | case5 t => exact sound_quotation t _
  | case6 b => exact fun _ => ⟨.truth b, rfl⟩
  | case7 e => exact h (.operand e) List.mem_cons_self
  | case8 items => exact sound_unread items _

theorem sound_ofPower (h : ∀ item ∈ items, item.Sound scene) :
    (ofPower items).Sound scene .power := by
  apply Cuts.sound_gather (fun _ => sound_ofOperand) (fun p => ⟨.ofOperand p, rfl⟩)
    (fun _ _ _ => succeeds_arith) _ h
  intro before token op hop p q
  obtain ⟨-, rfl⟩ := eq_of_powerOperator hop
  exact ⟨.power p q, rfl⟩

theorem sound_ofProduct (h : ∀ item ∈ items, item.Sound scene) :
    (ofProduct items).Sound scene .product :=
  Cuts.sound_gather (fun _ => sound_ofPower) (fun p => ⟨.ofPower p, rfl⟩)
    (fun _ _ _ => succeeds_arith)
    (fun _ _ op hop p q => ⟨.product op (eq_of_productOperator hop).2 p q, rfl⟩) h

theorem sound_ofSum (h : ∀ item ∈ items, item.Sound scene) : (ofSum items).Sound scene .sum :=
  Cuts.sound_gather (fun _ => sound_ofProduct) (fun p => ⟨.ofProduct p, rfl⟩)
    (fun _ _ _ => succeeds_arith)
    (fun _ _ op hop p q => ⟨.sum op (eq_of_sumOperator hop).2 p q, rfl⟩) h

theorem sound_ofComparison (h : ∀ item ∈ items, item.Sound scene) :
    (ofComparison items).Sound scene .comparison :=
  Cuts.sound_gatherRight (fun _ => sound_ofSum) (fun p => ⟨.ofSum p, rfl⟩)
    (fun _ _ _ => succeeds_compare) (fun op p q => ⟨.compare op p q, rfl⟩) h

/-- Items without connectives form a sound expression. -/
theorem sound_ofItems (h : ∀ item ∈ items, item.Sound scene) :
    (ofItems items).Sound scene .either := by
  have heither : ofItems items = ofBoth items :=
    (Cuts.uncut_of_sound .either rfl none h).gather_eq
  have hboth : ofBoth items = ofComparison items :=
    (Cuts.uncut_of_sound .both rfl none h).gather_eq
  rw [heither, hboth]
  exact (sound_ofComparison h).loosen fun p => ⟨.ofBoth (.ofComparison p), rfl⟩

end Expr

theorem Query.name_of_ofName? {t : Text} {query : Query} (h : Query.ofName? t = some query) :
    query.name = t := by
  have hfound := List.find?_some h
  exact eq_of_beq hfound

theorem exists_of_colorArgument {e : Expr} {t : Text} (h : colorArgument e = .ok t) :
    ∃ color : ColorWord, color.expr = e := by
  cases e with
  | quotation text => exact ⟨.quoted text, rfl⟩
  | name text => exact ⟨.bare text, rfl⟩
  | _ => cases h

/-- An answered query has the right number of arguments, a color where it needs one, and a value
for each of the others. -/
theorem Expr.sound_call {scene : Scene} (f : Text) {arguments : List Expr}
    (h : ∀ e ∈ arguments, e.Sound scene .either) :
    Expr.Sound scene .operand (.call f arguments) := by
  intro hcall
  obtain ⟨level, n, hcall⟩ := Reading.succeeds_ofNumber hcall
  cases hquery : Query.ofName? f with
  | none => simp [hquery] at hcall
  | some query =>
    obtain rfl := Query.name_of_ofName? hquery
    simp only [hquery] at hcall
    have hphrase : ∀ e ∈ arguments, ∀ m, (e.reading scene).number (level + 2) = .ok m →
        ∃ p : Phrase .either, p.expr = e := by
      intro e he m hm
      exact h e he (Reading.succeeds_of_number hm)
    cases query with
    | actualX =>
      match arguments, hcall with
      | [], _ => exact ⟨.actualX, rfl⟩
    | actualY =>
      match arguments, hcall with
      | [], _ => exact ⟨.actualY, rfl⟩
    | canvasSize =>
      match arguments, hcall with
      | [], _ => exact ⟨.canvasSize, rfl⟩
    | brushColor =>
      match arguments, hcall with
      | [color], hcall =>
        obtain ⟨name, hname, -⟩ := bind_eq_ok_iff.1 hcall
        obtain ⟨word, rfl⟩ := exists_of_colorArgument hname
        exact ⟨.brushColor word, rfl⟩
    | brushSize =>
      match arguments, hcall with
      | [size], hcall =>
        obtain ⟨m, hm, -⟩ := bind_eq_ok_iff.1 hcall
        obtain ⟨p, rfl⟩ := hphrase size (by simp) m hm
        exact ⟨.brushSize p, rfl⟩
    | canvasColor =>
      match arguments, hcall with
      | [color, vertical, horizontal], hcall =>
        obtain ⟨name, hname, hcall⟩ := bind_eq_ok_iff.1 hcall
        obtain ⟨dy, hdy, hcall⟩ := bind_eq_ok_iff.1 hcall
        obtain ⟨dx, hdx, -⟩ := bind_eq_ok_iff.1 hcall
        obtain ⟨word, rfl⟩ := exists_of_colorArgument hname
        obtain ⟨p, rfl⟩ := hphrase vertical (by simp) dy hdy
        obtain ⟨q, rfl⟩ := hphrase horizontal (by simp) dx hdx
        exact ⟨.canvasColor word p q, rfl⟩
    | colorCount =>
      match arguments, hcall with
      | [color, x₁, y₁, x₂, y₂], hcall =>
        obtain ⟨name, hname, hcall⟩ := bind_eq_ok_iff.1 hcall
        obtain ⟨a, ha, hcall⟩ := bind_eq_ok_iff.1 hcall
        obtain ⟨b, hb, hcall⟩ := bind_eq_ok_iff.1 hcall
        obtain ⟨c, hc, hcall⟩ := bind_eq_ok_iff.1 hcall
        obtain ⟨d, hd, -⟩ := bind_eq_ok_iff.1 hcall
        obtain ⟨word, rfl⟩ := exists_of_colorArgument hname
        obtain ⟨p₁, rfl⟩ := hphrase x₁ (by simp) a ha
        obtain ⟨q₁, rfl⟩ := hphrase y₁ (by simp) b hb
        obtain ⟨p₂, rfl⟩ := hphrase x₂ (by simp) c hc
        obtain ⟨q₂, rfl⟩ := hphrase y₂ (by simp) d hd
        exact ⟨.colorCount word p₁ q₁ p₂ q₂, rfl⟩

theorem forall_commaParts {P : Item → Prop} {items : List Item} (h : ∀ item ∈ items, P item) :
    ∀ part ∈ commaParts items, ∀ item ∈ part, P item := by
  intro part hpart
  unfold commaParts at hpart
  split at hpart
  · cases hpart
  · obtain ⟨hfirst, hothers⟩ := Cuts.forall_ofItems (acceptOnly .comma) none h
    rcases List.mem_cons.1 hpart with rfl | hpart
    · exact hfirst
    · obtain ⟨cut, hcut, rfl⟩ := List.mem_map.1 hpart
      exact (hothers cut hcut).2

namespace Progress

def Sound (scene : Scene) : Progress → Prop
  | .inside outer items =>
    (∀ before ∈ outer, ∀ item ∈ before, item.Sound scene) ∧ ∀ item ∈ items, item.Sound scene
  | .astray before _ _ => ∀ item ∈ before, item.Sound scene

variable {scene : Scene}

theorem sound_ofLost (tokens : List Token) : (Item.ofLost tokens).Sound scene :=
  Expr.sound_unread _ _

/-- Parentheses around sound items make a sound operand. -/
theorem sound_close {before inner : List Item} (hbefore : ∀ item ∈ before, item.Sound scene)
    (hinner : ∀ item ∈ inner, item.Sound scene) :
    ∀ item ∈ close before inner, item.Sound scene := by
  unfold close
  split
  · rename_i query rest
    have harguments : ∀ e ∈ (commaParts inner).map Expr.ofItems, e.Sound scene .either := by
      intro e he
      obtain ⟨part, hpart, rfl⟩ := List.mem_map.1 he
      exact Expr.sound_ofItems (forall_commaParts hinner part hpart)
    exact List.forall_mem_cons.2
      ⟨Expr.sound_call query harguments, (List.forall_mem_cons.1 hbefore).2⟩
  · exact List.forall_mem_cons.2 ⟨(Expr.sound_ofItems hinner).group, hbefore⟩

theorem Sound.step {progress : Progress} (h : progress.Sound scene) {token : Token}
    (htoken : token.isLogical = false) : (progress.step token).Sound scene := by
  unfold Progress.step
  split
  · exact ⟨List.forall_mem_cons.2 ⟨h.2, h.1⟩, by simp⟩
  · obtain ⟨hbefore, houter⟩ := List.forall_mem_cons.1 h.1
    exact ⟨houter, sound_close hbefore fun item hitem => h.2 item (List.mem_reverse.1 hitem)⟩
  · exact h.2
  · exact ⟨h.1, List.forall_mem_cons.2 ⟨htoken, h.2⟩⟩
  · exact ⟨by simp, List.forall_mem_cons.2 ⟨sound_ofLost _, h⟩⟩
  · exact h
  · exact h
  · exact h

theorem Sound.foldl_step {progress : Progress} (h : progress.Sound scene) {tokens : List Token}
    (htokens : ∀ token ∈ tokens, token.isLogical = false) :
    (tokens.foldl Progress.step progress).Sound scene := by
  induction tokens generalizing progress with
  | nil => exact h
  | cons token rest ih =>
    obtain ⟨htoken, hrest⟩ := List.forall_mem_cons.1 htokens
    exact ih (h.step htoken) hrest

theorem sound_append_ofLost {before : List Item} (h : ∀ item ∈ before, item.Sound scene)
    (tokens : List Token) : ∀ item ∈ before.reverse ++ [.ofLost tokens], item.Sound scene := by
  intro item hitem
  rcases List.mem_append.1 hitem with hitem | hitem
  · exact h item (List.mem_reverse.1 hitem)
  · rw [List.mem_singleton.1 hitem]
    exact sound_ofLost tokens

theorem sound_unclosed {outer : List (List Item)} {before : List Item}
    (houter : ∀ before ∈ outer, ∀ item ∈ before, item.Sound scene)
    (hbefore : ∀ item ∈ before, item.Sound scene) (tokens : List Token) :
    ∀ item ∈ unclosed tokens before outer, item.Sound scene := by
  induction outer generalizing before tokens with
  | nil => exact sound_append_ofLost hbefore tokens
  | cons next outer ih =>
    obtain ⟨hnext, hrest⟩ := List.forall_mem_cons.1 houter
    exact ih hrest hnext _

theorem Sound.finish {progress : Progress} (h : progress.Sound scene) :
    ∀ item ∈ progress.finish, item.Sound scene := by
  unfold Progress.finish
  split
  · exact fun item hitem => h.2 item (List.mem_reverse.1 hitem)
  · obtain ⟨hbefore, houter⟩ := List.forall_mem_cons.1 h.1
    exact sound_unclosed houter hbefore _
  · exact sound_append_ofLost h _

end Progress

theorem Expr.sound_ofTokens (scene : Scene) {tokens : List Token}
    (h : ∀ token ∈ tokens, token.isLogical = false) :
    (Expr.ofTokens tokens).Sound scene .either := by
  have hstart : (Progress.inside [] []).Sound scene := ⟨by simp, by simp⟩
  exact Expr.sound_ofItems (hstart.foldl_step h).finish

theorem Phrase.tokens_expr {t : Tier} (p : Phrase t) : p.expr.tokens = p.tokens := by
  have hcolor : ∀ color : ColorWord, color.expr.tokens = [color.token] := by
    intro color
    cases color <;> rfl
  induction p with
  | number | name | truth => rfl
  | actualX | actualY | canvasSize => rfl
  | brushColor color => simp [expr, tokens, queryTokens, hcolor]
  | brushSize size ih => simp [expr, tokens, queryTokens, ih]
  | canvasColor color vertical horizontal ihv ihh =>
    simp [expr, tokens, queryTokens, hcolor, ihv, ihh]
  | colorCount color x₁ y₁ x₂ y₂ ihx₁ ihy₁ ihx₂ ihy₂ =>
    simp [expr, tokens, queryTokens, hcolor, ihx₁, ihy₁, ihx₂, ihy₂]
  | group inner ih | negate inner ih => simp [expr, tokens, ih]
  | power left right ihl ihr | product op hop left right ihl ihr | sum op hop left right ihl ihr
  | compare op left right ihl ihr | both left right ihl ihr | either left right ihl ihr =>
    simp [expr, tokens, ihl, ihr]
  | ofOperand inner ih | ofPower inner ih | ofProduct inner ih | ofSum inner ih
  | ofComparison inner ih | ofBoth inner ih => exact ih

namespace Token

/-- Whether the parentheses of tokens match when so many are open before them. -/
def closesAll : (depth : Nat) → List Token → Bool
  | depth, [] => depth == 0
  | depth, .opening :: rest => closesAll (depth + 1) rest
  | 0, .closing :: _ => false
  | depth + 1, .closing :: rest => closesAll depth rest
  | depth, _ :: rest => closesAll depth rest

/-- Whether no parenthesis closes before it opens, and none stays open. -/
def balanced (tokens : List Token) : Bool := closesAll 0 tokens

/-- Tokens that leave the open parentheses as they are. -/
def Neutral (tokens : List Token) : Prop :=
  ∀ depth rest, closesAll depth (tokens ++ rest) = closesAll depth rest

theorem neutral_nil : Neutral [] := fun _ _ => rfl

theorem neutral_singleton (token : Token) (h : token.isParenthesis = false) :
    Neutral [token] := by
  intro depth rest
  cases token with
  | opening | closing => cases h
  | _ => cases depth <;> rfl

theorem Neutral.append {a b : List Token} (ha : Neutral a) (hb : Neutral b) : Neutral (a ++ b) := by
  intro depth rest
  rw [List.append_assoc, ha, hb]

theorem Neutral.around {a b : List Token} (ha : Neutral a) (token : Token)
    (h : token.isParenthesis = false) (hb : Neutral b) : Neutral (a ++ token :: b) :=
  ha.append ((neutral_singleton token h).append hb)

theorem Neutral.group {a : List Token} (ha : Neutral a) :
    Neutral (.opening :: (a ++ [.closing])) := by
  intro depth rest
  simp [closesAll, ha (depth + 1)]

theorem neutral_intercalate {parts : List (List Token)} (h : ∀ part ∈ parts, Neutral part) :
    Neutral ([.comma].intercalate parts) := by
  induction parts with
  | nil => exact neutral_nil
  | cons first rest ih =>
    obtain ⟨hfirst, hrest⟩ := List.forall_mem_cons.1 h
    cases rest with
    | nil => simpa using hfirst
    | cons second rest =>
      simpa [List.intercalate_cons_cons] using hfirst.around .comma rfl (ih hrest)

theorem neutral_query (query : Query) {arguments : List (List Token)}
    (h : ∀ argument ∈ arguments, Neutral argument) :
    Neutral (Phrase.queryTokens query arguments) :=
  (neutral_singleton (.name query.name) rfl).append (neutral_intercalate h).group

end Token

theorem Phrase.neutral_tokens {t : Tier} (p : Phrase t) : Token.Neutral p.tokens := by
  have hcolor : ∀ color : ColorWord, Token.Neutral [color.token] := by
    intro color
    cases color <;> exact Token.neutral_singleton _ rfl
  induction p with
  | number | name | truth => exact Token.neutral_singleton _ rfl
  | actualX | actualY | canvasSize => exact Token.neutral_query _ (by simp)
  | brushColor color => exact Token.neutral_query _ (by simp [hcolor])
  | brushSize size ih => exact Token.neutral_query _ (by simp [ih])
  | canvasColor color vertical horizontal ihv ihh =>
    exact Token.neutral_query _ (by simp [hcolor, ihv, ihh])
  | colorCount color x₁ y₁ x₂ y₂ ihx₁ ihy₁ ihx₂ ihy₂ =>
    exact Token.neutral_query _ (by simp [hcolor, ihx₁, ihy₁, ihx₂, ihy₂])
  | group inner ih => exact ih.group
  | negate inner ih => exact Token.neutral_nil.around _ rfl ih
  | power left right ihl ihr | product op hop left right ihl ihr | sum op hop left right ihl ihr
  | compare op left right ihl ihr | both left right ihl ihr | either left right ihl ihr =>
    exact ihl.around _ rfl ihr
  | ofOperand inner ih | ofPower inner ih | ofProduct inner ih | ofSum inner ih
  | ofComparison inner ih | ofBoth inner ih => exact ih

theorem Phrase.balanced_tokens {t : Tier} (p : Phrase t) : Token.balanced p.tokens = true := by
  have h := p.neutral_tokens 0 []
  rwa [List.append_nil] at h

/-- Tokens without connectives of which a reading gives a value are written by a phrase. -/
theorem Scene.exists_phrase (scene : Scene) {tokens : List Token}
    (h : ∀ token ∈ tokens, token.isLogical = false)
    (hsucceeds : ((Expr.ofTokens tokens).reading scene).Succeeds) :
    ∃ p : Phrase .either, p.tokens = tokens ∧
      ((Expr.ofTokens tokens).reading scene).Finds (p.meaning scene) := by
  obtain ⟨p, hp⟩ := Expr.sound_ofTokens scene h hsucceeds
  refine ⟨p, ?_, ?_⟩
  · rw [← p.tokens_expr, hp, Expr.tokens_ofTokens]
  · rw [← hp]
    exact p.finds_meaning scene

/-- Tokens without connectives that have a value are the tokens of a phrase, all of them and in
their order, with matching parentheses; and the value is what the phrase means. -/
theorem Scene.accepts_only_phrases (scene : Scene) (tokens : List Token) (level : Nat)
    (h : ∀ token ∈ tokens, token.isLogical = false) :
    (∀ n, scene.number tokens level = .ok n → Token.balanced tokens = true ∧
      ∃ p : Phrase .either, p.tokens = tokens ∧ (p.meaning scene).number.outcome = .ok n ∧
        level + (p.meaning scene).number.depth ≤ deepest) ∧
    (∀ b, scene.truth tokens level = .ok b → Token.balanced tokens = true ∧
      ∃ p : Phrase .either, p.tokens = tokens ∧ (p.meaning scene).truth.outcome = .ok b ∧
        level + (p.meaning scene).truth.depth ≤ deepest) := by
  constructor
  · intro n hn
    obtain ⟨p, rfl, hfinds⟩ := scene.exists_phrase h (.inl ⟨level, n, hn⟩)
    have hmeaning := (hfinds.number level).symm.trans hn
    exact ⟨p.balanced_tokens, p, rfl, Sense.fromLevel_eq_ok hmeaning⟩
  · intro b hb
    obtain ⟨p, rfl, hfinds⟩ := scene.exists_phrase h (.inr ⟨level, b, hb⟩)
    have hmeaning := (hfinds.truth level).symm.trans hb
    exact ⟨p.balanced_tokens, p, rfl, Sense.fromLevel_eq_ok hmeaning⟩

/-- `(1 + 2) * -GetCanvasSize() < 4`. -/
theorem Scene.accepts_only_phrases_signed :
    ∃ p : Phrase .either,
      p.tokens = [.opening, .number 1, .arith .add, .number 2, .closing, .arith .mul, .arith .sub,
        .name "GetCanvasSize".toList, .opening, .closing, .compare .lt, .number 4] ∧
      (∀ token ∈ p.tokens, token.isLogical = false) ∧ Token.balanced p.tokens = true ∧
      (p.meaning ⟨.fresh 10, .empty⟩).truth.outcome = .ok true := by
  have hvalue : Scene.truth ⟨.fresh 10, .empty⟩ [.opening, .number 1, .arith .add, .number 2,
      .closing, .arith .mul, .arith .sub, .name "GetCanvasSize".toList, .opening, .closing,
      .compare .lt, .number 4] 0 = .ok true := rfl
  have hplain : ∀ token ∈ [Token.opening, .number 1, .arith .add, .number 2, .closing, .arith .mul,
      .arith .sub, .name "GetCanvasSize".toList, .opening, .closing, .compare .lt, .number 4],
      token.isLogical = false := by decide
  obtain ⟨hbalanced, p, htokens, hmeaning, -⟩ :=
    (Scene.accepts_only_phrases ⟨.fresh 10, .empty⟩ _ 0 hplain).2 true hvalue
  exact ⟨p, htokens, htokens ▸ hplain, htokens ▸ hbalanced, hmeaning⟩

end Brushwork

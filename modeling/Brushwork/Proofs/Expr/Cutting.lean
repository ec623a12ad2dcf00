import Brushwork.Expr.Tier
import Brushwork.Proofs.Expr.Grammar

/-!
# Cutting items

Where a list of items is cut depends on each token and on the item right before
it. So the cuts of two lists with an accepted token between them are those of
both, and that token's; and a list in which no token is accepted stays whole. What a
tier accepts tells the token it was.
-/

namespace Brushwork

theorem eq_of_acceptOnly {which t : Token} {before : Option Item} {m : Unit}
    (h : acceptOnly which before t = some m) : which = t := by
  unfold acceptOnly at h
  split at h
  · rename_i heq
    exact heq.symm
  · cases h

theorem eq_of_comparisonOperator {before : Option Item} {t : Token} {op : Comparison}
    (h : comparisonOperator before t = some op) : .compare op = t := by
  cases t with
  | compare op' => cases h; rfl
  | _ => cases h

theorem eq_of_sumOperator {before : Option Item} {t : Token} {op : Arith}
    (h : sumOperator before t = some op) : .arith op = t ∧ op.tier = .sum := by
  unfold sumOperator at h
  split at h
  · cases h
    exact ⟨rfl, rfl⟩
  · split at h
    · cases h
      exact ⟨rfl, rfl⟩
    · cases h
  · cases h

theorem eq_of_productOperator {before : Option Item} {t : Token} {op : Arith}
    (h : productOperator before t = some op) : .arith op = t ∧ op.tier = .product := by
  unfold productOperator at h
  split at h <;> cases h <;> exact ⟨rfl, rfl⟩

theorem eq_of_powerOperator {before : Option Item} {t : Token} {op : Arith}
    (h : powerOperator before t = some op) : .arith op = t ∧ op = .pow := by
  unfold powerOperator at h
  split at h <;> cases h
  exact ⟨rfl, rfl⟩

namespace Cuts

variable {α : Type} {accept : Option Item → Token → Option α} {before : Option Item}
variable {a b : List Item} {t : Token} {mark : α}

/-- No token of the items is accepted, given the item before them. -/
def Uncut (accept : Option Item → Token → Option α) : Option Item → List Item → Prop
  | _, [] => True
  | _, .operand e :: rest => Uncut accept (some (.operand e)) rest
  | before, .token t :: rest => accept before t = none ∧ Uncut accept (some (.token t)) rest

theorem Uncut.ofItems_eq (h : Uncut accept before a) : ofItems accept before a = ⟨a, []⟩ := by
  induction a generalizing before with
  | nil => rfl
  | cons item rest ih =>
    cases item with
    | operand e => simp [ofItems, ih h]
    | token t => simp [ofItems, h.1, ih h.2]

/-- A token that is refused after every item keeps two whole lists together. -/
theorem Uncut.append (ha : Uncut accept before a) (ht : ∀ item, accept item t = none)
    (hb : Uncut accept (some (.token t)) b) : Uncut accept before (a ++ .token t :: b) := by
  induction a generalizing before with
  | nil => exact ⟨ht before, hb⟩
  | cons item rest ih =>
    cases item with
    | operand e => exact ih ha
    | token t => exact ⟨ha.1, ih ha.2⟩

theorem ofItems_append (ht : accept (a.getLast?.or before) t = some mark) :
    ofItems accept before (a ++ .token t :: b) =
      ⟨(ofItems accept before a).first, (ofItems accept before a).others ++
        (mark, (ofItems accept (some (.token t)) b).first) ::
          (ofItems accept (some (.token t)) b).others⟩ := by
  induction a generalizing before with
  | nil =>
    have ht : accept before t = some mark := by simpa using ht
    simp [ofItems, ht]
  | cons item rest ih =>
    have ht : accept (rest.getLast?.or (some item)) t = some mark := by
      simpa [List.getLast?_cons] using ht
    cases item with
    | operand e => simp [ofItems, ih ht]
    | token u =>
      cases hu : accept before u with
      | none => simp [ofItems, hu, ih ht]
      | some m => simp [ofItems, hu, ih ht]

variable {read : List Item → Expr} {join : α → Expr → Expr → Expr}

theorem Uncut.gather_eq (h : Uncut accept before a) :
    (ofItems accept before a).gather read join = read a := by
  simp [gather, h.ofItems_eq]

theorem Uncut.gatherRight_eq (h : Uncut accept before a) :
    (ofItems accept before a).gatherRight read join = read a := by
  simp [gatherRight, gatherRightFrom, h.ofItems_eq]

/-- Joining from the left ends with the last cut. -/
theorem gather_append (ht : accept (a.getLast?.or before) t = some mark)
    (hb : Uncut accept (some (.token t)) b) :
    (ofItems accept before (a ++ .token t :: b)).gather read join =
      join mark ((ofItems accept before a).gather read join) (read b) := by
  simp [gather, ofItems_append ht, hb.ofItems_eq]

/-- Joining from the right ends with the first cut. -/
theorem gatherRight_append (ha : Uncut accept before a)
    (ht : accept (a.getLast?.or before) t = some mark) :
    (ofItems accept before (a ++ .token t :: b)).gatherRight read join =
      join mark (read a) ((ofItems accept (some (.token t)) b).gatherRight read join) := by
  simp [gatherRight, gatherRightFrom, ofItems_append ht, ha.ofItems_eq]

theorem parts_append (ha : Uncut accept before a)
    (ht : accept (a.getLast?.or before) t = some mark) :
    (ofItems accept before (a ++ .token t :: b)).parts =
      a :: (ofItems accept (some (.token t)) b).parts := by
  simp [parts, ofItems_append ht, ha.ofItems_eq]

/-- Where the item before a token plays no role, nor does the item before a list. -/
theorem ofItems_before (h : ∀ before before' t, accept before t = accept before' t)
    (before before' : Option Item) (items : List Item) :
    ofItems accept before items = ofItems accept before' items := by
  cases items with
  | nil => rfl
  | cons item rest =>
    cases item with
    | operand e => rfl
    | token t => simp only [ofItems, h before before' t]

end Cuts

end Brushwork

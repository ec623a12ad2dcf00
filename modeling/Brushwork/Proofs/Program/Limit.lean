import Brushwork.Program.Run
import Brushwork.Proofs.Command.Frame
import Brushwork.Proofs.Inspection.Static

/-!
# Only a broken limit is worded as one

A diagnostic is known by its text alone. No inspection, no refused label and no
refused command has a text like that of a broken step limit: all their texts open
differently, and none of them is about a limit.
-/

namespace Brushwork

def Fault.isLimit : Fault → Bool
  | .stepLimit _ => true
  | _ => false

theorem Fault.isLimit_of_ofForm {fault : Fault} (h : fault.ofForm = true) :
    fault.isLimit = false := by
  cases fault with
  | stepLimit => cases h
  | _ => rfl

theorem Fault.isLimit_of_ofEffect {fault : Fault} (h : fault.ofEffect = true) :
    fault.isLimit = false := by
  cases fault with
  | stepLimit => cases h
  | _ => rfl

/-- The diagnostic has the text of a broken step limit. -/
def Diagnostic.TellsLimit (d : Diagnostic) : Prop :=
  ∃ limit, d.message = (Fault.stepLimit limit).message

/-- The first two characters of a text, which are enough to tell a broken limit from all else. -/
def opening (s : String) : Text := s.toList.take 2

theorem opening_ofList (c d : Char) (rest : Text) :
    opening (String.ofList (c :: d :: rest)) = [c, d] := by
  simp [opening]

theorem opening_append (c d : Char) (rest : Text) (s : String) :
    opening (String.ofList (c :: d :: rest) ++ s) = [c, d] := by
  simp [opening]

theorem opening_limit (limit : Nat) : opening (Fault.stepLimit limit).message = ['s', 't'] := by
  unfold Fault.message
  simp only [String.append_assoc]
  exact opening_append 's' 't' _ _

theorem Fault.unreadable_eq (detail : String) :
    Fault.unreadable detail = "invalid expression: '" ++ (detail ++ "'") := by
  delta Fault.unreadable
  rw [String.append_assoc]

/-- The wording of a fault opens with a small letter, and unlike that of a broken limit if it is
none. -/
theorem Fault.opening_message (fault : Fault) :
    (opening fault.message).head?.any Char.isLower = true ∧
      (fault.isLimit = false → opening fault.message ≠ ['s', 't']) := by
  unfold Fault.message
  cases fault with
  | stepLimit limit =>
    simp only [String.append_assoc]
    rw [opening_append]
    exact ⟨by decide, fun h => by cases h⟩
  | negativeLength length value =>
    unfold Length.title
    cases length <;> simp only [String.append_assoc] <;> rw [opening_append] <;>
      exact ⟨by decide, fun _ => by decide⟩
  | divideByZero | overflow | nestedTooDeeply | transparentFill =>
    rw [opening_ofList]
    exact ⟨by decide, fun _ => by decide⟩
  | _ =>
    simp only [String.append_assoc, Fault.unreadable_eq]
    rw [opening_append]
    exact ⟨by decide, fun _ => by decide⟩

/-- The text of the finding does not open like that of a broken limit. -/
def Finding.Plain (finding : Finding) : Prop := opening finding.message ≠ ['s', 't']

theorem Fault.plain_finding {fault : Fault} (h : fault.isLimit = false) : fault.finding.Plain :=
  fault.opening_message.2 h

namespace Inspection

theorem IsStatic.plain {finding : Finding} (h : IsStatic finding) : finding.Plain := by
  cases h with
  | malformed | unknownColor => exact Fault.plain_finding rfl
  | _ => simp [Finding.Plain, formFinding, referenceFinding, opening, quoted]

theorem plain_static (labels : Labels) (size : Nat) (line : Text) :
    ∀ f ∈ static labels size line, f.Plain :=
  fun _ hf => (isStatic_of_mem hf).plain

theorem plain_kindReadiness (spawned : Bool) (kind : Command.Kind) :
    ∀ f ∈ kindReadiness spawned kind, f.Plain := by
  have hkeyword : ∃ c d rest, kind.keyword = c :: d :: rest ∧ [c, d] ≠ ['s', 't'] := by
    cases kind <;> exact ⟨_, _, _, rfl, by decide⟩
  obtain ⟨c, d, rest, hkeyword, hne⟩ := hkeyword
  intro f hf
  simp only [kindReadiness] at hf
  split at hf
  · rw [List.mem_singleton.1 hf, Finding.Plain, hkeyword, opening_append]
    exact hne
  · cases hf

end Inspection

namespace Step

theorem plain_withFault {findings : List Finding} (h : ∀ f ∈ findings, f.Plain) {fault : Fault}
    (hfault : fault.isLimit = false) : ∀ f ∈ withFault findings fault, f.Plain := by
  unfold withFault
  split
  · exact h
  · intro f hf
    rcases List.mem_append.1 hf with hf | hf
    · exact h f hf
    · rw [List.mem_singleton.1 hf]
      exact Fault.plain_finding hfault

theorem plain_ofCommand (labels : Labels) (scene : Scene) (position : Nat)
    {findings : List Finding} (h : ∀ f ∈ findings, f.Plain) (kind : Command.Kind) (line : Text) :
    ∀ f ∈ (ofCommand labels scene position findings (Command.ofLine kind line)).findings,
      f.Plain := by
  have hrun : RefusedFor (fun fault => fault.isLimit = false)
      (Command.process labels scene kind line).2 := by
    unfold Command.process
    cases hcommand : Command.ofLine kind line with
    | ok command =>
      have hrefused := Command.run_refused labels scene (Command.isFreeName_of_ofLine hcommand)
      exact hrefused.mono fun _ => Fault.isLimit_of_ofEffect
    | error fault =>
      have hform := Command.ofLine_refused kind line fault hcommand
      exact refusedFor_error (Fault.isLimit_of_ofForm hform)
  unfold ofCommand
  split
  · exact h
  · exact h
  · exact h
  · rename_i fault heq
    exact plain_withFault h (hrun fault (congrArg Prod.snd heq))

/-- Nothing that is said against a statement is worded like a broken limit. -/
theorem plain_ofStatement (labels : Labels) (scene : Scene) (position size : Nat) (line : Text) :
    ∀ f ∈ (ofStatement labels scene position (.ofLine labels size line)).findings, f.Plain := by
  have hstatic := Inspection.plain_static labels size line
  unfold ofStatement
  split
  · rename_i hcommand
    intro f hf
    rcases List.mem_append.1 hf with hf | hf
    · exact hstatic f hf
    · split at hf
      · rw [List.mem_singleton.1 hf, Finding.Plain, Statement.unrecognized, opening_append]
        decide
      · cases hf
  · rename_i kind command hcommand
    obtain ⟨kind', -, hparts⟩ := Option.map_eq_some_iff.1 hcommand
    cases hparts
    refine plain_ofCommand labels scene position (fun f hf => ?_) kind line
    rcases List.mem_append.1 hf with hf | hf
    · exact hstatic f hf
    · exact Inspection.plain_kindReadiness _ _ f hf

end Step

theorem Diagnostic.not_tellsLimit {d : Diagnostic} (h : opening d.message ≠ ['s', 't']) :
    ¬ d.TellsLimit := by
  rintro ⟨limit, hmessage⟩
  exact h (hmessage ▸ opening_limit limit)

theorem Labels.declare_refused (labels : Labels) (name : Text) (line : Nat) :
    RefusedFor (fun fault => fault.isLimit = false) (labels.declare name line) := by
  unfold declare
  split
  · exact refusedFor_error rfl
  · split
    · exact refusedFor_error rfl
    · exact refusedFor_ok _

theorem not_tellsLimit_of_mem_declareLabels {lines : List Text} (labels : Labels) (position : Nat)
    {d : Diagnostic} (h : d ∈ (declareLabels labels position lines).2) : ¬ d.TellsLimit := by
  induction lines generalizing labels position with
  | nil => cases h
  | cons line rest ih =>
    simp only [declareLabels] at h
    split at h
    · exact ih labels (position + 1) h
    · rename_i name _
      split at h
      · exact ih _ (position + 1) h
      · rename_i fault hfault
        rcases List.mem_cons.1 h with rfl | h
        · have hlimit := labels.declare_refused name position fault hfault
          exact Diagnostic.not_tellsLimit (fault.opening_message.2 hlimit)
        · exact ih labels (position + 1) h

end Brushwork

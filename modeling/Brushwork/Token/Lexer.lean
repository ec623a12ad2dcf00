import Brushwork.Text.Name
import Brushwork.Token.Basic

/-!
# Reading tokens

Blanks separate tokens and are otherwise skipped. Names may hold hyphens, which
also subtract: a run of name characters may be cut before any of its hyphens, and
the longest of the possible names that is a known variable is taken, or the
shortest if none is known. What is known can be given as a predicate, `scan`, or
as a list, `scanAmong`; `scanAmong_eq` says that the two read alike.
-/

namespace Brushwork.Token

inductive ScanFault where
  | numeral
  | unclosed
  | stray (c : Char)
  deriving DecidableEq

/-- Whether a name can end before a text: before a hyphen always, and at the end of a run of name
characters unless the last of them is a hyphen. -/
def canEnd (afterHyphen : Bool) : Text → Bool
  | [] => !afterHyphen
  | c :: _ => c == '-' || !afterHyphen && !isNameChar c

/-- The longest text with which `t` begins, at whose end a name can end, and that makes a variable
of what has been read of the name. -/
def longest? (isVariable : Text → Bool) (afterHyphen : Bool) : (t : Text) → Option Text
  | [] => if canEnd afterHyphen [] && isVariable [] then some [] else none
  | c :: t =>
    match if isNameChar c then longest? (fun rest => isVariable (c :: rest)) (c == '-') t
      else none with
    | some rest => some (c :: rest)
    | none => if canEnd afterHyphen (c :: t) && isVariable [] then some [] else none

/-- The shortest way to continue a name: up to its first hyphen or its end. -/
def shortest (t : Text) : Text := t.takeWhile fun c => isNameChar c && c != '-'

def continuation (isVariable : Text → Bool) (c : Char) (t : Text) : Text :=
  (longest? (fun rest => isVariable (c :: rest)) false t).getD (shortest t)

/-- What follows a character in the texts that begin with it. -/
def tailsAfter (c : Char) (names : List Text) : List Text :=
  names.filterMap fun
    | [] => none
    | d :: t => if d = c then some t else none

/-- The search for the longest variable when the variables are listed. It looks no further than
some of them still agree with the text. -/
def longestAmong? (names : List Text) (afterHyphen : Bool) : (t : Text) → Option Text
  | [] => if canEnd afterHyphen [] && names.contains [] then some [] else none
  | c :: t =>
    match if isNameChar c && !names.isEmpty then
        longestAmong? (tailsAfter c names) (c == '-') t
      else none with
    | some rest => some (c :: rest)
    | none => if canEnd afterHyphen (c :: t) && names.contains [] then some [] else none

def continuationAmong (names : List Text) (c : Char) (t : Text) : Text :=
  (longestAmong? (tailsAfter c names) false t).getD (shortest t)

@[simp] theorem contains_tailsAfter (c : Char) (names : List Text) (t : Text) :
    (tailsAfter c names).contains t = names.contains (c :: t) := by
  rw [Bool.eq_iff_iff]
  simp only [List.contains_iff_mem, tailsAfter, List.mem_filterMap]
  constructor
  · rintro ⟨name, hname, h⟩
    cases name with
    | nil => simp at h
    | cons d rest =>
      simp only [Option.ite_none_right_eq_some, Option.some.injEq] at h
      obtain ⟨rfl, rfl⟩ := h
      exact hname
  · intro h
    exact ⟨c :: t, h, by simp⟩

theorem longest?_of_never (afterHyphen : Bool) (t : Text) :
    longest? (fun _ => false) afterHyphen t = none := by
  induction t generalizing afterHyphen with
  | nil => simp [longest?]
  | cons c t ih => simp [longest?, ih]

/-- A list of the variables finds the same names as the question whether a name is listed. -/
theorem longestAmong?_eq (names : List Text) (afterHyphen : Bool) (t : Text) :
    longestAmong? names afterHyphen t = longest? names.contains afterHyphen t := by
  induction t generalizing names afterHyphen with
  | nil => rfl
  | cons c t ih =>
    have htails : (tailsAfter c names).contains = fun rest => names.contains (c :: rest) :=
      funext (contains_tailsAfter c names)
    cases names with
    | nil => simp [longestAmong?, longest?, longest?_of_never]
    | cons name names => simp [longestAmong?, longest?, ih, htails]

theorem continuationAmong_eq (names : List Text) :
    continuationAmong names = continuation names.contains := by
  funext c t
  simp [continuationAmong, continuation, longestAmong?_eq,
    funext (contains_tailsAfter c names)]

def ofWord (word : Text) : Token :=
  if word = "true".toList then .truth true
  else if word = "false".toList then .truth false
  else .name word

/-- The token of a sign that starts with `c`, and the text after it. -/
def symbol? : (c : Char) → (t : Text) → Option (Token × Text)
  | '*', '*' :: t => some (.arith .pow, t)
  | '&', '&' :: t => some (.both, t)
  | '|', '|' :: t => some (.either, t)
  | '=', '=' :: t => some (.compare .eq, t)
  | '!', '=' :: t => some (.compare .ne, t)
  | '<', '=' :: t => some (.compare .le, t)
  | '>', '=' :: t => some (.compare .ge, t)
  | '<', t => some (.compare .lt, t)
  | '>', t => some (.compare .gt, t)
  | '+', t => some (.arith .add, t)
  | '-', t => some (.arith .sub, t)
  | '*', t => some (.arith .mul, t)
  | '/', t => some (.arith .div, t)
  | '%', t => some (.arith .rem, t)
  | '(', t => some (.opening, t)
  | ')', t => some (.closing, t)
  | ',', t => some (.comma, t)
  | _, _ => none

theorem length_symbol? {c : Char} {t rest : Text} {token : Token}
    (h : symbol? c t = some (token, rest)) : rest.length ≤ t.length := by
  unfold symbol? at h
  split at h <;> simp at h <;> obtain ⟨-, rfl⟩ := h <;> simp

/-- The tokens of a text, given how a name goes on that begins with a letter. -/
def scanBy (continueName : Char → Text → Text) : Text → Except ScanFault (List Token)
  | [] => .ok []
  | c :: t =>
    if isBlank c then scanBy continueName t
    else if c.isDigit then
      let value : Int := digitsValue (c :: t.takeWhile Char.isDigit)
      if fitsWord value then do
        let tokens ← scanBy continueName (t.dropWhile Char.isDigit)
        return .number value :: tokens
      else .error .numeral
    else if c.isAlpha then do
      let rest := continueName c t
      let tokens ← scanBy continueName (t.drop rest.length)
      return ofWord (c :: rest) :: tokens
    else if c = '"' then
      match _ : t.dropWhile (· ≠ '"') with
      | [] => .error .unclosed
      | _ :: after => do
        let tokens ← scanBy continueName after
        return .quotation (t.takeWhile (· ≠ '"')) :: tokens
    else match _ : symbol? c t with
      | none => .error (.stray c)
      | some (token, after) => do
        let tokens ← scanBy continueName after
        return token :: tokens
termination_by t => t.length
decreasing_by
  · simp
  · have := (List.dropWhile_sublist Char.isDigit (l := t)).length_le
    simp only [List.length_cons]
    omega
  · simp only [List.length_drop, List.length_cons]
    omega
  · have := (List.dropWhile_sublist (· ≠ '"') (l := t)).length_le
    rename_i h
    rw [h] at this
    simp only [List.length_cons] at this ⊢
    omega
  · rename_i h
    have := length_symbol? h
    simp only [List.length_cons]
    omega

/-- The tokens of a text in which the names of variables may hold hyphens. -/
def scan (isVariable : Text → Bool) (source : Text) : Except ScanFault (List Token) :=
  scanBy (continuation isVariable) source

def scanAmong (names : List Text) (source : Text) : Except ScanFault (List Token) :=
  scanBy (continuationAmong names) source

theorem scanAmong_eq (names : List Text) (source : Text) :
    scanAmong names source = scan names.contains source := by
  rw [scanAmong, scan, continuationAmong_eq]

def ScanFault.inSource (source : Text) : ScanFault → Fault
  | .numeral => .numeralTooLarge (trim source)
  | .unclosed => .unclosedQuotation (trim source)
  | .stray c => .strayCharacter c (trim source)

def ofSource (names : List Text) (source : Text) : Except Fault (List Token) :=
  (scanAmong names source).mapError (·.inSource source)

end Brushwork.Token

import Mathlib.Algebra.Order.Field.Rat
import Suban.Basis.Numbers

namespace Suban.Basis.JsonText

open Suban.Basis.Numbers

inductive JsonOf (N : Type) where
  | null
  | bool (b : Bool)
  | num (n : N)
  | str (s : String)
  | arr (entries : List (JsonOf N))
  | obj (fields : List (String × JsonOf N))

/-- A JSON value with whole numbers only. -/
abbrev Json := JsonOf Int

def escape (c : Char) : List Char :=
  if c = '"' then ['\\', '"'] else
  if c = '\\' then ['\\', '\\'] else
  if c.toNat = 8 then ['\\', 'b'] else
  if c.toNat = 9 then ['\\', 't'] else
  if c.toNat = 10 then ['\\', 'n'] else
  if c.toNat = 12 then ['\\', 'f'] else
  if c.toNat = 13 then ['\\', 'r'] else
  if c.toNat < 32 then
    ['\\', 'u', '0', '0', Nat.digitChar (c.toNat / 16), Nat.digitChar (c.toNat % 16)]
  else [c]

def quote (cs : List Char) : List Char := '"' :: cs.flatMap escape ++ ['"']

mutual

def print : Json → List Char
  | .null => ['n', 'u', 'l', 'l']
  | .bool true => ['t', 'r', 'u', 'e']
  | .bool false => ['f', 'a', 'l', 's', 'e']
  | .num n => (toString n).toList
  | .str s => quote s.toList
  | .arr entries => '[' :: printAll entries ++ [']']
  | .obj fields => '\x7b' :: printFields fields ++ ['\x7d']

def printAll : List Json → List Char
  | [] => []
  | [j] => print j
  | j :: k :: js => print j ++ ',' :: printAll (k :: js)

def printFields : List (String × Json) → List Char
  | [] => []
  | [(key, j)] => quote key.toList ++ ':' :: print j
  | (key, j) :: f :: fs => quote key.toList ++ ':' :: (print j ++ ',' :: printFields (f :: fs))

end

def isSpace (c : Char) : Bool := c = ' ' || c = '\n' || c = '\r' || c = '\t'

def skip (cs : List Char) : List Char := cs.dropWhile isSpace

def hexValue (c : Char) : Option Nat :=
  if '0' ≤ c ∧ c ≤ '9' then some (c.toNat - 48)
  else if 'a' ≤ c ∧ c ≤ 'f' then some (c.toNat - 87)
  else if 'A' ≤ c ∧ c ≤ 'F' then some (c.toNat - 55)
  else none

/-- The character that four hexadecimal digits stand for. Half of a pair stands
for none. -/
def codeUnit (a b c d : Char) : Option Char := do
  let a ← hexValue a
  let b ← hexValue b
  let c ← hexValue c
  let d ← hexValue d
  let n := ((a * 16 + b) * 16 + c) * 16 + d
  if 0xD800 ≤ n ∧ n < 0xE000 then none else some (Char.ofNat n)

def unescape (c : Char) : Option Char :=
  if c = '"' ∨ c = '\\' ∨ c = '/' then some c
  else if c = 'b' then some (Char.ofNat 8)
  else if c = 't' then some (Char.ofNat 9)
  else if c = 'n' then some (Char.ofNat 10)
  else if c = 'f' then some (Char.ofNat 12)
  else if c = 'r' then some (Char.ofNat 13)
  else none

def consTo (c : Char) (r : List Char × List Char) : List Char × List Char := (c :: r.1, r.2)

/-- The rest of a string whose opening quote has been read. -/
def parseChars : List Char → Option (List Char × List Char)
  | [] => none
  | c :: cs =>
    if c = '"' then some ([], cs)
    else if c = '\\' then
      match cs with
      | 'u' :: a :: b :: d :: e :: rest => do
        let c ← codeUnit a b d e
        (parseChars rest).map (consTo c)
      | x :: rest => do
        let c ← unescape x
        (parseChars rest).map (consTo c)
      | [] => none
    else if c.toNat < 32 then none
    else (parseChars cs).map (consTo c)

/-- A number does not start with a zero that more digits follow. -/
def parseNatural (cs : List Char) : Option (Nat × List Char) :=
  let digits := cs.takeWhile Char.isDigit
  if digits = [] ∨ digits.head? = some '0' ∧ digits ≠ ['0'] then none
  else some (Nat.ofDigitChars 10 digits 0, cs.dropWhile Char.isDigit)

def parseNumber : List Char → Option (Int × List Char)
  | '-' :: cs => (parseNatural cs).map fun r => (-(r.1 : Int), r.2)
  | cs => (parseNatural cs).map fun r => (r.1, r.2)

def parseDigits (cs : List Char) : Option (List Char × List Char) :=
  let digits := cs.takeWhile Char.isDigit
  if digits = [] then none else some (digits, cs.dropWhile Char.isDigit)

def parseFraction : List Char → Option (ℚ × List Char)
  | '.' :: cs => (parseDigits cs).map fun r =>
    ((Nat.ofDigitChars 10 r.1 0 : ℚ) / 10 ^ r.1.length, r.2)
  | cs => some (0, cs)

def parseExponent : List Char → Option (Int × List Char)
  | 'e' :: '-' :: cs | 'E' :: '-' :: cs =>
    (parseDigits cs).map fun r => (-(Nat.ofDigitChars 10 r.1 0 : Int), r.2)
  | 'e' :: '+' :: cs | 'E' :: '+' :: cs | 'e' :: cs | 'E' :: cs =>
    (parseDigits cs).map fun r => (Nat.ofDigitChars 10 r.1 0, r.2)
  | cs => some (0, cs)

def parseMagnitude (cs : List Char) : Option (ℚ × List Char) := do
  let (n, rest) ← parseNatural cs
  let (fraction, rest) ← parseFraction rest
  let (e, rest) ← parseExponent rest
  pure ((n + fraction) * 10 ^ e, rest)

def parseDecimal : List Char → Option (ℚ × List Char)
  | '-' :: cs => (parseMagnitude cs).map fun r => (-r.1, r.2)
  | cs => parseMagnitude cs

section Values

variable {N : Type} (number : List Char → Option (N × List Char))

def parseLiteral (cs : List Char) : Option (JsonOf N × List Char) :=
  if "null".toList.isPrefixOf cs then some (.null, cs.drop 4)
  else if "true".toList.isPrefixOf cs then some (.bool true, cs.drop 4)
  else if "false".toList.isPrefixOf cs then some (.bool false, cs.drop 5)
  else none

def parseKey (cs : List Char) : Option (String × List Char) :=
  match skip cs with
  | '"' :: rest => do
    let (key, rest) ← parseChars rest
    match skip rest with
    | ':' :: rest => some (String.ofList key, rest)
    | _ => none
  | _ => none

mutual

/-- The value that a text starts with, and what follows it. -/
def parseValue : Nat → List Char → Option (JsonOf N × List Char)
  | 0, _ => none
  | fuel + 1, cs =>
    match skip cs with
    | [] => none
    | c :: rest =>
      if c = '"' then (parseChars rest).map fun r => (.str (String.ofList r.1), r.2)
      else if c = '[' then
        if (skip rest).head? = some ']' then some (.arr [], (skip rest).tail)
        else (parseEntries fuel rest).map fun r => (.arr r.1, r.2)
      else if c = '\x7b' then
        if (skip rest).head? = some '\x7d' then some (.obj [], (skip rest).tail)
        else (parseMembers fuel rest).map fun r => (.obj r.1, r.2)
      else if c = '-' ∨ c.isDigit then (number (c :: rest)).map fun r => (.num r.1, r.2)
      else parseLiteral (c :: rest)

def parseEntries : Nat → List Char → Option (List (JsonOf N) × List Char)
  | 0, _ => none
  | fuel + 1, cs => do
    let (j, rest) ← parseValue fuel cs
    match skip rest with
    | ',' :: rest => (parseEntries fuel rest).map fun r => (j :: r.1, r.2)
    | ']' :: rest => some ([j], rest)
    | _ => none

def parseMembers : Nat → List Char → Option (List (String × JsonOf N) × List Char)
  | 0, _ => none
  | fuel + 1, cs => do
    let (key, rest) ← parseKey cs
    let (j, rest) ← parseValue fuel rest
    match skip rest with
    | ',' :: rest => (parseMembers fuel rest).map fun r => ((key, j) :: r.1, r.2)
    | '\x7d' :: rest => some ([(key, j)], rest)
    | _ => none

end

def parseWith (text : String) : Option (JsonOf N) :=
  match parseValue number (text.toList.length + 1) text.toList with
  | some (j, rest) => if skip rest = [] then some j else none
  | none => none

end Values

def parse (text : String) : Option Json := parseWith parseNumber text

theorem codeUnit_control : ∀ k < 32,
    codeUnit '0' '0' (Nat.digitChar (k / 16)) (Nat.digitChar (k % 16)) = some (Char.ofNat k) := by
  decide +kernel

theorem ofNat_eq {c : Char} {n : Nat} (h : c.toNat = n) : Char.ofNat n = c := by
  rw [← h, Char.ofNat_toNat]

theorem parseChars_end (rest : List Char) : parseChars ('"' :: rest) = some ([], rest) := by
  rw [parseChars.eq_def]
  rfl

theorem parseChars_unicode {a b d e c : Char} (h : codeUnit a b d e = some c)
    (rest : List Char) :
    parseChars ('\\' :: 'u' :: a :: b :: d :: e :: rest) =
      (parseChars rest).map (consTo c) := by
  rw [parseChars.eq_def]
  simp [h]

theorem parseChars_short {x c : Char} (hx : x ≠ 'u') (h : unescape x = some c)
    (rest : List Char) :
    parseChars ('\\' :: x :: rest) = (parseChars rest).map (consTo c) := by
  rw [parseChars.eq_def]
  simp only [Char.reduceEq, ↓reduceIte]
  split
  next heq => exact absurd (List.cons.inj heq).1 hx
  next heq =>
    obtain ⟨rfl, rfl⟩ := List.cons.inj heq
    rw [h]
    rfl
  next heq => cases heq

theorem parseChars_plain {c : Char} (hquote : c ≠ '"') (hslash : c ≠ '\\')
    (h : ¬ c.toNat < 32) (rest : List Char) :
    parseChars (c :: rest) = (parseChars rest).map (consTo c) := by
  rw [parseChars.eq_def]
  simp only [hquote, hslash, h, ↓reduceIte]

theorem parseChars_escape (c : Char) (rest : List Char) :
    parseChars (escape c ++ rest) = (parseChars rest).map (consTo c) := by
  unfold escape
  split
  next h => exact parseChars_short (by decide) (by rw [h]; rfl) rest
  split
  next h => exact parseChars_short (by decide) (by rw [h]; rfl) rest
  split
  next h => exact parseChars_short (by decide) (by rw [← ofNat_eq h]; rfl) rest
  split
  next h => exact parseChars_short (by decide) (by rw [← ofNat_eq h]; rfl) rest
  split
  next h => exact parseChars_short (by decide) (by rw [← ofNat_eq h]; rfl) rest
  split
  next h => exact parseChars_short (by decide) (by rw [← ofNat_eq h]; rfl) rest
  split
  next h => exact parseChars_short (by decide) (by rw [← ofNat_eq h]; rfl) rest
  split
  next h =>
    refine parseChars_unicode ?_ rest
    rw [codeUnit_control c.toNat h, Char.ofNat_toNat]
  next hquote hslash _ _ _ _ _ h => exact parseChars_plain hquote hslash h rest

theorem parseChars_quote (cs rest : List Char) :
    parseChars (cs.flatMap escape ++ '"' :: rest) = some (cs, rest) := by
  induction cs with
  | nil => exact parseChars_end rest
  | cons c cs ih =>
    rw [List.flatMap_cons, List.append_assoc, parseChars_escape, ih]
    rfl

def Ends (rest : List Char) : Prop := ∀ c ∈ rest.head?, c.isDigit = false

theorem takeWhile_digits {digits rest : List Char} (hd : ∀ c ∈ digits, c.isDigit = true)
    (hr : Ends rest) :
    (digits ++ rest).takeWhile Char.isDigit = digits ∧
      (digits ++ rest).dropWhile Char.isDigit = rest := by
  have hrest : rest.takeWhile Char.isDigit = [] ∧ rest.dropWhile Char.isDigit = rest := by
    cases rest with
    | nil => exact ⟨rfl, rfl⟩
    | cons c cs =>
      have hc : c.isDigit = false := hr c rfl
      simp [hc]
  rw [List.takeWhile_append_of_pos hd, List.dropWhile_append_of_pos hd, hrest.1, hrest.2,
    List.append_nil]
  exact ⟨rfl, rfl⟩

theorem head_toDigits {n : Nat} (hn : 0 < n) : (Nat.toDigits 10 n).head? ≠ some '0' := by
  induction n using Nat.strongRecOn with
  | ind n ih =>
    by_cases hlt : n < 10
    · rw [Nat.toDigits_of_lt_base hlt]
      simpa using hn.ne'
    · have hquot := ih (n / 10) (by omega) (by omega)
      rw [Nat.toDigits_of_base_le (by decide) (not_lt.mp hlt), List.head?_append]
      cases hd : (Nat.toDigits 10 (n / 10)).head? with
      | none => exact absurd (List.head?_eq_none_iff.mp hd) Nat.toDigits_ne_nil
      | some c =>
        rw [hd] at hquot
        exact hquot

theorem parseNatural_toDigits (n : Nat) {rest : List Char} (hr : Ends rest) :
    parseNatural (Nat.toDigits 10 n ++ rest) = some (n, rest) := by
  have hdigit : ∀ c ∈ Nat.toDigits 10 n, c.isDigit = true := fun c hc =>
    Nat.isDigit_of_mem_toDigits (by decide) (by decide) hc
  obtain ⟨htake, hdrop⟩ := takeWhile_digits hdigit hr
  have hzero : ¬ (Nat.toDigits 10 n = [] ∨
      (Nat.toDigits 10 n).head? = some '0' ∧ Nat.toDigits 10 n ≠ ['0']) := by
    rintro (h | ⟨h, hne⟩)
    · exact Nat.toDigits_ne_nil h
    · obtain rfl | hpos := Nat.eq_zero_or_pos n
      · exact hne rfl
      · exact head_toDigits hpos h
  rw [parseNatural, htake, if_neg hzero, hdrop, Nat.ofDigitChars_ten_toDigits]

theorem text_ofNat (n : Nat) : (toString (Int.ofNat n)).toList = Nat.toDigits 10 n := by
  change (toString n).toList = _
  simp

theorem text_negSucc (n : Nat) :
    (toString (Int.negSucc n)).toList = '-' :: Nat.toDigits 10 (n + 1) := by
  change ("-" ++ toString (n + 1)).toList = _
  rw [String.toList_append]
  simp

theorem head_number (n : Int) :
    ∃ c cs, (toString n).toList = c :: cs ∧ (c = '-' ∨ c.isDigit = true) := by
  cases n with
  | ofNat n =>
    rw [text_ofNat]
    cases hd : Nat.toDigits 10 n with
    | nil => exact absurd hd Nat.toDigits_ne_nil
    | cons c cs =>
      have hc : c ∈ Nat.toDigits 10 n := hd ▸ List.mem_cons_self
      exact ⟨c, cs, rfl, .inr (Nat.isDigit_of_mem_toDigits (by decide) (by decide) hc)⟩
  | negSucc n => exact ⟨'-', _, text_negSucc n, .inl rfl⟩

theorem parseNumber_print (n : Int) {rest : List Char} (hr : Ends rest) :
    parseNumber ((toString n).toList ++ rest) = some (n, rest) := by
  rw [parseNumber.eq_def]
  cases n with
  | ofNat n =>
    rw [text_ofNat]
    split
    next cs h =>
      cases hd : Nat.toDigits 10 n with
      | nil => exact absurd hd Nat.toDigits_ne_nil
      | cons c ds =>
        rw [hd] at h
        have hminus : '-' ∈ Nat.toDigits 10 n := by
          rw [hd, ← (List.cons.inj h).1]
          exact List.mem_cons_self
        exact absurd hminus (not_mem_toDigits rfl n)
    next => rw [parseNatural_toDigits n hr]; rfl
  | negSucc n =>
    rw [text_negSucc, List.cons_append]
    simp only [parseNatural_toDigits (n + 1) hr, Option.map_some]
    rfl

theorem skip_cons {c : Char} (h : isSpace c = false) (cs : List Char) :
    skip (c :: cs) = c :: cs := by
  simp [skip, h]

theorem ne_of_number {c d : Char} (h : c = '-' ∨ c.isDigit = true) (hd : d ≠ '-')
    (hdigit : d.isDigit = false) : c ≠ d := by
  rintro rfl
  obtain h | h := h
  · exact hd h
  · rw [hdigit] at h
    cases h

/-- No value starts with a space or with what closes a list. -/
theorem head_print (j : Json) : ∃ c cs, print j = c :: cs ∧ isSpace c = false ∧ c ≠ ']' := by
  cases j with
  | null => exact ⟨_, _, print.eq_def _, rfl, by decide⟩
  | bool b => cases b <;> exact ⟨_, _, print.eq_def _, rfl, by decide⟩
  | num n =>
    obtain ⟨c, cs, htext, hc⟩ := head_number n
    have hne {d : Char} (hd : d ≠ '-') (hdigit : d.isDigit = false) : c ≠ d :=
      ne_of_number hc hd hdigit
    refine ⟨c, cs, (print.eq_def _).trans htext, ?_, hne (by decide) rfl⟩
    have hspace : c ≠ ' ' := hne (by decide) rfl
    have hline : c ≠ '\n' := hne (by decide) rfl
    have hreturn : c ≠ '\r' := hne (by decide) rfl
    have htab : c ≠ '\t' := hne (by decide) rfl
    simp [isSpace, hspace, hline, hreturn, htab]
  | str s => exact ⟨_, _, print.eq_def _, rfl, by decide⟩
  | arr entries => exact ⟨_, _, print.eq_def _, rfl, by decide⟩
  | obj fields => exact ⟨_, _, print.eq_def _, rfl, by decide⟩

theorem skip_print (j : Json) (rest : List Char) :
    skip (print j ++ rest) = print j ++ rest := by
  obtain ⟨c, cs, htext, hspace, -⟩ := head_print j
  rw [htext, List.cons_append, skip_cons hspace]

theorem head_printAll (j : Json) (js : List Json) :
    ∃ c cs, printAll (j :: js) = c :: cs ∧ isSpace c = false ∧ c ≠ ']' := by
  obtain ⟨c, cs, htext, hspace, hne⟩ := head_print j
  cases js with
  | nil => exact ⟨c, cs, by rw [printAll, htext], hspace, hne⟩
  | cons k js => exact ⟨c, _, by rw [printAll, htext]; rfl, hspace, hne⟩

theorem head_printFields (f : String × Json) (fs : List (String × Json)) :
    ∃ cs, printFields (f :: fs) = '"' :: cs := by
  cases fs with
  | nil => exact ⟨_, by rw [printFields]; rfl⟩
  | cons g gs => exact ⟨_, by rw [printFields]; rfl⟩

mutual

/-- How deep the calls go that read a value back. -/
def weight : Json → Nat
  | .arr entries => weightAll entries + 1
  | .obj fields => weightFields fields + 1
  | _ => 1

def weightAll : List Json → Nat
  | [] => 0
  | j :: js => max (weight j) (weightAll js) + 1

def weightFields : List (String × Json) → Nat
  | [] => 0
  | (_, j) :: fs => max (weight j) (weightFields fs) + 1

end

theorem parseValue_string (fuel : Nat) (s : String) (rest : List Char) :
    parseValue parseNumber (fuel + 1) (quote s.toList ++ rest) = some (.str s, rest) := by
  rw [parseValue.eq_def]
  simp only [quote, List.cons_append, skip_cons (c := '"') rfl, List.append_assoc,
    List.nil_append, parseChars_quote, ↓reduceIte, Option.map_some, String.ofList_toList]

theorem parseKey_print (key : String) (rest : List Char) :
    parseKey (quote key.toList ++ ':' :: rest) = some (key, rest) := by
  simp only [parseKey, quote, List.cons_append, skip_cons (c := '"') rfl, List.append_assoc,
    List.nil_append, parseChars_quote, skip_cons (c := ':') rfl, bind, Option.bind_some,
    String.ofList_toList]

theorem parseValue_number (fuel : Nat) (n : Int) {rest : List Char} (hr : Ends rest) :
    parseValue parseNumber (fuel + 1) (print (.num n) ++ rest) = some (.num n, rest) := by
  obtain ⟨c, cs, htext, hc⟩ := head_number n
  have hparse := parseNumber_print n hr
  have hquote : c ≠ '"' := ne_of_number hc (by decide) rfl
  have hbracket : c ≠ '[' := ne_of_number hc (by decide) rfl
  have hbrace : c ≠ '\x7b' := ne_of_number hc (by decide) rfl
  rw [parseValue.eq_def]
  simp only [skip_print]
  have hprint : print (.num n) = c :: cs := (print.eq_def _).trans htext
  rw [htext] at hparse
  simp only [hprint, List.cons_append, if_neg hquote, if_neg hbracket, if_neg hbrace, if_pos hc]
  rw [← List.cons_append, hparse, Option.map_some]

theorem ends_cons {c : Char} (h : c.isDigit = false) (cs : List Char) : Ends (c :: cs) := by
  intro d hd
  cases hd
  exact h

theorem parseValue_entries {fuel : Nat} {j : Json} {js : List Json} {rest : List Char}
    (h : parseEntries parseNumber fuel (printAll (j :: js) ++ ']' :: rest) = some (j :: js, rest)) :
    parseValue parseNumber (fuel + 1) (print (.arr (j :: js)) ++ rest) =
      some (.arr (j :: js), rest) := by
  obtain ⟨c, cs, htext, hspace, hne⟩ := head_printAll j js
  have hskip : skip (printAll (j :: js) ++ ']' :: rest) = printAll (j :: js) ++ ']' :: rest := by
    rw [htext, List.cons_append, skip_cons hspace]
  have hhead : (printAll (j :: js) ++ ']' :: rest).head? ≠ some ']' := by
    rw [htext]
    exact fun heq => hne (Option.some.inj heq)
  rw [print, parseValue.eq_def]
  simp only [List.cons_append, List.append_assoc, List.nil_append, skip_cons (c := '[') rfl,
    hskip, if_neg hhead, h, Option.map_some, Char.reduceEq, ↓reduceIte]

theorem parseValue_members {fuel : Nat} {f : String × Json} {fs : List (String × Json)}
    {rest : List Char}
    (h : parseMembers parseNumber fuel (printFields (f :: fs) ++ '\x7d' :: rest) =
      some (f :: fs, rest)) :
    parseValue parseNumber (fuel + 1) (print (.obj (f :: fs)) ++ rest) =
      some (.obj (f :: fs), rest) := by
  obtain ⟨cs, htext⟩ := head_printFields f fs
  have hskip : skip (printFields (f :: fs) ++ '\x7d' :: rest) =
      printFields (f :: fs) ++ '\x7d' :: rest := by
    rw [htext, List.cons_append, skip_cons rfl]
  have hhead : (printFields (f :: fs) ++ '\x7d' :: rest).head? ≠ some '\x7d' := by
    rw [htext]
    simp
  rw [print, parseValue.eq_def]
  simp only [List.cons_append, List.append_assoc, List.nil_append, skip_cons (c := '\x7b') rfl,
    hskip, if_neg hhead, h, Option.map_some, Char.reduceEq, ↓reduceIte]

mutual

/-- What is printed is read back, whatever follows that is no digit. -/
theorem parseValue_print : ∀ (j : Json) (fuel : Nat), weight j ≤ fuel → ∀ rest, Ends rest →
    parseValue parseNumber fuel (print j ++ rest) = some (j, rest)
  | j, 0, h, _, _ => by cases j <;> simp [weight] at h
  | .null, fuel + 1, _, rest, _ => by
    rw [parseValue.eq_def]
    rfl
  | .bool true, fuel + 1, _, rest, _ => by
    rw [parseValue.eq_def]
    rfl
  | .bool false, fuel + 1, _, rest, _ => by
    rw [parseValue.eq_def]
    rfl
  | .num n, fuel + 1, _, rest, hr => parseValue_number fuel n hr
  | .str s, fuel + 1, _, rest, _ => by
    rw [print]
    exact parseValue_string fuel s rest
  | .arr [], fuel + 1, _, rest, _ => by
    rw [parseValue.eq_def]
    rfl
  | .arr (j :: js), fuel + 1, h, rest, _ => by
    have hentries := parseEntries_print j js fuel (Nat.le_of_succ_le_succ h) rest
    exact parseValue_entries hentries
  | .obj [], fuel + 1, _, rest, _ => by
    rw [parseValue.eq_def]
    rfl
  | .obj (f :: fs), fuel + 1, h, rest, _ => by
    have hmembers := parseMembers_print f fs fuel (Nat.le_of_succ_le_succ h) rest
    exact parseValue_members hmembers

theorem parseEntries_print : ∀ (j : Json) (js : List Json) (fuel : Nat),
    weightAll (j :: js) ≤ fuel → ∀ rest,
    parseEntries parseNumber fuel (printAll (j :: js) ++ ']' :: rest) = some (j :: js, rest)
  | j, js, 0, h, _ => by simp [weightAll] at h
  | j, [], fuel + 1, h, rest => by
    have hle : weight j ≤ fuel := (le_max_left _ _).trans (Nat.le_of_succ_le_succ h)
    have hj := parseValue_print j fuel hle (']' :: rest) (ends_cons rfl rest)
    simp only [printAll, parseEntries, hj, bind, Option.bind_some, skip_cons (c := ']') rfl]
  | j, k :: js, fuel + 1, h, rest => by
    have hle : weight j ≤ fuel := (le_max_left _ _).trans (Nat.le_of_succ_le_succ h)
    have hrest : weightAll (k :: js) ≤ fuel := (le_max_right _ _).trans (Nat.le_of_succ_le_succ h)
    have hj := parseValue_print j fuel hle (',' :: (printAll (k :: js) ++ ']' :: rest))
      (ends_cons rfl _)
    have hjs := parseEntries_print k js fuel hrest rest
    rw [printAll, List.append_assoc, List.cons_append]
    simp only [parseEntries, hj, bind, Option.bind_some, skip_cons (c := ',') rfl, hjs,
      Option.map_some]

theorem parseMembers_print : ∀ (f : String × Json) (fs : List (String × Json)) (fuel : Nat),
    weightFields (f :: fs) ≤ fuel → ∀ rest,
    parseMembers parseNumber fuel (printFields (f :: fs) ++ '\x7d' :: rest) = some (f :: fs, rest)
  | (_, _), fs, 0, h, _ => by simp [weightFields] at h
  | (key, j), [], fuel + 1, h, rest => by
    have hle : weight j ≤ fuel := (le_max_left _ _).trans (Nat.le_of_succ_le_succ h)
    have hj := parseValue_print j fuel hle ('\x7d' :: rest) (ends_cons rfl rest)
    rw [printFields, List.append_assoc, List.cons_append]
    simp only [parseMembers, parseKey_print, hj, bind, Option.bind_some,
      skip_cons (c := '\x7d') rfl]
  | (key, j), f :: fs, fuel + 1, h, rest => by
    have hle : weight j ≤ fuel := (le_max_left _ _).trans (Nat.le_of_succ_le_succ h)
    have hrest : weightFields (f :: fs) ≤ fuel :=
      (le_max_right _ _).trans (Nat.le_of_succ_le_succ h)
    have hj := parseValue_print j fuel hle (',' :: (printFields (f :: fs) ++ '\x7d' :: rest))
      (ends_cons rfl _)
    have hfs := parseMembers_print f fs fuel hrest rest
    rw [printFields, List.append_assoc, List.cons_append, List.append_assoc, List.cons_append]
    simp only [parseMembers, parseKey_print, hj, bind, Option.bind_some,
      skip_cons (c := ',') rfl, hfs, Option.map_some]

end

theorem print_ne_nil (j : Json) : 1 ≤ (print j).length := by
  obtain ⟨c, cs, htext, -⟩ := head_print j
  rw [htext]
  exact Nat.le_add_left 1 _

mutual

/-- The text of a value is long enough to tell how deep it goes. -/
theorem weight_le : ∀ j : Json, weight j ≤ (print j).length
  | .arr entries => by
    have hall := weightAll_le entries
    simp only [weight, print, List.length_append, List.length_cons, List.length_nil]
    omega
  | .obj fields => by
    have hall := weightFields_le fields
    simp only [weight, print, List.length_append, List.length_cons, List.length_nil]
    omega
  | .null => print_ne_nil .null
  | .bool b => print_ne_nil (.bool b)
  | .num n => print_ne_nil (.num n)
  | .str s => print_ne_nil (.str s)

theorem weightAll_le : ∀ entries : List Json, weightAll entries ≤ (printAll entries).length + 1
  | [] => Nat.zero_le _
  | [j] => by
    have hj := weight_le j
    simp only [weightAll, printAll]
    omega
  | j :: k :: js => by
    have hj := weight_le j
    have hjs := weightAll_le (k :: js)
    rw [weightAll]
    simp only [printAll, List.length_append, List.length_cons]
    omega

theorem weightFields_le : ∀ fields : List (String × Json),
    weightFields fields ≤ (printFields fields).length + 1
  | [] => Nat.zero_le _
  | [(key, j)] => by
    have hj := weight_le j
    simp only [weightFields, printFields, List.length_append, List.length_cons]
    omega
  | (key, j) :: f :: fs => by
    have hj := weight_le j
    have hfs := weightFields_le (f :: fs)
    rw [weightFields]
    simp only [printFields, List.length_append, List.length_cons]
    omega

end

theorem parse_print (j : Json) : parse (String.ofList (print j)) = some j := by
  have hread := parseValue_print j ((print j).length + 1) ((weight_le j).trans (Nat.le_succ _)) []
    (fun c hc => by cases hc)
  rw [List.append_nil] at hread
  simp only [parse, parseWith, String.toList_ofList, hread]
  rfl

example : (parse "[null, -12, \"a\\u000a\"]").isSome = true := by decide +kernel

end Suban.Basis.JsonText

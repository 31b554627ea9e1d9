import Mathlib.Data.List.TakeWhile
import Mathlib.Data.Nat.Basic
import Mathlib.Tactic.Ring
import Mathlib.Tactic.Positivity.Basic

namespace Suban.Basis.Numbers

/-- The double nearest to a whole number: of the two multiples of its unit in
the last place beside it the nearer one, or the even one. -/
def nearest (n : Nat) : Nat :=
  let unit := 2 ^ (n.log2 - 52)
  let low := n / unit
  if 2 * (n % unit) < unit ∨ 2 * (n % unit) = unit ∧ low % 2 = 0 then low * unit
  else (low + 1) * unit

theorem nearest_of_dvd {n : Nat} (h : 2 ^ (n.log2 - 52) ∣ n) : nearest n = n := by
  have hrest : n % 2 ^ (n.log2 - 52) = 0 := Nat.mod_eq_zero_of_dvd h
  have hunit : 0 < 2 ^ (n.log2 - 52) := by positivity
  rw [nearest, hrest, if_pos (.inl (by omega)), Nat.div_mul_cancel h]

theorem nearest_mul_two_pow {q k : Nat} (hlow : 2 ^ 52 ≤ q) (hhigh : q ≤ 2 ^ 53) :
    nearest (q * 2 ^ k) = q * 2 ^ k := by
  apply nearest_of_dvd
  have hne : q * 2 ^ k ≠ 0 := by positivity
  obtain rfl | hlt := hhigh.eq_or_lt
  · rw [← pow_add, Nat.log2_two_pow]
    exact pow_dvd_pow 2 (by omega)
  · have hlog : (q * 2 ^ k).log2 = 52 + k := by
      rw [Nat.log2_eq_iff hne]
      refine ⟨?_, ?_⟩
      · rw [pow_add]
        exact Nat.mul_le_mul_right _ hlow
      · rw [show 52 + k + 1 = 53 + k by omega, pow_add]
        exact Nat.mul_lt_mul_of_pos_right hlt (by positivity)
    rw [hlog, Nat.add_sub_cancel_left]
    exact dvd_mul_left _ _

theorem nearest_of_small {n : Nat} (h : n.log2 ≤ 52) : nearest n = n := by
  apply nearest_of_dvd
  rw [Nat.sub_eq_zero_of_le h, pow_zero]
  exact one_dvd n

theorem nearest_eq_mul {n : Nat} (h : 52 ≤ n.log2) :
    ∃ q k, 2 ^ 52 ≤ q ∧ q ≤ 2 ^ 53 ∧ nearest n = q * 2 ^ k := by
  have hne : n ≠ 0 := by
    rintro rfl
    simp at h
  obtain ⟨k, hk⟩ := Nat.exists_eq_add_of_le h
  have hunit : 0 < 2 ^ k := by positivity
  have hle := Nat.log2_self_le hne
  have hlt := Nat.lt_log2_self (n := n)
  rw [hk, pow_add] at hle
  rw [hk, add_right_comm, pow_add] at hlt
  have hlow : 2 ^ 52 ≤ n / 2 ^ k := (Nat.le_div_iff_mul_le hunit).mpr hle
  have hhigh : n / 2 ^ k < 2 ^ 53 := (Nat.div_lt_iff_lt_mul hunit).mpr hlt
  rw [nearest, hk, Nat.add_sub_cancel_left]
  split
  · exact ⟨_, k, hlow, hhigh.le, rfl⟩
  · exact ⟨_, k, Nat.le_succ_of_le hlow, hhigh, rfl⟩

theorem nearest_nearest (n : Nat) : nearest (nearest n) = nearest n := by
  by_cases h : n.log2 ≤ 52
  · rw [nearest_of_small h, nearest_of_small h]
  · obtain ⟨q, k, hlow, hhigh, heq⟩ := nearest_eq_mul (not_le.mp h).le
    rw [heq]
    exact nearest_mul_two_pow hlow hhigh

theorem nearest_le (n : Nat) : nearest n ≤ 2 * n := by
  obtain rfl | hpos := Nat.eq_zero_or_pos n
  · decide
  · have hunit : 2 ^ (n.log2 - 52) ≤ n :=
      (Nat.pow_le_pow_right (by decide) (Nat.sub_le _ _)).trans (Nat.log2_self_le hpos.ne')
    have hlow := Nat.div_mul_le_self n (2 ^ (n.log2 - 52))
    rw [nearest]
    split
    · omega
    · rw [Nat.add_mul, Nat.one_mul]
      omega

/-- The numbers that counters and the like become: whole ones that a double
holds, or none at all. -/
inductive Number where
  | whole (n : Nat) (exact : nearest n = n)
  | nan
  deriving DecidableEq

def ofNat (n : Nat) : Number := .whole (nearest n) (nearest_nearest n)

/-- The leading digits of a text count, and without one there is no number. -/
def parseInt (text : String) : Number :=
  let digits := text.toList.takeWhile Char.isDigit
  if digits = [] then .nan else ofNat (Nat.ofDigitChars 10 digits 0)

theorem parseInt_toString (n : Nat) : parseInt (toString n) = ofNat n := by
  have hdigits : (Nat.toDigits 10 n).takeWhile Char.isDigit = Nat.toDigits 10 n := by
    rw [List.takeWhile_eq_self_iff]
    intro c hc
    exact Nat.isDigit_of_mem_toDigits (by decide) (by decide) hc
  have htext : (toString n).toList = Nat.toDigits 10 n := by simp
  rw [parseInt, htext, hdigits, if_neg Nat.toDigits_ne_nil, Nat.ofDigitChars_ten_toDigits]

theorem toDigits_inj {m n : Nat} (h : Nat.toDigits 10 m = Nat.toDigits 10 n) : m = n := by
  have hvalue := congrArg (fun l => Nat.ofDigitChars 10 l 0) h
  simpa using hvalue

theorem not_mem_toDigits {c : Char} (h : c.isDigit = false) (n : Nat) : c ∉ Nat.toDigits 10 n := by
  intro hc
  rw [Nat.isDigit_of_mem_toDigits (by decide) (by decide) hc] at h
  cases h

def numeral (digits : List Char) : Option Nat :=
  if digits ≠ [] ∧ digits.all Char.isDigit then some (Nat.ofDigitChars 10 digits 0) else none

/-- The integer that a text of digits stands for, with a sign before them or
without. -/
def bigInt (text : String) : Option Int :=
  match text.toList with
  | '-' :: digits => (numeral digits).map (fun n : Nat => -(n : Int))
  | digits => (numeral digits).map Int.ofNat

theorem numeral_toDigits (n : Nat) : numeral (Nat.toDigits 10 n) = some n := by
  have hdigits : (Nat.toDigits 10 n).all Char.isDigit = true := by
    rw [List.all_eq_true]
    exact fun c hc => Nat.isDigit_of_mem_toDigits (by decide) (by decide) hc
  rw [numeral, if_pos ⟨Nat.toDigits_ne_nil, hdigits⟩, Nat.ofDigitChars_ten_toDigits]

theorem bigInt_toString (n : Int) : bigInt (toString n) = some n := by
  have htext (m : Nat) : (toString m).toList = Nat.toDigits 10 m := by simp
  cases n with
  | ofNat n =>
    have hfirst : ∀ digits, Nat.toDigits 10 n ≠ '-' :: digits := fun digits h =>
      not_mem_toDigits (c := '-') rfl n (h ▸ List.mem_cons_self)
    have hshow : toString (Int.ofNat n) = toString n := rfl
    rw [bigInt, hshow, htext]
    split
    next digits h => exact absurd h (hfirst digits)
    next => rw [numeral_toDigits, Option.map_some]
  | negSucc n =>
    have hshow : toString (Int.negSucc n) = "-" ++ toString (n + 1) := rfl
    have hsign : ("-" ++ toString (n + 1)).toList = '-' :: Nat.toDigits 10 (n + 1) := by
      rw [String.toList_append, htext]
      rfl
    rw [bigInt, hshow, hsign]
    simp only [numeral_toDigits, Option.map_some, Int.negSucc_eq, Nat.cast_add, Nat.cast_one]

theorem toString_inj {m n : Int} (h : toString m = toString n) : m = n := by
  have hvalue := congrArg bigInt h
  rwa [bigInt_toString, bigInt_toString, Option.some_inj] at hvalue

/-- The shortest decimal that rounds to the number, as digits and the number of
zeros after them: the closest one of the largest power of ten, and the even one
of two as close. -/
def shortest (n : Nat) : Nat → Nat × Nat
  | 0 => (n, 0)
  | e + 1 =>
    let unit := 10 ^ (e + 1)
    let low := n / unit
    if nearest (low * unit) = n ∧ (nearest ((low + 1) * unit) ≠ n ∨
        2 * (n % unit) < unit ∨ 2 * (n % unit) = unit ∧ low % 2 = 0) then (low, e + 1)
    else if nearest ((low + 1) * unit) = n then (low + 1, e + 1)
    else shortest n e

theorem nearest_shortest {n : Nat} (h : nearest n = n) (e : Nat) :
    nearest ((shortest n e).1 * 10 ^ (shortest n e).2) = n := by
  induction e with
  | zero =>
    rw [shortest, pow_zero, mul_one]
    exact h
  | succ e ih =>
    rw [shortest]
    split
    next hlow => exact hlow.1
    next =>
      split
      next hhigh => exact hhigh
      next => exact ih

/-- Digits with a point after the first, and the power of ten. -/
def scientific (digits : List Char) (e : Nat) : List Char :=
  digits.take 1 ++ (if digits.length = 1 then [] else '.' :: digits.drop 1) ++
    'e' :: '+' :: Nat.toDigits 10 (digits.length + e - 1)

def decimal (s e : Nat) : List Char :=
  if s * 10 ^ e < 10 ^ 21 then Nat.toDigits 10 (s * 10 ^ e) else scientific (Nat.toDigits 10 s) e

def toText : Number → List Char
  | .whole n _ =>
    let (s, e) := shortest n (Nat.toDigits 10 n).length
    decimal s e
  | .nan => "NaN".toList

theorem split_unique {α : Type} {a : α} {x₁ x₂ z₁ z₂ : List α} (h₁ : a ∉ x₁) (h₂ : a ∉ x₂)
    (h : x₁ ++ a :: z₁ = x₂ ++ a :: z₂) : x₁ = x₂ ∧ z₁ = z₂ := by
  induction x₁ generalizing x₂ with
  | nil =>
    cases x₂ with
    | nil => exact ⟨rfl, (List.cons.inj h).2⟩
    | cons b x₂ => exact absurd (List.mem_cons.mpr (.inl (List.cons.inj h).1)) h₂
  | cons b x₁ ih =>
    cases x₂ with
    | nil => exact absurd (List.mem_cons.mpr (.inl (List.cons.inj h).1.symm)) h₁
    | cons c x₂ =>
      obtain ⟨rfl, hrest⟩ := List.cons.inj h
      obtain ⟨rfl, rfl⟩ := ih (fun hm => h₁ (List.mem_cons_of_mem _ hm))
        (fun hm => h₂ (List.mem_cons_of_mem _ hm)) hrest
      exact ⟨rfl, rfl⟩

theorem filter_mantissa {digits : List Char} (h : '.' ∉ digits) :
    (digits.take 1 ++ if digits.length = 1 then [] else '.' :: digits.drop 1).filter
      (fun c => c ≠ '.') = digits := by
  have hself : digits.filter (fun c => c ≠ '.') = digits := by
    rw [List.filter_eq_self]
    intro c hc
    simpa using fun heq : c = '.' => h (heq ▸ hc)
  split
  next hone => rw [List.append_nil, List.take_of_length_le hone.le, hself]
  next =>
    rw [List.filter_append, List.filter_cons_of_neg (by simp), ← List.filter_append,
      List.take_append_drop, hself]

theorem scientific_inj {s₁ s₂ e₁ e₂ : Nat}
    (h : scientific (Nat.toDigits 10 s₁) e₁ = scientific (Nat.toDigits 10 s₂) e₂) :
    s₁ = s₂ ∧ e₁ = e₂ := by
  have hnone (s : Nat) : 'e' ∉ (Nat.toDigits 10 s).take 1 ++
      if (Nat.toDigits 10 s).length = 1 then [] else '.' :: (Nat.toDigits 10 s).drop 1 := by
    have hdigits := not_mem_toDigits (c := 'e') rfl s
    rw [List.mem_append, not_or]
    refine ⟨fun hm => hdigits (List.mem_of_mem_take hm), ?_⟩
    split
    · exact List.not_mem_nil
    · rw [List.mem_cons, not_or]
      exact ⟨by decide, fun hm => hdigits (List.mem_of_mem_drop hm)⟩
  obtain ⟨hmantissa, hexponent⟩ := split_unique (hnone s₁) (hnone s₂) h
  have hdigits := congrArg (List.filter (fun c => c ≠ '.')) hmantissa
  rw [filter_mantissa (not_mem_toDigits rfl s₁), filter_mantissa (not_mem_toDigits rfl s₂)]
    at hdigits
  obtain rfl := toDigits_inj hdigits
  have hpower := toDigits_inj (List.cons.inj hexponent).2
  have hlen : 0 < (Nat.toDigits 10 s₁).length := Nat.length_toDigits_pos
  exact ⟨rfl, by omega⟩

theorem mem_scientific (digits : List Char) (e : Nat) : 'e' ∈ scientific digits e := by
  simp [scientific]

theorem decimal_inj {s₁ s₂ e₁ e₂ : Nat} (h : decimal s₁ e₁ = decimal s₂ e₂) :
    s₁ * 10 ^ e₁ = s₂ * 10 ^ e₂ := by
  unfold decimal at h
  split at h
  · split at h
    · exact toDigits_inj h
    · exact absurd (h ▸ mem_scientific _ _) (not_mem_toDigits rfl _)
  · split at h
    · exact absurd (h ▸ mem_scientific _ _) (not_mem_toDigits rfl _)
    · obtain ⟨rfl, rfl⟩ := scientific_inj h
      rfl

theorem not_mem_decimal {c : Char} (hdigit : c.isDigit = false) (hc : c ∉ ['.', 'e', '+'])
    (s e : Nat) : c ∉ decimal s e := by
  simp only [List.mem_cons, List.not_mem_nil, or_false, not_or] at hc
  have hs := not_mem_toDigits hdigit s
  unfold decimal
  split
  · exact not_mem_toDigits hdigit _
  · simp only [scientific, List.mem_append, List.mem_cons, not_or]
    refine ⟨⟨fun hm => hs (List.mem_of_mem_take hm), ?_⟩, hc.2.1, hc.2.2, not_mem_toDigits hdigit _⟩
    split
    · exact List.not_mem_nil
    · rw [List.mem_cons, not_or]
      exact ⟨hc.1, fun hm => hs (List.mem_of_mem_drop hm)⟩

theorem toText_inj {x y : Number} (h : toText x = toText y) : x = y := by
  have hnan (s e : Nat) : decimal s e ≠ "NaN".toList := fun heq =>
    not_mem_decimal (c := 'N') rfl (by decide) s e (heq ▸ by decide)
  cases x with
  | whole m hm =>
    cases y with
    | whole n hn =>
      have hvalue := congrArg nearest (decimal_inj h)
      rw [nearest_shortest hm, nearest_shortest hn] at hvalue
      cases hvalue
      rfl
    | nan => exact absurd h (hnan _ _)
  | nan =>
    cases y with
    | whole n hn => exact absurd h.symm (hnan _ _)
    | nan => rfl

theorem not_mem_toText (x : Number) : '-' ∉ toText x := by
  cases x with
  | whole n hn => exact not_mem_decimal rfl (by decide) _ _
  | nan => decide

end Suban.Basis.Numbers

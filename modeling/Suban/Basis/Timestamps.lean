import Mathlib.Data.String.Basic
import Mathlib.Tactic.Positivity
import Mathlib.Tactic.Tauto
import Mathlib.Tactic.Zify
import Suban.Basis.Calendar

namespace Suban.Basis.Timestamps

open Suban.Basis.Calendar

section Digits

variable {m n width : Nat}

def digits : Nat → Nat → List Char
  | 0, _ => []
  | width + 1, n => digits width (n / 10) ++ [Nat.digitChar (n % 10)]

@[simp] theorem length_digits (width n : Nat) : (digits width n).length = width := by
  induction width generalizing n with
  | zero => rfl
  | succ width ih => rw [digits, List.length_append, ih, List.length_singleton]

theorem digits_add (a b n : Nat) : digits (a + b) n = digits a (n / 10 ^ b) ++ digits b n := by
  induction b generalizing n with
  | zero => simp [digits]
  | succ b ih =>
    rw [← Nat.add_assoc, digits, ih, digits, Nat.div_div_eq_div_mul, ← Nat.pow_succ',
      List.append_assoc]

theorem digitChar_lt {x y : Nat} (hx : x < 10) (hy : y < 10) :
    Nat.digitChar x < Nat.digitChar y ↔ x < y := by
  have h : ∀ x < 10, ∀ y < 10, Nat.digitChar x < Nat.digitChar y ↔ x < y := by decide
  exact h x hx y hy

theorem isDigit_digitChar {x : Nat} (hx : x < 10) : (Nat.digitChar x).isDigit = true := by
  have h : ∀ x < 10, (Nat.digitChar x).isDigit = true := by decide
  exact h x hx

theorem isDigit_of_mem {c : Char} (h : c ∈ digits width n) : c.isDigit = true := by
  induction width generalizing n with
  | zero => cases h
  | succ width ih =>
    obtain h | h := List.mem_append.mp h
    · exact ih h
    · rw [List.mem_singleton.mp h]
      exact isDigit_digitChar (Nat.mod_lt n (by decide))

theorem exists_digits_succ (width n : Nat) :
    ∃ c cs, digits (width + 1) n = c :: cs ∧ c.isDigit = true := by
  obtain ⟨c, cs, heq⟩ := List.exists_cons_of_length_eq_add_one (length_digits (width + 1) n)
  exact ⟨c, cs, heq, isDigit_of_mem (heq ▸ List.mem_cons_self)⟩

section Order

variable {xs ys us vs : List Char}

theorem append_lt_append (h : xs.length = ys.length) :
    xs ++ us < ys ++ vs ↔ xs < ys ∨ xs = ys ∧ us < vs := by
  induction xs generalizing ys with
  | nil =>
    obtain rfl := List.length_eq_zero_iff.mp h.symm
    simp
  | cons x xs ih =>
    cases ys with
    | nil => cases h
    | cons y ys =>
      have ih := ih (Nat.succ.inj h)
      simp only [List.cons_append, List.cons_lt_cons_iff, ih, List.cons.injEq]
      tauto

theorem append_lt_of_lt (h : xs.length = ys.length) (hlt : xs < ys) : xs ++ us < ys ++ vs :=
  (append_lt_append h).mpr (.inl hlt)

theorem append_lt_append_left (hlt : us < vs) : xs ++ us < xs ++ vs :=
  (append_lt_append rfl).mpr (.inr ⟨rfl, hlt⟩)

theorem digits_lt (hn : n < 10 ^ width) (h : m < n) : digits width m < digits width n := by
  induction width generalizing m n with
  | zero =>
    rw [Nat.pow_zero] at hn
    omega
  | succ width ih =>
    rw [Nat.pow_succ] at hn
    rw [digits, digits]
    obtain hlt | hge := Nat.lt_or_ge (m / 10) (n / 10)
    · exact append_lt_of_lt (by simp) (ih (by omega) hlt)
    · have hsame : m / 10 = n / 10 := by omega
      have hlast : Nat.digitChar (m % 10) < Nat.digitChar (n % 10) :=
        (digitChar_lt (by omega) (by omega)).mpr (by omega)
      rw [hsame]
      exact append_lt_append_left (List.cons_lt_cons_iff.mpr (.inl hlast))

end Order

end Digits

variable {k p : Nat} {s s' t x y : Int}

/-- A year of more than four digits, or one before the first, has six and its
sign. -/
def yearText (y : Int) : List Char :=
  if 0 ≤ y ∧ y ≤ 9999 then digits 4 y.toNat
  else if y < 0 then '-' :: digits 6 y.natAbs else '+' :: digits 6 y.natAbs

def restText (m : Moment) : List Char :=
  '-' :: (digits 2 m.month ++ '-' :: (digits 2 m.day ++ 'T' :: (digits 2 m.hour ++
    ':' :: (digits 2 m.minute ++ ':' :: digits 2 m.second))))

def secondText (s : Int) : List Char := yearText (moment s).year ++ restText (moment s)

/-- The text of an instant that is given in parts of a second, with so many
decimal places. -/
def stamp (places : Nat) (x : Int) : List Char :=
  secondText (x / 10 ^ places) ++
    if places = 0 then [] else '.' :: digits places (x % 10 ^ places).toNat

/-- The milliseconds that a date may have. -/
def TimeValue := { t : Int // t.natAbs ≤ 8640000000000000 }

def timeClip (t : Int) : Option TimeValue :=
  if h : t.natAbs ≤ 8640000000000000 then some ⟨t, h⟩ else none

def toISOString (t : TimeValue) : String := String.ofList (stamp 3 t.1 ++ ['Z'])

def Plain (s : Int) : Prop := 0 ≤ (moment s).year ∧ (moment s).year ≤ 9999

instance (s : Int) : Decidable (Plain s) := inferInstanceAs (Decidable (_ ∧ _))

theorem yearText_of_plain (hs : Plain s) :
    yearText (moment s).year = digits 4 (moment s).year.toNat := if_pos hs

theorem field_lt {width m n : Nat} {us vs : List Char} (hn : n < 10 ^ width)
    (h : m < n ∨ m = n ∧ us < vs) : digits width m ++ us < digits width n ++ vs := by
  obtain hlt | ⟨rfl, hlt⟩ := h
  · exact append_lt_of_lt (by simp) (digits_lt hn hlt)
  · exact append_lt_append_left hlt

theorem separated_lt {c : Char} {us vs : List Char} (h : us < vs) : c :: us < c :: vs :=
  List.cons_lt_cons_iff.mpr (.inr ⟨rfl, h⟩)

theorem secondText_lt (hs : Plain s) (hs' : Plain s') (h : s < s') :
    secondText s < secondText s' := by
  obtain ⟨hmonth, hday, hhour, hminute, hsecond⟩ := moment_fits s'
  have hyear : (moment s').year.toNat < 10 ^ 4 := by
    obtain ⟨-, hle⟩ := hs'
    omega
  rw [secondText, secondText, yearText_of_plain hs, yearText_of_plain hs']
  refine field_lt hyear ((moment_lt h).imp ?_ (And.imp ?_ fun h => separated_lt ?_))
  · intro hlt
    have hpos := hs.1
    omega
  · exact congrArg Int.toNat
  refine field_lt (by omega) (h.imp_right (And.imp_right fun h => separated_lt ?_))
  refine field_lt (by omega) (h.imp_right (And.imp_right fun h => separated_lt ?_))
  refine field_lt (by omega) (h.imp_right (And.imp_right fun h => separated_lt ?_))
  refine field_lt (by omega) (h.imp_right (And.imp_right fun h => separated_lt ?_))
  exact digits_lt (by omega) h

theorem length_secondText (hs : Plain s) : (secondText s).length = 19 := by
  rw [secondText, yearText_of_plain hs]
  simp [restText]

theorem length_stamp (hx : Plain (x / 10 ^ p)) :
    (stamp p x).length = 19 + if p = 0 then 0 else p + 1 := by
  rw [stamp, List.length_append, length_secondText hx]
  split <;> simp

theorem stamp_lt (hx : Plain (x / 10 ^ p)) (hy : Plain (y / 10 ^ p)) (h : x < y) :
    stamp p x < stamp p y := by
  have hpow : (0 : Int) < 10 ^ p := by positivity
  have hlength : (secondText (x / 10 ^ p)).length = (secondText (y / 10 ^ p)).length := by
    rw [length_secondText hx, length_secondText hy]
  obtain hlt | heq := (Int.ediv_le_ediv hpow h.le).lt_or_eq
  · exact append_lt_of_lt hlength (secondText_lt hx hy hlt)
  · rw [stamp, stamp, heq]
    refine append_lt_append_left ?_
    have hpart : x % 10 ^ p < y % 10 ^ p := by
      have hx' := Int.mul_ediv_add_emod x (10 ^ p)
      have hy' := Int.mul_ediv_add_emod y (10 ^ p)
      rw [heq] at hx'
      omega
    have hlow := Int.emod_nonneg x hpow.ne'
    have hhigh := Int.emod_lt_of_pos y hpow
    have hcast : ((10 ^ p : Nat) : Int) = 10 ^ p := by push_cast; rfl
    obtain rfl | hp := Nat.eq_zero_or_pos p
    · rw [pow_zero] at hhigh
      omega
    · rw [if_neg hp.ne', if_neg hp.ne']
      exact separated_lt (digits_lt (by omega) (by omega))

/-- Stamps with something behind them are in the order of the instants first. -/
theorem stamp_append_lt {us vs : List Char} (hx : Plain (x / 10 ^ p)) (hy : Plain (y / 10 ^ p)) :
    stamp p x ++ us < stamp p y ++ vs ↔ x < y ∨ x = y ∧ us < vs := by
  have hlength : (stamp p x).length = (stamp p y).length := by
    rw [length_stamp hx, length_stamp hy]
  rw [append_lt_append hlength]
  obtain hlt | rfl | hgt := lt_trichotomy x y
  · exact iff_of_true (.inl (stamp_lt hx hy hlt)) (.inl hlt)
  · simp
  · have hless := stamp_lt hy hx hgt
    refine iff_of_false ?_ (by omega)
    rintro (h | ⟨heq, -⟩)
    · exact lt_asymm h hless
    · exact hless.ne' heq

theorem lt_Z_of_isDigit {c : Char} (h : c.isDigit = true) : c < 'Z' := by
  have hnine : c ≤ '9' := by
    unfold Char.isDigit at h
    rw [Bool.and_eq_true, decide_eq_true_eq, decide_eq_true_eq] at h
    exact h.2
  exact hnine.trans_lt (by decide)

theorem emod_ediv {a b : Int} (ha : 0 < a) : x % (a * b) / a = x / a % b := by
  rw [Int.emod_def, ← Int.ediv_ediv_of_nonneg ha.le, mul_assoc, Int.sub_mul_ediv_left _ _ ha.ne',
    ← Int.emod_def]

/-- What more places add is not as far in the alphabet as the end of a text. -/
theorem exists_tail (p j : Nat) (x : Int) :
    ∃ c cs, stamp (p + (j + 1)) x = stamp p (x / 10 ^ (j + 1)) ++ c :: cs ∧ c < 'Z' := by
  have hj : (0 : Int) < 10 ^ (j + 1) := by positivity
  have hpow : (10 : Int) ^ (p + (j + 1)) = 10 ^ (j + 1) * 10 ^ p := by rw [← pow_add, Nat.add_comm]
  have hsecond : x / 10 ^ (j + 1) / 10 ^ p = x / 10 ^ (p + (j + 1)) := by
    rw [Int.ediv_ediv_of_nonneg hj.le, hpow]
  obtain rfl | hp := Nat.eq_zero_or_pos p
  · refine ⟨'.', digits (0 + (j + 1)) (x % 10 ^ (0 + (j + 1))).toNat, ?_, by decide⟩
    rw [stamp, stamp, hsecond, if_neg (by omega), if_pos rfl, List.append_nil]
  · obtain ⟨c, cs, heq, hc⟩ := exists_digits_succ j (x % 10 ^ (p + (j + 1))).toNat
    refine ⟨c, cs, ?_, lt_Z_of_isDigit hc⟩
    have hpart : (x % 10 ^ (p + (j + 1))).toNat / 10 ^ (j + 1) =
        (x / 10 ^ (j + 1) % 10 ^ p).toNat := by
      have hnonneg := Int.emod_nonneg x (b := 10 ^ (p + (j + 1))) (by positivity)
      have hpart := emod_ediv (x := x) (b := 10 ^ p) hj
      rw [← hpow] at hpart
      zify
      rw [Int.toNat_of_nonneg hnonneg, hpart, Int.toNat_of_nonneg]
      exact Int.emod_nonneg _ (by positivity)
    rw [stamp, stamp, hsecond, if_neg (by omega), if_neg hp.ne', digits_add, heq, hpart,
      List.append_assoc, List.cons_append]

/-- The texts of two instants, with some places and with the same or more, are in
the order of what the places that both have tell, and then the longer comes
first. -/
theorem stamp_order (j : Nat) (hx : Plain (x / 10 ^ p)) (ht : Plain (t / 10 ^ (p + j))) :
    (stamp p x ++ ['Z'] < stamp (p + j) t ++ ['Z'] ↔ x < t / 10 ^ j) ∧
      (stamp (p + j) t ++ ['Z'] < stamp p x ++ ['Z'] ↔
        t / 10 ^ j < x ∨ t / 10 ^ j = x ∧ 0 < j) := by
  cases j with
  | zero =>
    rw [Nat.add_zero] at ht
    rw [Nat.add_zero, pow_zero, Int.ediv_one, stamp_append_lt hx ht, stamp_append_lt ht hx]
    simp
  | succ j =>
    obtain ⟨c, cs, heq, hc⟩ := exists_tail p j t
    have hplain : Plain (t / 10 ^ (j + 1) / 10 ^ p) := by
      rwa [Int.ediv_ediv_of_nonneg (by positivity), ← pow_add, Nat.add_comm]
    have hless : c :: (cs ++ ['Z']) < ['Z'] := List.cons_lt_cons_iff.mpr (.inl hc)
    rw [heq, List.append_assoc, List.cons_append, stamp_append_lt hx hplain,
      stamp_append_lt hplain hx]
    simp [hless, not_lt_of_gt hless]

section Iso

variable (hx : Plain (x / 10 ^ k)) (ht : Plain (t / 10 ^ 3))

include hx ht

theorem lt_iso_iff : stamp k x ++ ['Z'] < stamp 3 t ++ ['Z'] ↔
    x / 10 ^ (k - 3) < t / 10 ^ (3 - k) ∨ x / 10 ^ (k - 3) = t / 10 ^ (3 - k) ∧ 3 < k := by
  obtain h | h := Nat.le_total k 3
  · obtain ⟨j, hj⟩ := Nat.exists_eq_add_of_le h
    rw [hj] at ht
    rw [hj, (stamp_order j hx ht).1, Nat.sub_eq_zero_of_le (Nat.le_add_right k j),
      Nat.add_sub_cancel_left, pow_zero, Int.ediv_one]
    omega
  · obtain ⟨j, rfl⟩ := Nat.exists_eq_add_of_le h
    rw [(stamp_order j ht hx).2, Nat.sub_eq_zero_of_le h, Nat.add_sub_cancel_left, pow_zero,
      Int.ediv_one]
    omega

theorem iso_lt_iff : stamp 3 t ++ ['Z'] < stamp k x ++ ['Z'] ↔
    t / 10 ^ (3 - k) < x / 10 ^ (k - 3) ∨ t / 10 ^ (3 - k) = x / 10 ^ (k - 3) ∧ k < 3 := by
  obtain h | h := Nat.le_total k 3
  · obtain ⟨j, hj⟩ := Nat.exists_eq_add_of_le h
    rw [hj] at ht
    rw [hj, (stamp_order j hx ht).2, Nat.sub_eq_zero_of_le (Nat.le_add_right k j),
      Nat.add_sub_cancel_left, pow_zero, Int.ediv_one]
    omega
  · obtain ⟨j, rfl⟩ := Nat.exists_eq_add_of_le h
    rw [(stamp_order j ht hx).1, Nat.sub_eq_zero_of_le h, Nat.add_sub_cancel_left, pow_zero,
      Int.ediv_one]
    omega

end Iso

/-- The sign of a longer year comes before all digits. -/
theorem expanded_lt (us vs : List Char) (hx : Plain (x / 10 ^ k)) (ht : ¬ Plain (t / 10 ^ p)) :
    stamp p t ++ us < stamp k x ++ vs := by
  obtain ⟨c, cs, heq, hc⟩ := exists_digits_succ 3 (moment (x / 10 ^ k)).year.toNat
  have hzero : '0' ≤ c := (Char.isDigit_iff_toNat.mp hc).1
  have hstart : ∃ sign rest, yearText (moment (t / 10 ^ p)).year = sign :: rest ∧ sign < '0' := by
    unfold Plain at ht
    rw [yearText, if_neg ht]
    split
    · exact ⟨'-', _, rfl, by decide⟩
    · exact ⟨'+', _, rfl, by decide⟩
  obtain ⟨sign, rest, hsign, hless⟩ := hstart
  rw [stamp, stamp, secondText, secondText, yearText_of_plain hx, heq, hsign]
  exact List.cons_lt_cons_iff.mpr (.inl (hless.trans_le hzero))

end Suban.Basis.Timestamps

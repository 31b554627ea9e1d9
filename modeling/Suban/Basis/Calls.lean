import Mathlib.Algebra.Order.Ring.Int
import Mathlib.Tactic.Basic

namespace Suban.Basis.Calls

/-- A call fails with one of the contract's own error codes, or it traps: a
panic, an arithmetic overflow, a failing call into another contract. -/
inductive Failure (ε : Type) where
  | error (e : ε)
  | panic
  deriving DecidableEq

abbrev Outcome (ε α : Type) := Except (Failure ε) α

variable {ε α β : Type}

def rejectIf (p : Prop) [Decidable p] (e : ε) : Outcome ε Unit :=
  if p then .error (.error e) else .ok ()

def panicIf (p : Prop) [Decidable p] : Outcome ε Unit :=
  if p then .error .panic else .ok ()

def unwrap : Option α → Outcome ε α
  | some a => .ok a
  | none => .error .panic

def okOr : Option α → ε → Outcome ε α
  | some a, _ => .ok a
  | none, e => .error (.error e)

def minI128 : Int := -2 ^ 127

def maxI128 : Int := 2 ^ 127 - 1

theorem inRange_of_nonneg {x : Int} (h : 0 ≤ x) (hx : x ≤ maxI128) :
    minI128 ≤ x ∧ x ≤ maxI128 :=
  ⟨le_trans (by decide) h, hx⟩

/-- Overflow checks are on: a result outside the signed 128-bit range traps. -/
def checked (x : Int) : Outcome ε Int :=
  if minI128 ≤ x ∧ x ≤ maxI128 then .ok x else .error .panic

/-- The same range, where the code turns an overflow into an error of its own. -/
def checkedOr (x : Int) (e : ε) : Outcome ε Int :=
  if minI128 ≤ x ∧ x ≤ maxI128 then .ok x else .error (.error e)

/-- Division truncates towards zero and traps on a zero divisor. -/
def checkedDiv (a b : Int) : Outcome ε Int :=
  if b = 0 then .error .panic else checked (a.tdiv b)

def checkedUInt (width n : Nat) : Outcome ε Nat :=
  if n < 2 ^ width then .ok n else .error .panic

@[simp] theorem bind_eq_ok {x : Outcome ε α} {f : α → Outcome ε β} {b : β} :
    (x >>= f) = .ok b ↔ ∃ a, x = .ok a ∧ f a = .ok b := by
  cases x <;> simp [bind, Except.bind]

theorem ok_bind (a : α) (f : α → Outcome ε β) : ((.ok a : Outcome ε α) >>= f) = f a := rfl

theorem bind_bind {γ : Type} (x : Outcome ε α) (f : α → Outcome ε β) (g : β → Outcome ε γ) :
    (x >>= f) >>= g = x >>= fun a => f a >>= g := by
  cases x <;> rfl

theorem exists_of_isOk {x : Outcome ε α} (h : x.isOk = true) : ∃ a, x = .ok a := by
  cases x with
  | ok a => exact ⟨a, rfl⟩
  | error e => cases h

@[simp] theorem pure_eq_ok {a b : α} : (pure a : Outcome ε α) = .ok b ↔ a = b := by
  simp [pure, Except.pure]

@[simp] theorem rejectIf_eq_ok {p : Prop} [Decidable p] {e : ε} {u : Unit} :
    rejectIf p e = .ok u ↔ ¬ p := by
  by_cases h : p <;> simp [rejectIf, h]

@[simp] theorem panicIf_eq_ok {p : Prop} [Decidable p] {u : Unit} :
    (panicIf p : Outcome ε Unit) = .ok u ↔ ¬ p := by
  by_cases h : p <;> simp [panicIf, h]

@[simp] theorem unwrap_eq_ok {o : Option α} {a : α} :
    (unwrap o : Outcome ε α) = .ok a ↔ o = some a := by
  cases o <;> simp [unwrap]

@[simp] theorem okOr_eq_ok {o : Option α} {e : ε} {a : α} :
    okOr o e = .ok a ↔ o = some a := by
  cases o <;> simp [okOr]

@[simp] theorem checked_eq_ok {x y : Int} :
    (checked x : Outcome ε Int) = .ok y ↔ (minI128 ≤ x ∧ x ≤ maxI128) ∧ x = y := by
  by_cases h : minI128 ≤ x ∧ x ≤ maxI128 <;> simp [checked, h]

@[simp] theorem checkedOr_eq_ok {x y : Int} {e : ε} :
    checkedOr x e = .ok y ↔ (minI128 ≤ x ∧ x ≤ maxI128) ∧ x = y := by
  by_cases h : minI128 ≤ x ∧ x ≤ maxI128 <;> simp [checkedOr, h]

@[simp] theorem checkedDiv_eq_ok {a b y : Int} :
    (checkedDiv a b : Outcome ε Int) = .ok y ↔
      b ≠ 0 ∧ (minI128 ≤ a.tdiv b ∧ a.tdiv b ≤ maxI128) ∧ a.tdiv b = y := by
  by_cases h : b = 0 <;> simp [checkedDiv, h]

@[simp] theorem checkedUInt_eq_ok {width n m : Nat} :
    (checkedUInt width n : Outcome ε Nat) = .ok m ↔ n < 2 ^ width ∧ n = m := by
  by_cases h : n < 2 ^ width <;> simp [checkedUInt, h]

section Panics

@[simp] theorem bind_eq_error {x : Outcome ε α} {f : α → Outcome ε β} {e : Failure ε} :
    (x >>= f) = .error e ↔ x = .error e ∨ ∃ a, x = .ok a ∧ f a = .error e := by
  cases x <;> simp [bind, Except.bind]

@[simp] theorem pure_ne_panic {a : α} : ¬ (pure a : Outcome ε α) = .error .panic := nofun

@[simp] theorem rejectIf_ne_panic {p : Prop} [Decidable p] {e : ε} :
    ¬ rejectIf p e = .error .panic := by
  by_cases h : p <;> simp [rejectIf, h]

@[simp] theorem checkedOr_ne_panic {x : Int} {e : ε} : ¬ checkedOr x e = .error .panic := by
  by_cases h : minI128 ≤ x ∧ x ≤ maxI128 <;> simp [checkedOr, h]

@[simp] theorem checked_eq_panic {x : Int} :
    (checked x : Outcome ε Int) = .error .panic ↔ ¬ (minI128 ≤ x ∧ x ≤ maxI128) := by
  by_cases h : minI128 ≤ x ∧ x ≤ maxI128 <;> simp [checked, h]

@[simp] theorem checkedDiv_eq_panic {a b : Int} :
    (checkedDiv a b : Outcome ε Int) = .error .panic ↔
      b = 0 ∨ b ≠ 0 ∧ ¬ (minI128 ≤ a.tdiv b ∧ a.tdiv b ≤ maxI128) := by
  by_cases h : b = 0 <;> simp [checkedDiv, h]

end Panics

theorem bind_ne_error {x : Outcome ε α} {f : α → Outcome ε β} {e : Failure ε}
    (hx : x ≠ .error e) (hf : ∀ a, x = .ok a → f a ≠ .error e) : (x >>= f) ≠ .error e := by
  cases x with
  | ok a => exact hf a rfl
  | error d => exact fun h => hx (by simpa [bind, Except.bind] using h)

theorem pure_ne_error (a : α) (e : Failure ε) : (pure a : Outcome ε α) ≠ .error e := by
  simp [pure, Except.pure]

theorem rejectIf_ne_error {p : Prop} [Decidable p] {d e : ε} (hne : d ≠ e) :
    rejectIf p d ≠ .error (.error e) := by
  by_cases h : p <;> simp [rejectIf, h, hne]

theorem rejectIf_eq_error {p : Prop} [Decidable p] {d e : ε} :
    rejectIf p d = .error (.error e) ↔ p ∧ d = e := by
  by_cases h : p <;> simp [rejectIf, h]

theorem panicIf_ne_error (p : Prop) [Decidable p] (e : ε) : panicIf p ≠ .error (.error e) := by
  by_cases h : p <;> simp [panicIf, h]

theorem unwrap_ne_error (o : Option α) (e : ε) : unwrap o ≠ .error (.error e) := by
  cases o <;> simp [unwrap]

theorem checked_ne_error (x : Int) (e : ε) : checked x ≠ .error (.error e) := by
  by_cases h : minI128 ≤ x ∧ x ≤ maxI128 <;> simp [checked, h]

theorem checkedUInt_ne_error (width n : Nat) (e : ε) :
    checkedUInt width n ≠ .error (.error e) := by
  by_cases h : n < 2 ^ width <;> simp [checkedUInt, h]

theorem exists_ok {x : Outcome ε α} (herror : ∀ e, x ≠ .error (.error e))
    (hpanic : x ≠ .error .panic) : ∃ a, x = .ok a := by
  obtain (e | -) | a := x
  · exact absurd rfl (herror e)
  · exact absurd rfl hpanic
  · exact ⟨a, rfl⟩

end Suban.Basis.Calls

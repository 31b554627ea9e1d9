import Suban.Basis.Calls
import Suban.Basis.Runs

namespace Suban.Soroban.Host

open Suban.Basis.Calls Suban.Basis.Runs

variable {Address W ε : Type}

/-- What the host tells a contract about one invocation. An address authorises
by a signature or by making the call itself, so a contract that never calls
itself is not among those that do. -/
structure Env (Address : Type) (contract : Address) where
  sequence : Nat
  timestamp : Nat
  auths : Address → Bool
  self_auths : auths contract = false

variable {contract : Address}

def requireAuth (env : Env Address contract) (a : Address) : Outcome ε Unit :=
  panicIf (env.auths a = false)

@[simp] theorem requireAuth_eq_ok {env : Env Address contract} {a : Address} {u : Unit} :
    (requireAuth env a : Outcome ε Unit) = .ok u ↔ env.auths a = true := by
  simp [requireAuth]

theorem ne_self {env : Env Address contract} {a : Address} (h : env.auths a = true) :
    a ≠ contract := by
  rintro rfl
  simp [env.self_auths] at h

variable [DecidableEq Address]

/-- An invocation that every address but the contract itself has authorised. -/
def Env.signed (contract : Address) (sequence : Nat) : Env Address contract where
  sequence := sequence
  timestamp := sequence
  auths a := decide (a ≠ contract)
  self_auths := by simp

/-- A world of SEP-41 token contracts. Balances are not negative. A transfer
that succeeds moves exactly the amount, which is not negative and which the
sender holds. It may fail for reasons of its own. -/
structure Sep41 (Address W : Type) [DecidableEq Address] where
  balance : W → Address → Address → Int
  transfer : W → Address → Address → Address → Int → Option W
  balance_nonneg w token a : 0 ≤ balance w token a
  transfer_covered {w w' token src dst n} : transfer w token src dst n = some w' →
    0 ≤ n ∧ n ≤ balance w token src
  balance_transfer {w w' token src dst n} : transfer w token src dst n = some w' → ∀ t a,
    balance w' t a = balance w t a - (if t = token ∧ a = src then n else 0) +
      (if t = token ∧ a = dst then n else 0)

namespace Sep41

variable (T : Sep41 Address W) {w w' : W} {token src dst a : Address} {n : Int}

theorem balance_in (h : T.transfer w token src a n = some w') (hne : src ≠ a) :
    T.balance w' token a = T.balance w token a + n := by
  rw [T.balance_transfer h]
  simp [Ne.symm hne]

theorem balance_out (h : T.transfer w token a dst n = some w') (hne : dst ≠ a) :
    T.balance w' token a = T.balance w token a - n := by
  rw [T.balance_transfer h]
  simp [Ne.symm hne]

theorem balance_other (h : T.transfer w token src dst n = some w') {t : Address}
    (hne : t ≠ token) : T.balance w' t a = T.balance w t a := by
  rw [T.balance_transfer h]
  simp [hne]

end Sep41

structure StellarAsset (Address W : Type) [DecidableEq Address] extends Sep41 Address W where
  mint : W → Address → Address → Int → Option W
  balance_mint {w w' token dst n} : mint w token dst n = some w' → ∀ t a,
    balance w' t a = balance w t a + (if t = token ∧ a = dst then n else 0)

/-- Between its own calls a contract sees the rest of the chain move on. -/
inductive Input (Address W : Type) (contract : Address) (C : Type) where
  | call (env : Env Address contract) (c : C)
  | world (w : W)

/-- Plain books of account, one column of holders for each token. -/
def bookToken (Address : Type) [DecidableEq Address] :
    Sep41 Address (Address → Address → Nat) where
  balance w token a := w token a
  transfer w token src dst n :=
    if 0 ≤ n ∧ n ≤ w token src then
      some (fun t a => (w t a - (if t = token ∧ a = src then n else 0) +
        (if t = token ∧ a = dst then n else 0)).toNat)
    else none
  balance_nonneg _ _ _ := Int.natCast_nonneg _
  transfer_covered h := by
    split at h
    next hn => exact hn
    next => cases h
  balance_transfer h t a := by
    split at h
    next hn =>
      cases h
      apply Int.toNat_of_nonneg
      split
      next ht => obtain ⟨rfl, rfl⟩ := ht; split <;> omega
      next => split <;> omega
    next => cases h

/-- The same books, in which anyone may be credited a non-negative amount. -/
def bookAsset (Address : Type) [DecidableEq Address] :
    StellarAsset Address (Address → Address → Nat) where
  toSep41 := bookToken Address
  mint w token dst n :=
    if 0 ≤ n then some (fun t a => w t a + if t = token ∧ a = dst then n.toNat else 0) else none
  balance_mint h t a := by
    split at h
    next hn =>
      cases h
      simp only [bookToken]
      split <;> omega
    next => cases h

section Authority

variable {C σ : Type}

omit [DecidableEq Address]

def ByAdmin (admin : Option Address) : Input Address W contract C → Prop
  | .call env _ => ∃ a, admin = some a ∧ env.auths a = true
  | .world _ => False

/-- Where a call changes what is governed, the administrator who was stored
before it authorised it. -/
def Obeyed (step : σ → Input Address W contract C → Outcome ε σ) (adminOf : σ → Option Address)
    (Governed : σ → σ → Prop) (s : σ) (i : Input Address W contract C) : Prop :=
  ∀ t, step s i = .ok t → Governed s t → ByAdmin (adminOf s) i

theorem along_obeyed_iff {step : σ → Input Address W contract C → Outcome ε σ}
    {adminOf : σ → Option Address} {Governed : σ → σ → Prop}
    {Ruled : σ → Input Address W contract C → Prop}
    (hstep : ∀ s i t, step s i = .ok t → ((Governed s t → ByAdmin (adminOf s) i) ↔ Ruled s i))
    (s : σ) (is : List (Input Address W contract C)) :
    Along step (Obeyed step adminOf Governed) s is ↔ Along step Ruled s is := by
  refine along_congr (J := fun _ => True) (E := fun _ _ => True) (fun _ _ _ _ _ _ => trivial)
    (fun u i t _ _ ht => ?_) trivial (along_true s is)
  rw [← hstep u i t ht]
  refine ⟨?_, ?_⟩
  · exact fun h => h t ht
  · intro h v hv
    cases ht.symm.trans hv
    exact h

end Authority

end Suban.Soroban.Host

import Suban.Basis.Calls
import Suban.Basis.Tables

namespace Suban.Evm.Host

open Suban.Basis.Calls Suban.Basis.Tables

abbrev Word := BitVec 256

abbrev Account := BitVec 160

abbrev Bytes := List UInt8

/-- Why a call reverts: a `require` with its text, or one of the errors of the
library contracts. -/
inductive Revert where
  | reason (text : String)
  | unauthorizedAccount
  | enforcedPause
  | expectedPause
  | invalidSignature
  | erc20
  deriving DecidableEq

structure Msg where
  sender : Account
  timestamp : Word

variable {α : Type}

def require (p : Prop) [Decidable p] (text : String) : Outcome Revert Unit :=
  rejectIf (¬ p) (.reason text)

@[simp] theorem require_eq_ok {p : Prop} [Decidable p] {text : String} {u : Unit} :
    require p text = .ok u ↔ p := by
  simp [require]

def checkedAdd (a b : Word) : Outcome Revert Word :=
  if a.toNat + b.toNat < 2 ^ 256 then .ok (a + b) else .error .panic

@[simp] theorem checkedAdd_eq_ok {a b c : Word} :
    checkedAdd a b = .ok c ↔ a.toNat + b.toNat < 2 ^ 256 ∧ a + b = c := by
  by_cases h : a.toNat + b.toNat < 2 ^ 256
  · rw [checkedAdd, if_pos h, Except.ok.injEq, and_iff_right h]
  · rw [checkedAdd, if_neg h]
    simp only [h, false_and, reduceCtorEq]

def bigEndian : Nat → Nat → Bytes
  | 0, _ => []
  | width + 1, n => bigEndian width (n / 256) ++ [UInt8.ofNat n]

/-- Hashing, and the recovery of the one account that can have made a
signature over a digest. -/
structure Crypto where
  keccak256 : Bytes → Word
  recover : Word → Bytes → Option Account
  SignedBy : Word → Bytes → Account → Prop
  recover_signer {digest signature a} :
    recover digest signature = some a → SignedBy digest signature a
  signer_unique {digest signature a b} :
    SignedBy digest signature a → SignedBy digest signature b → a = b

/-- The holdings of an ERC-20 token. Minting and burning move the supply by
exactly the amount, and fail otherwise. -/
structure Erc20 (B : Type) where
  totalSupply : B → Word
  mint : B → Account → Word → Option B
  burn : B → Account → Word → Option B
  totalSupply_mint {b b' dst n} : mint b dst n = some b' →
    (totalSupply b').toNat = (totalSupply b).toNat + n.toNat
  totalSupply_burn {b b' src n} : burn b src n = some b' →
    (totalSupply b').toNat + n.toNat = (totalSupply b).toNat

/-- A supply next to plain books of account. -/
def bookErc20 : Erc20 (Word × (Account → Word)) where
  totalSupply b := b.1
  mint b dst n :=
    if dst ≠ 0 ∧ b.1.toNat + n.toNat < 2 ^ 256 then
      some (b.1 + n, fun a => if a = dst then b.2 a + n else b.2 a)
    else none
  burn b src n :=
    if src ≠ 0 ∧ n ≤ b.2 src ∧ n ≤ b.1 then
      some (b.1 - n, fun a => if a = src then b.2 a - n else b.2 a)
    else none
  totalSupply_mint h := by
    split at h
    next hn =>
      cases h
      exact BitVec.toNat_add_of_lt hn.2
    next => cases h
  totalSupply_burn h := by
    split at h
    next hn =>
      cases h
      rw [BitVec.toNat_sub_of_le hn.2.2]
      exact Nat.sub_add_cancel (BitVec.le_def.mp hn.2.2)
    next => cases h

variable {Role : Type} [DecidableEq Role]

abbrev Roles (Role : Type) := Table (Role × Account) Bool

def hasRole (roles : Roles Role) (role : Role) (a : Account) : Bool :=
  readOr roles (role, a) false

def grantRole (roles : Roles Role) (role : Role) (a : Account) : Roles Role :=
  roles.insert (role, a) true

def onlyRole (roles : Roles Role) (role : Role) (a : Account) : Outcome Revert Unit :=
  rejectIf (hasRole roles role a = false) .unauthorizedAccount

def whenNotPaused (paused : Bool) : Outcome Revert Unit := rejectIf paused .enforcedPause

def whenPaused (paused : Bool) : Outcome Revert Unit := rejectIf (paused = false) .expectedPause

end Suban.Evm.Host

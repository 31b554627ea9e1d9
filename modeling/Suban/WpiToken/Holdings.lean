import Suban.WpiToken.Conservation

namespace Suban.WpiToken.Holdings

open Suban.Basis.Calls Suban.Basis.Tables Suban.Basis.Runs Suban.Soroban.Host
open Suban.WpiToken.Contract Suban.WpiToken.Conservation

variable {Address : Type} [DecidableEq Address] {contract : Address}

/-- The token contracts of a chain, each at its address. -/
structure World (Address : Type) [DecidableEq Address] where
  token : Address → Storage Address
  nonneg : ∀ t a, 0 ≤ (token t).readBalance a

namespace World

variable (w : World Address)

def balance (t a : Address) : Int := (w.token t).readBalance a

def set (t : Address) (s : Storage Address) (h : ∀ a, 0 ≤ s.readBalance a) : World Address where
  token := Function.update w.token t s
  nonneg u a := by
    by_cases hu : u = t
    · subst hu
      rw [Function.update_self]
      exact h a
    · rw [Function.update_of_ne hu]
      exact w.nonneg u a

def after (t : Address) (i : Env Address t × Call Address) : Option (World Address) :=
  match h : step (w.token t) i with
  | .ok s => some (w.set t s (nonneg_step (step_effect h) (w.nonneg t)))
  | .error _ => none

variable {w}

theorem after_eq_some {v : World Address} {t : Address} {i : Env Address t × Call Address}
    (h : w.after t i = some v) :
    ∃ s, step (w.token t) i = .ok s ∧ v.token = Function.update w.token t s := by
  unfold after at h
  split at h
  next s hs =>
    cases h
    exact ⟨s, hs, rfl⟩
  next => cases h

end World

/-- A token is called by a contract for someone who has authorised the call. It
does not read the clock. -/
def onBehalf (token src : Address) : Env Address token where
  sequence := 0
  timestamp := 0
  auths a := decide (a = src ∧ a ≠ token)
  self_auths := by simp

/-- The transfers that contracts make. None of them is from a holder to itself,
where the token would not keep its books. -/
def transfer (w : World Address) (token src dst : Address) (n : Int) : Option (World Address) :=
  if src = dst then none else w.after token (onBehalf token src, .transfer src dst n)

theorem transfer_eq_some {w v : World Address} {token src dst : Address} {n : Int}
    (h : transfer w token src dst n = some v) : src ≠ dst ∧ 0 ≤ n ∧ n ≤ w.balance token src ∧
      ∃ s : Storage Address, v.token = Function.update w.token token s ∧
        s.allowance = (w.token token).allowance ∧
        s.balance = ((w.token token).balance.insert src (w.balance token src - n)).insert dst
          (w.balance token dst + n) := by
  unfold transfer at h
  split at h
  next => cases h
  next hne =>
    obtain ⟨s, hs, hv⟩ := World.after_eq_some h
    simp only [step, Contract.transfer, bind_eq_ok] at hs
    obtain ⟨_, -, _, -, hs⟩ := hs
    obtain ⟨hn, hle, hbalance, -⟩ := transferInternal_ok hs
    refine ⟨hne, hn, hle, s, hv, ?_, hbalance⟩
    simp only [transferInternal, bind_eq_ok, pure_eq_ok] at hs
    obtain ⟨_, -, _, -, _, -, _, -, rfl⟩ := hs
    rfl

def wpiTokens (Address : Type) [DecidableEq Address] : Sep41 Address (World Address) where
  balance := World.balance
  transfer := transfer
  balance_nonneg w := w.nonneg
  transfer_covered h := by
    obtain ⟨-, hn, hle, -⟩ := transfer_eq_some h
    exact ⟨hn, hle⟩
  balance_transfer {w v token src dst n} h := by
    intro t a
    obtain ⟨hne, -, -, s, hv, -, hbalance⟩ := transfer_eq_some h
    unfold World.balance at hbalance ⊢
    rw [hv]
    by_cases ht : t = token
    · subst ht
      rw [Function.update_self, Storage.readBalance, hbalance, readOr_insert, readOr_insert]
      by_cases hsrc : a = src
      · subst hsrc
        simp [hne]
      · by_cases hdst : a = dst
        · subst hdst
          simp [hsrc]
        · simp [hsrc, hdst, Storage.readBalance]
    · simp [ht]

def burnedFrom (contract : Address) : Call Address → Int
  | .burn _ src n => if src = contract then n else 0
  | _ => 0

/-- A call of a token that a contract has no part in. A contract authorises only
the calls that it makes itself. -/
structure Act (Address : Type) (contract : Address) where
  token : Address
  env : Env Address token
  call : Call Address
  absent : env.auths contract = false

namespace Act

def perform (a : Act Address contract) (w : World Address) : Option (World Address) :=
  w.after a.token (a.env, a.call)

def burned (a : Act Address contract) (t : Address) : Int :=
  if a.token = t then burnedFrom contract a.call else 0

end Act

section Holding

variable {s u : Storage Address}

/-- Nobody may take from the contract by an allowance. -/
def Guarded (contract : Address) (s : Storage Address) : Prop :=
  ∀ spender, s.readAllowance contract spender ≤ 0

theorem balance_moved {src dst : Address} {n : Int} (h : transferInternal s src dst n = .ok u)
    (hsrc : src = contract → n ≤ 0) : s.readBalance contract ≤ u.readBalance contract := by
  obtain ⟨hn, -, hbalance, -⟩ := transferInternal_ok h
  rw [Storage.readBalance, Storage.readBalance, hbalance, readOr_insert, readOr_insert]
  by_cases hdst : contract = dst
  · subst hdst
    rw [if_pos rfl]
    exact le_add_of_nonneg_right hn
  · rw [if_neg hdst]
    by_cases hown : contract = src
    · subst hown
      rw [if_pos rfl]
      exact le_sub_self_iff _ |>.mpr (hsrc rfl)
    · rw [if_neg hown]

theorem allowance_moved {src dst : Address} {n : Int} (h : transferInternal s src dst n = .ok u) :
    u.allowance = s.allowance := by
  simp only [transferInternal, bind_eq_ok, pure_eq_ok] at h
  obtain ⟨_, -, _, -, _, -, _, -, rfl⟩ := h
  rfl

theorem Guarded.write (h : Guarded contract s) {owner spender : Address} {n : Int}
    (howner : owner = contract → n ≤ 0) : Guarded contract (s.writeAllowance owner spender n) := by
  intro other
  have hread : (s.writeAllowance owner spender n).readAllowance contract other =
      if (contract, other) = (owner, spender) then n else s.readAllowance contract other :=
    readOr_insert _ _ _ _ _
  rw [hread]
  split
  next heq => exact howner (congrArg Prod.fst heq).symm
  next => exact h other

theorem step_guarded {t : Address} {env : Env Address t} {c : Call Address}
    (h : step s (env, c) = .ok u) (habsent : env.auths contract = false)
    (hs : Guarded contract s) : Guarded contract u ∧
      (burnedFrom contract c = 0 ∧ s.readBalance contract ≤ u.readBalance contract ∨
        u.readBalance contract = s.readBalance contract - burnedFrom contract c) := by
  have hother {a : Address} (ha : env.auths a = true) : a ≠ contract := by
    rintro rfl
    rw [habsent] at ha
    cases ha
  cases c with
  | approve owner spender n =>
    simp only [step, approve, bind_eq_ok, requireAuth_eq_ok, pure_eq_ok] at h
    obtain ⟨_, -, _, hauth, rfl⟩ := h
    exact ⟨hs.write fun howner => absurd howner (hother hauth), .inl ⟨rfl, le_rfl⟩⟩
  | transfer src dst n =>
    simp only [step, Contract.transfer, bind_eq_ok, requireAuth_eq_ok] at h
    obtain ⟨_, -, _, hauth, h⟩ := h
    refine ⟨fun spender => ?_, .inl ⟨rfl, balance_moved h fun hsrc => absurd hsrc (hother hauth)⟩⟩
    rw [Storage.readAllowance, allowance_moved h]
    exact hs spender
  | transferFrom spender src dst n =>
    simp only [step, transferFrom, bind_eq_ok, rejectIf_eq_ok, checked_eq_ok] at h
    obtain ⟨_, -, _, -, _, hle, _, ⟨-, rfl⟩, h⟩ := h
    -- an allowance on the contract is for nothing, and so is the transfer
    have hnone : src = contract → n ≤ 0 := by
      rintro rfl
      exact (not_lt.mp hle).trans (hs spender)
    have hleft : src = contract → s.readAllowance src spender - n ≤ 0 := by
      rintro rfl
      have hgranted := hs spender
      have hn := (transferInternal_ok h).1
      omega
    have hbalance : s.readBalance contract ≤ u.readBalance contract :=
      balance_moved (s := s.writeAllowance src spender _) h hnone
    refine ⟨fun other => ?_, .inl ⟨rfl, hbalance⟩⟩
    rw [Storage.readAllowance, allowance_moved h]
    exact hs.write hleft other
  | mint admin dst n =>
    simp only [step, mint, bind_eq_ok, rejectIf_eq_ok, checked_eq_ok, pure_eq_ok] at h
    obtain ⟨_, -, _, -, _, -, _, hn, _, ⟨-, rfl⟩, _, ⟨-, rfl⟩, rfl⟩ := h
    refine ⟨hs, .inl ⟨rfl, (?_ : s.readBalance contract ≤
      readOr (s.balance.insert dst (s.readBalance dst + n)) contract 0)⟩⟩
    rw [readOr_insert]
    split
    next heq =>
      subst heq
      exact le_add_of_nonneg_right (not_le.mp hn).le
    next => exact le_rfl
  | burn admin src n =>
    simp only [step, burn, bind_eq_ok, rejectIf_eq_ok, checked_eq_ok, pure_eq_ok] at h
    obtain ⟨_, -, _, -, _, -, _, -, _, -, _, ⟨-, rfl⟩, _, ⟨-, rfl⟩, rfl⟩ := h
    refine ⟨hs, .inr (?_ : readOr (s.balance.insert src (s.readBalance src - n)) contract 0 =
      s.readBalance contract - if src = contract then n else 0)⟩
    rw [readOr_insert]
    by_cases hown : contract = src
    · subst hown
      rw [if_pos rfl, if_pos rfl]
    · rw [if_neg hown, if_neg (Ne.symm hown), sub_zero]
      rfl
  | setAdmin admin newAdmin =>
    simp only [step, setAdmin, bind_eq_ok, pure_eq_ok] at h
    obtain ⟨_, -, _, -, _, -, rfl⟩ := h
    exact ⟨hs, .inl ⟨rfl, le_rfl⟩⟩
  | setPaused admin paused =>
    simp only [step, setPaused, bind_eq_ok, pure_eq_ok] at h
    obtain ⟨_, -, _, -, _, -, rfl⟩ := h
    exact ⟨hs, .inl ⟨rfl, le_rfl⟩⟩

end Holding

def Ungranted (contract : Address) (w : World Address) : Prop :=
  ∀ t, Guarded contract (w.token t)

section World

variable {w v : World Address}

theorem Ungranted.update (h : Ungranted contract w) {t : Address} {s : Storage Address}
    (hv : v.token = Function.update w.token t s) (hs : Guarded contract s) :
    Ungranted contract v := by
  intro u
  rw [hv]
  by_cases hu : u = t
  · subst hu
    rwa [Function.update_self]
  · rw [Function.update_of_ne hu]
    exact h u

theorem ungranted_transfer {token src dst : Address} {n : Int}
    (h : transfer w token src dst n = some v) (hw : Ungranted contract w) :
    Ungranted contract v := by
  obtain ⟨-, -, -, s, hv, hallowance, -⟩ := transfer_eq_some h
  refine hw.update hv fun spender => ?_
  rw [Storage.readAllowance, hallowance]
  exact hw token spender

theorem perform_holding {a : Act Address contract} (h : a.perform w = some v)
    (hw : Ungranted contract w) : Ungranted contract v ∧ ∀ t,
      (a.burned t = 0 ∧ w.balance t contract ≤ v.balance t contract ∨
        v.balance t contract = w.balance t contract - a.burned t) := by
  obtain ⟨s, hs, hv⟩ := World.after_eq_some h
  obtain ⟨hguarded, hbalance⟩ := step_guarded hs a.absent (hw a.token)
  refine ⟨hw.update hv hguarded, fun t => ?_⟩
  unfold World.balance Act.burned
  rw [hv]
  by_cases ht : a.token = t
  · subst ht
    rwa [Function.update_self, if_pos rfl]
  · rw [Function.update_of_ne (Ne.symm ht), if_neg ht]
    exact .inl ⟨rfl, le_rfl⟩

theorem held_iff {a : Act Address contract} (h : a.perform w = some v)
    (hw : Ungranted contract w) {t : Address} {n : Int} (hn : n ≤ w.balance t contract) :
    n ≤ v.balance t contract ↔ n + a.burned t ≤ w.balance t contract := by
  obtain ⟨hburned, hle⟩ | heq := (perform_holding h hw).2 t
  · rw [hburned, add_zero]
    exact iff_of_true (hn.trans hle) hn
  · rw [heq, le_sub_iff_add_le]

end World

/-- A contract next to the tokens: its own calls, and those that others make of
the tokens. -/
inductive Move (Address : Type) (contract : Address) (C : Type) where
  | call (env : Env Address contract) (c : C)
  | token (a : Act Address contract)

def input {σ C : Type} (world : σ → World Address) (s : σ) :
    Move Address contract C → Option (Input Address (World Address) contract C)
  | .call env c => some (.call env c)
  | .token a => (a.perform (world s)).map .world

end Suban.WpiToken.Holdings

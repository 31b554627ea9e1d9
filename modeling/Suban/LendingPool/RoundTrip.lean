import Suban.LendingPool.Rate
import Suban.LendingPool.Setup

namespace Suban.LendingPool.RoundTrip

open Suban.Basis.Calls Suban.Basis.Tables Suban.Basis.Runs Suban.Basis.Division Suban.Soroban.Host
open Suban.LendingPool.State Suban.LendingPool.Contract Suban.LendingPool.Steps
open Suban.LendingPool.Rate Suban.LendingPool.Setup

variable {Address W : Type} [DecidableEq Address] {contract : Address}
variable {M : Market Address W} {env : Env Address contract} {s t : Storage Address W}

def withdrawMany (M : Market Address W) (s : Storage Address W) (src : Address) :
    List (Env Address contract × Int) → Outcome PoolError (Int × Storage Address W)
  | [] => pure (0, s)
  | (env, n) :: rest => do
    let (paid, s) ← withdraw M env s src n
    let (paidLater, s) ← withdrawMany M s src rest
    pure (paid + paidLater, s)

/-- The premium on the deposit is less than one unit of the supply. -/
def NoPremium (s : Storage Address W) (x : Int) : Prop :=
  x ≤ supplyWith s x ∧ x * premium s < supplyWith s x

theorem deposit_ok {user : Address} {x b : Int} (h : deposit M env s user x = .ok (b, t)) :
    0 < x ∧ t.depositOf user = s.depositOf user + x ∧ t.totalSupplies = supplyWith s x ∧
      premium t = premium s := by
  cases deposit_effect h with
  | deposit _ _ b w hpos hsrc hb hw =>
    exact ⟨hpos, s.depositOf_setDeposit_self user _, bTokensFor_ok hb, rfl⟩
  | configure hc _ => exact absurd hc id

theorem withdraw_ok {user : Address} {n p : Int} (h : withdraw M env s user n = .ok (p, t)) :
    0 < n ∧ n ≤ s.depositOf user ∧ s.totalSupplies ≠ 0 ∧
      p = (n * (s.totalSupplies + premium s)).tdiv s.totalSupplies ∧
      t.depositOf user = s.depositOf user - n ∧ t.totalSupplies = s.totalSupplies - n ∧
      premium t = premium s := by
  simp only [withdraw, bind_eq_ok, rejectIf_eq_ok, checked_eq_ok, checkedDiv_eq_ok,
    transfer_eq_ok, pure_eq_ok, Prod.mk.injEq] at h
  obtain ⟨_, hpos, _, -, _, -, _, ha, _, ⟨-, rfl⟩, h⟩ := h
  obtain ⟨_, ⟨hz, -, rfl⟩, h⟩ := h
  obtain ⟨_, hle, _, -, _, -, _, ⟨-, rfl⟩, h⟩ := h
  obtain ⟨_, ⟨-, rfl⟩, h⟩ := h
  obtain ⟨_, ⟨w, -, rfl⟩, h⟩ := h
  obtain ⟨rfl, rfl⟩ := h
  cases totalAssets_eq_ok ha
  refine ⟨not_le.mp hpos, not_lt.mp hle, hz, ?_, ?_, rfl, rfl⟩
  · rw [premium, add_assoc]
  · exact s.depositOf_setDeposit_self user _

/-- What is left to withdraw stays within the supply, and its premium below one
unit of it. -/
def Bounded (s : Storage Address W) (user : Address) : Prop :=
  s.depositOf user ≤ s.totalSupplies ∧
    (s.depositOf user = 0 ∨ s.depositOf user * premium s < s.totalSupplies)

theorem bounded_withdraw {user : Address} {n p : Int} (h : withdraw M env s user n = .ok (p, t))
    (hs : Bounded s user) : p ≤ n ∧ Bounded t user := by
  obtain ⟨hpos, hle, hz, rfl, hd, hsup, hprem⟩ := withdraw_ok h
  obtain ⟨hcover, hzero | hlt⟩ := hs
  · omega
  have hT : 0 < s.totalSupplies := hpos.trans_le (hle.trans hcover)
  refine ⟨?_, ?_⟩
  · rw [tdiv_le_iff hT hpos.le]
    obtain hR | hR := le_or_gt 0 (premium s)
    · nlinarith
    · nlinarith
  · unfold Bounded
    rw [hd, hsup, hprem]
    refine ⟨by omega, or_iff_not_imp_left.mpr fun hleft => ?_⟩
    have hmore : n < s.depositOf user := by omega
    obtain hR | hR := le_or_gt (premium s) 0
    · nlinarith
    · nlinarith

theorem withdrawMany_le {user : Address} {ws : List (Env Address contract × Int)} {paid : Int}
    (h : withdrawMany M s user ws = .ok (paid, t)) (hs : Bounded s user)
    (hn : 0 ≤ s.depositOf user) : paid ≤ s.depositOf user - t.depositOf user ∧
      0 ≤ t.depositOf user := by
  induction ws generalizing s paid with
  | nil =>
    simp only [withdrawMany, pure_eq_ok, Prod.mk.injEq] at h
    obtain ⟨rfl, rfl⟩ := h
    exact ⟨(sub_self _).ge, hn⟩
  | cons w ws ih =>
    simp only [withdrawMany, bind_eq_ok, pure_eq_ok, Prod.mk.injEq] at h
    obtain ⟨⟨p, u⟩, hw, ⟨q, v⟩, hrest, rfl, rfl⟩ := h
    change withdrawMany M u user ws = .ok (q, v) at hrest
    change p + q ≤ s.depositOf user - v.depositOf user ∧ 0 ≤ v.depositOf user
    obtain ⟨hp, hu⟩ := bounded_withdraw hw hs
    obtain ⟨-, hle, -, -, hd, -⟩ := withdraw_ok hw
    obtain ⟨hq, ht⟩ : q ≤ u.depositOf user - v.depositOf user ∧ 0 ≤ v.depositOf user :=
      ih hrest hu (by omega)
    exact ⟨by omega, ht⟩

theorem noPremium_of_le {x p : Int} (hx : 0 < x) (hT : 0 ≤ s.totalSupplies)
    (hR : 0 ≤ premium s) (hz : supplyWith s x ≠ 0)
    (hp : p = (x * (supplyWith s x + premium s)).tdiv (supplyWith s x)) (hle : p ≤ x) :
    NoPremium s x := by
  have hshares : s.totalSupplies ≤ supplyWith s x := by
    unfold supplyWith
    split
    · omega
    · have hb := Int.tdiv_nonneg (mul_nonneg hx.le hT) (add_nonneg hT hR)
      omega
  have hpos : 0 < supplyWith s x := lt_of_le_of_ne (hT.trans hshares) hz.symm
  rw [hp, tdiv_le_iff hpos hx.le] at hle
  have hlt : x * premium s < supplyWith s x := by nlinarith
  refine ⟨?_, hlt⟩
  obtain hR | hR := hR.eq_or_lt
  · unfold supplyWith
    split
    · omega
    next hne =>
      rw [← hR, add_zero, Int.mul_tdiv_cancel _ hne]
      omega
  · nlinarith

/-- A deposit and the withdrawals that follow it pay out no more than was put
in, if the premium on the deposit is less than one unit of the supply. Where the
totals are not negative and the whole deposit can be withdrawn, that condition is
also necessary. -/
theorem roundTrip_iff_noPremium {user : Address} {x b : Int}
    (h : deposit M env s user x = .ok (b, t)) (h0 : s.depositOf user = 0) :
    (NoPremium s x → ∀ (ws : List (Env Address contract × Int)) (paid : Int)
      (u : Storage Address W), withdrawMany M t user ws = .ok (paid, u) → paid ≤ x) ∧
    (0 ≤ s.totalSupplies → 0 ≤ premium s →
      (∃ (env' : Env Address contract) (p : Int) (u : Storage Address W),
        withdraw M env' t user x = .ok (p, u)) →
      (∀ (ws : List (Env Address contract × Int)) (paid : Int) (u : Storage Address W),
        withdrawMany M t user ws = .ok (paid, u) → paid ≤ x) → NoPremium s x) := by
  obtain ⟨hx, hd, hT, hR⟩ := deposit_ok h
  rw [h0, zero_add] at hd
  refine ⟨?_, ?_⟩
  · intro hc ws paid u hw
    have hb : Bounded t user := by
      unfold Bounded
      rw [hd, hT, hR]
      exact ⟨hc.1, .inr hc.2⟩
    obtain ⟨hle, hu⟩ := withdrawMany_le hw hb (by omega)
    omega
  · rintro hsup hprem ⟨env', p, u, hw⟩ hall
    have hle : p ≤ x := by
      have hmany : withdrawMany M t user [(env', x)] = .ok (p + 0, u) := by
        simp [withdrawMany, hw]
      simpa using hall _ _ _ hmany
    obtain ⟨-, -, hz, hp, -⟩ := withdraw_ok hw
    rw [hT, hR] at hp
    exact noPremium_of_le hx hsup hprem (hT ▸ hz) hp hle

theorem roundTrip_iff_noPremium_sample :
    ∃ (paid : Int) (u : Storage Nat (Nat → Nat → Nat)),
      withdrawMany (bookMarket Nat) (run (step (bookMarket Nat)) (.fresh sampleWorld)
          (samplePool ++ [.call (Env.signed 0 1) (.deposit 3 300)])) 3
        [(Env.signed 0 1, 100), (Env.signed 0 1, 200)] = .ok (paid, u) ∧ paid ≤ 300 := by
  have hdeposit : deposit (bookMarket Nat) (Env.signed 0 1)
      (run (step (bookMarket Nat)) (.fresh sampleWorld) samplePool) 3 300 =
        .ok (300, run (step (bookMarket Nat)) (.fresh sampleWorld)
          (samplePool ++ [.call (Env.signed 0 1) (.deposit 3 300)])) := rfl
  have hno : NoPremium (run (step (bookMarket Nat)) (.fresh sampleWorld) samplePool) 300 := by
    unfold NoPremium
    decide
  have hok : (withdrawMany (bookMarket Nat) (run (step (bookMarket Nat)) (.fresh sampleWorld)
      (samplePool ++ [.call (Env.signed 0 1) (.deposit 3 300)])) 3
        [(Env.signed 0 1, 100), (Env.signed 0 1, 200)]).isOk = true := by
    decide
  obtain ⟨⟨paid, u⟩, hw⟩ := exists_of_isOk hok
  exact ⟨paid, u, hw, (roundTrip_iff_noPremium hdeposit rfl).1 hno _ _ _ hw⟩

def sampleBorrow : List (Input Nat (Nat → Nat → Nat) 0 (Call Nat)) :=
  samplePool ++ [.call (Env.signed 0 1) (.deposit 2 1000),
    .call (Env.signed 0 1) (.setCollateral 2 1000), .call (Env.signed 0 1) (.borrow 2 500)]

/-- Into that pool user 3 deposits 300 and takes out 425. -/
theorem deposit_withdraw_profits :
    ∃ (b paid : Int) (t u : Storage Nat (Nat → Nat → Nat)),
      (run (step (bookMarket Nat)) (.fresh sampleWorld) sampleBorrow).depositOf 3 = 0 ∧
      deposit (bookMarket Nat) (Env.signed 0 2)
        (run (step (bookMarket Nat)) (.fresh sampleWorld) sampleBorrow) 3 300 = .ok (b, t) ∧
      withdrawMany (bookMarket Nat) t 3 [(Env.signed 0 2, 300)] = .ok (paid, u) ∧
      ¬ paid ≤ 300 :=
  ⟨200, 425, _, _, rfl, rfl, rfl, by decide⟩

end Suban.LendingPool.RoundTrip

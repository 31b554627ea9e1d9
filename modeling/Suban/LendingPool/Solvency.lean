import Suban.LendingPool.Rate
import Suban.LendingPool.Setup

namespace Suban.LendingPool.Solvency

open Suban.Basis.Calls Suban.Basis.Tables Suban.Basis.Runs Suban.Soroban.Host
open Suban.LendingPool.State Suban.LendingPool.Contract Suban.LendingPool.Steps
open Suban.LendingPool.Rate Suban.LendingPool.Setup

variable {Address W : Type} [DecidableEq Address] {contract : Address}
variable {M : Market Address W} {env : Env Address contract} {s t : Storage Address W}

def cash (M : Market Address W) (contract : Address) (s : Storage Address W) : Int :=
  M.balance s.world (poolAsset contract s) contract

/-- The pool is worth no more than what it holds and is owed. -/
def Solvent (M : Market Address W) (contract : Address) (s : Storage Address W) : Prop :=
  s.totalSupplies + s.totalBorrows + s.totalReserves ≤ cash M contract s + s.totalBorrows

def surplus (M : Market Address W) (contract : Address) (s : Storage Address W) : Int :=
  cash M contract s - s.totalSupplies - s.totalReserves

/-- What an amount of collateral comes to in the pool asset: nothing, when the
collateral is another token. -/
def inPoolAsset (contract : Address) (s : Storage Address W) (n : Int) : Int :=
  if collateralToken contract s = poolAsset contract s then n else 0

/-- What a call takes off the surplus. A borrow takes its whole amount, since the
supply still counts what was lent. -/
def draw (env : Env Address contract) (s : Storage Address W) : Call Address → Int
  | .initialise _ _ _ _ _ _ => -(s.totalSupplies + s.totalReserves)
  | .deposit _ x => supplyWith s x - s.totalSupplies - x
  | .withdraw _ n => (n * (s.totalSupplies + premium s)).tdiv s.totalSupplies - n
  | .borrow _ n => n
  | .repay src n => -min n (s.borrowOf src)
  | .liquidate _ borrower n _ =>
    inPoolAsset contract s
      ((min n (s.borrowOf borrower) * (10000 + s.liquidationBonus)).tdiv 10000) -
      min n (s.borrowOf borrower)
  | .accrueInterest => reserveShareFor s (env.sequence - s.lastAccrual)
  | .depositCollateral _ n => -inPoolAsset contract s n
  | .withdrawCollateral _ n => inPoolAsset contract s n
  | _ => 0

/-- The assets stay as they are configured, and nobody but the pool takes its
tokens. -/
def Undrained (M : Market Address W) (s : Storage Address W) :
    Input Address W contract (Call Address) → Prop
  | .call _ (.setCollateralAsset _ _) | .call _ (.setCollateralToken _ _) => False
  | .call _ _ => True
  | .world w => cash M contract s ≤ cash M contract { s with world := w }

def WithinSurplus (M : Market Address W) (s : Storage Address W) :
    Input Address W contract (Call Address) → Prop
  | .call env c => draw env s c ≤ surplus M contract s
  | .world _ => True

/-- Nothing is borrowed, and collateral that is held in the pool asset is only
withdrawn out of the surplus. -/
def NothingBorrowed (M : Market Address W) (s : Storage Address W) :
    Input Address W contract (Call Address) → Prop
  | .call _ (.borrow _ _) => False
  | .call _ (.withdrawCollateral _ n) => inPoolAsset contract s n ≤ surplus M contract s
  | _ => True

theorem solvent_iff : Solvent M contract s ↔ 0 ≤ surplus M contract s := by
  unfold Solvent surplus
  omega

theorem inPoolAsset_in {w w' : W} {src : Address} {n : Int}
    (h : M.transfer w (collateralToken contract s) src contract n = some w')
    (hne : src ≠ contract) : M.balance w' (poolAsset contract s) contract =
      M.balance w (poolAsset contract s) contract + inPoolAsset contract s n := by
  unfold inPoolAsset
  split
  next he => rw [he] at h; exact M.balance_in h hne
  next he => rw [add_zero]; exact M.balance_other h (Ne.symm he)

theorem inPoolAsset_out {w w' : W} {dst : Address} {n : Int}
    (h : M.transfer w (collateralToken contract s) contract dst n = some w')
    (hne : dst ≠ contract) : M.balance w' (poolAsset contract s) contract =
      M.balance w (poolAsset contract s) contract - inPoolAsset contract s n := by
  unfold inPoolAsset
  split
  next he => rw [he] at h; exact M.balance_out h hne
  next he => rw [sub_zero]; exact M.balance_other h (Ne.symm he)

theorem draw_configures {c : Call Address} (h : Configures c) :
    draw env s c = 0 := by
  cases c <;> first | rfl | exact absurd h id

theorem surplus_effect {c : Call Address} (h : Effect M env s c t)
    (hc : Undrained M s (.call env c)) :
    surplus M contract t = surplus M contract s - draw env s c := by
  have hsurplus : surplus M contract s =
      M.balance s.world (poolAsset contract s) contract - s.totalSupplies - s.totalReserves := rfl
  rw [hsurplus]
  cases h with
  | initialise admin cf lt lb ir rf =>
    change M.balance s.world (poolAsset contract s) contract - 0 - 0 = _
    rw [draw]
    ring
  | deposit src x b w hpos hsrc hb hw =>
    have hin := M.balance_in hw hsrc
    have hshares := bTokensFor_ok hb
    change M.balance w (poolAsset contract s) contract - (s.totalSupplies + b) - s.totalReserves = _
    rw [hin, hshares, draw]
    ring
  | withdraw src n u w hpos hsrc hz hu hle hh hw =>
    have hout := M.balance_out hw hsrc
    change M.balance w (poolAsset contract s) contract - (s.totalSupplies - n) - s.totalReserves = _
    rw [hout, hu, add_assoc, draw, premium]
    ring
  | borrow src n w hpos hsrc hle hh hw =>
    have hout := M.balance_out hw hsrc
    change M.balance w (poolAsset contract s) contract - s.totalSupplies - s.totalReserves = _
    rw [hout, draw]
    ring
  | repay src amount n w hpos hsrc hn hw =>
    have hin := M.balance_in hw hsrc
    change M.balance w (poolAsset contract s) contract - s.totalSupplies - s.totalReserves = _
    rw [hin, hn, draw]
    ring
  | setCollateral user n hle hh => exact (sub_zero _).symm
  | liquidate liquidator borrower amount least n z v w hpos hsrc hn hz hle hv hw =>
    have hin := M.balance_in hv hsrc
    have hout := inPoolAsset_out hw hsrc
    change M.balance w (poolAsset contract s) contract - s.totalSupplies - s.totalReserves = _
    rw [hout, hin, hz, hn, draw]
    ring
  | upToDate hz =>
    have hshare : reserveShareFor s (env.sequence - s.lastAccrual) = 0 := by
      simp [reserveShareFor, interestFor, hz]
    rw [draw, hshare, sub_zero]
    rfl
  | accrue n hn =>
    change cash M contract s - s.totalSupplies - (s.totalReserves + reserveShareFor s n) = _
    rw [hn, draw, cash]
    ring
  | configure hconf ht =>
    rw [draw_configures hconf, sub_zero, surplus, cash, poolAsset, poolAsset, ht.collateralAsset,
      ht.world, ht.totalSupplies, ht.totalReserves]
  | setCollateralAsset admin asset => exact absurd hc id
  | setCollateralToken admin asset => exact absurd hc id
  | depositCollateral src n w hpos hsrc hw =>
    have hin := inPoolAsset_in hw hsrc
    change M.balance w (poolAsset contract s) contract - s.totalSupplies - s.totalReserves = _
    rw [hin, draw]
    ring
  | withdrawCollateral src n w hpos hsrc hle hh hw =>
    have hout := inPoolAsset_out hw hsrc
    change M.balance w (poolAsset contract s) contract - s.totalSupplies - s.totalReserves = _
    rw [hout, draw]
    ring

theorem solvent_step {i : Input Address W contract (Call Address)} (h : step M s i = .ok t)
    (hi : Undrained M s i) (hs : Solvent M contract s) :
    Solvent M contract t ↔ WithinSurplus M s i := by
  cases i with
  | call env c =>
    rw [solvent_iff, surplus_effect (invoke_effect h) hi]
    exact sub_nonneg
  | world w =>
    cases pure_eq_ok.mp h
    refine iff_of_true ?_ trivial
    have hcash : cash M contract s ≤ cash M contract { s with world := w } := hi
    unfold Solvent at hs ⊢
    exact hs.trans (Int.add_le_add_right hcash _)

structure Unborrowed (s : Storage Address W) : Prop where
  totalBorrows : s.totalBorrows = 0
  totalReserves : s.totalReserves = 0
  borrowOf : ∀ user, s.borrowOf user = 0

theorem Unborrowed.premium (h : Unborrowed s) : premium s = 0 := by
  rw [Rate.premium, h.totalBorrows, h.totalReserves, add_zero]

theorem Unborrowed.reserveShareFor (h : Unborrowed s) (n : Nat) : reserveShareFor s n = 0 := by
  simp [Steps.reserveShareFor, interestFor, h.totalBorrows]

theorem Unborrowed.supplyWith (h : Unborrowed s) (x : Int) :
    supplyWith s x = s.totalSupplies + x := by
  unfold Rate.supplyWith
  split
  · rfl
  next hz => rw [h.premium, add_zero, Int.mul_tdiv_cancel _ hz]

theorem inPoolAsset_nonneg {n : Int} (hn : 0 ≤ n) : 0 ≤ inPoolAsset contract s n := by
  unfold inPoolAsset
  split
  · exact hn
  · exact le_rfl

/-- While nothing is borrowed, only a collateral withdrawal takes from the
surplus. -/
theorem draw_unborrowed {c : Call Address} (h : Effect M env s c t) (hs : Unborrowed s)
    (hn : NothingBorrowed M s (.call env c)) (h0 : 0 ≤ surplus M contract s) :
    draw env s c ≤ surplus M contract s := by
  cases h with
  | initialise admin cf lt lb ir rf =>
    have hcash : 0 ≤ cash M contract s := M.balance_nonneg _ _ _
    rw [draw, surplus]
    omega
  | deposit src x b w =>
    rw [draw, hs.supplyWith]
    omega
  | withdraw src n u w hpos hsrc hz =>
    rw [draw, hs.premium, add_zero, Int.mul_tdiv_cancel _ hz]
    omega
  | borrow => exact absurd hn id
  | repay src amount n w hpos =>
    rw [draw, hs.borrowOf, min_eq_right hpos.le]
    simpa using h0
  | liquidate liquidator borrower amount least n z v w hpos =>
    have hzero : inPoolAsset contract s 0 = 0 := by simp [inPoolAsset]
    rw [draw, hs.borrowOf, min_eq_right hpos.le]
    simpa [hzero] using h0
  | upToDate hz => rwa [draw, hs.reserveShareFor]
  | accrue n hn => rwa [draw, hs.reserveShareFor]
  | configure hconf ht => rwa [draw_configures hconf]
  | depositCollateral src n w hpos =>
    have hin : 0 ≤ inPoolAsset contract s n := inPoolAsset_nonneg hpos.le
    rw [draw]
    omega
  | withdrawCollateral => exact hn
  | _ => exact h0

theorem unborrowed_effect {c : Call Address} (h : Effect M env s c t) (hs : Unborrowed s)
    (hn : NothingBorrowed M s (.call env c)) : Unborrowed t := by
  cases h with
  | initialise => exact ⟨rfl, rfl, hs.borrowOf⟩
  | borrow => exact absurd hn id
  | repay src amount n w hpos hsrc hmin =>
    rw [hs.borrowOf, min_eq_right hpos.le] at hmin
    subst hmin
    have howed : s.borrowOf src - 0 = 0 := by rw [hs.borrowOf, sub_zero]
    have htotal : s.totalBorrows - 0 = 0 := by rw [hs.totalBorrows, sub_zero]
    have hborrow := forall_readOr_insert (P := fun n => n = 0) hs.borrowOf src howed
    exact ⟨htotal, hs.totalReserves, hborrow⟩
  | liquidate liquidator borrower amount least n z v w hpos hsrc hmin =>
    rw [hs.borrowOf, min_eq_right hpos.le] at hmin
    subst hmin
    have howed : s.borrowOf borrower - 0 = 0 := by rw [hs.borrowOf, sub_zero]
    have htotal : s.totalBorrows - 0 = 0 := by rw [hs.totalBorrows, sub_zero]
    have hborrow := forall_readOr_insert (P := fun n => n = 0) hs.borrowOf borrower howed
    exact ⟨htotal, hs.totalReserves, hborrow⟩
  | accrue n hn =>
    refine ⟨?_, ?_, hs.borrowOf⟩
    · change s.totalBorrows + interestFor s n = 0
      simp [interestFor, hs.totalBorrows]
    · change s.totalReserves + reserveShareFor s n = 0
      rw [hs.reserveShareFor, hs.totalReserves, add_zero]
  | configure hconf ht =>
    refine ⟨ht.totalBorrows.trans hs.totalBorrows, ht.totalReserves.trans hs.totalReserves,
      fun user => ?_⟩
    rw [Storage.borrowOf, ht.userBorrows]
    exact hs.borrowOf user
  | _ => exact ⟨hs.totalBorrows, hs.totalReserves, hs.borrowOf⟩

theorem unborrowed_step {i : Input Address W contract (Call Address)} (h : step M s i = .ok t)
    (hi : Undrained M s i) (hn : NothingBorrowed M s i) (hu : Unborrowed s)
    (hs : Solvent M contract s) : Unborrowed t ∧ Solvent M contract t := by
  rw [solvent_step h hi hs]
  cases i with
  | call env c =>
    have he := invoke_effect h
    exact ⟨unborrowed_effect he hu hn, draw_unborrowed he hu hn (solvent_iff.mp hs)⟩
  | world w =>
    cases pure_eq_ok.mp h
    exact ⟨⟨hu.totalBorrows, hu.totalReserves, hu.borrowOf⟩, trivial⟩

/-- After it is set up, a pool is solvent in every state of a run exactly when
no accepted call of the run draws more than the surplus. That is so in every run
in which nothing is borrowed and no collateral in the pool asset is withdrawn
beyond the surplus. -/
theorem solvent_iff_withinSurplus (w : W)
    {setup : List (Input Address W contract (Call Address))} (hsetup : ∀ i ∈ setup, IsSetup i)
    {s : Storage Address W} (hs : s = run (step M) (.fresh w) setup)
    (is : List (Input Address W contract (Call Address)))
    (hkeep : Along (step M) (Undrained M) s is) :
    (Throughout (step M) (Solvent M contract) s is ↔ Along (step M) (WithinSurplus M) s is) ∧
      (Along (step M) (NothingBorrowed M) s is →
        Throughout (step M) (Solvent M contract) s is) := by
  have hu : Unused s := hs ▸ unused_run hsetup (unused_fresh w)
  have hsolvent : Solvent M contract s := by
    have hcash : 0 ≤ cash M contract s := M.balance_nonneg _ _ _
    rw [solvent_iff, surplus, hu.totalSupplies, hu.totalReserves]
    omega
  have hborrow : Unborrowed s :=
    ⟨hu.totalBorrows, hu.totalReserves, fun user => by rw [Storage.borrowOf, hu.userBorrows]; rfl⟩
  refine ⟨?_, ?_⟩
  · exact throughout_iff_along_self (fun _ _ _ hs hi h => solvent_step h hi hs) hsolvent hkeep
  · intro hn
    refine throughout_mono (fun _ h => h.2) (throughout_of_along
      (P := fun u => Unborrowed u ∧ Solvent M contract u) ?_ ⟨hborrow, hsolvent⟩
      (along_and.mpr ⟨hkeep, hn⟩))
    exact fun _ _ _ hP hC h => unborrowed_step h hC.1 hC.2 hP.1 hP.2

theorem solvent_iff_withinSurplus_sample :
    Throughout (step (bookMarket Nat)) (Solvent (bookMarket Nat) 0)
      (run (step (bookMarket Nat)) (.fresh sampleWorld) samplePool)
      [.call (Env.signed 0 1) (.deposit 2 1000), .call (Env.signed 0 2) (.withdraw 2 400)] := by
  have hsetup : ∀ i ∈ samplePool, IsSetup i := by simp [samplePool, IsSetup]
  refine (solvent_iff_withinSurplus sampleWorld hsetup rfl _ ?_).2 ?_
  · simp [Along, Undrained]
  · simp [Along, NothingBorrowed]

/-- Of a supply of a thousand, half is lent out: the pool holds five hundred, is
owed five hundred, and prices its shares at fifteen hundred. -/
theorem borrow_is_counted_twice :
    (∀ i ∈ samplePool, IsSetup i) ∧
    ¬ Throughout (step (bookMarket Nat)) (Solvent (bookMarket Nat) 0)
      (run (step (bookMarket Nat)) (.fresh sampleWorld) samplePool)
      [.call (Env.signed 0 1) (.deposit 2 1000), .call (Env.signed 0 1) (.setCollateral 2 1000),
        .call (Env.signed 0 1) (.borrow 2 500)] := by
  refine ⟨by simp [samplePool, IsSetup], fun h => ?_⟩
  have hsolvent := throughout_run h
  revert hsolvent
  unfold Solvent
  decide

end Suban.LendingPool.Solvency

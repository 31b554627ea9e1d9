import Suban.StrategyVault.Shares

namespace Suban.StrategyVault.Withdrawals

open Suban.Basis.Calls Suban.Basis.Tables Suban.Basis.Runs Suban.Soroban.Host
open Suban.StrategyVault.Contract Suban.StrategyVault.Shares

variable {Address W : Type} [DecidableEq Address] {contract asset : Address}
variable {T : Sep41 Address W} {env : Env Address contract} {s : Storage Address W}

def Payable (T : Sep41 Address W) (contract asset : Address) (s : Storage Address W)
    (user : Address) : Prop :=
  ∀ n, 0 < n → n ≤ T.balance s.world asset contract →
    (T.transfer s.world asset contract user n).isSome

def Computable (s : Storage Address W) (shares : Int) : Prop := shares * s.totalAssets ≤ maxI128

/-- A user may withdraw any part of the shares, as long as the worth of that
part can be computed. -/
def Open (T : Sep41 Address W) (contract asset : Address) (s : Storage Address W) : Prop :=
  ∀ (env : Env Address contract) user shares, env.auths user = true → 1 ≤ shares →
    shares ≤ s.readShares user → Payable T contract asset s user →
    ((withdraw T env s user shares).isOk = true ↔ Computable s shares)

theorem computable_of_isOk {user : Address} {shares : Int}
    (h : (withdraw T env s user shares).isOk = true) : Computable s shares := by
  obtain ⟨_, h⟩ := exists_of_isOk h
  simp only [withdraw, bind_eq_ok, rejectIf_eq_ok, requireAuth_eq_ok, checked_eq_ok] at h
  obtain ⟨_, -, _, -, _, -, _, ⟨⟨-, hmax⟩, -⟩, -⟩ := h
  exact hmax

theorem total_bounds (hs : Accounted T contract asset s) {user : Address} {shares : Int}
    (hpos : 1 ≤ shares) (hheld : shares ≤ s.readShares user) (hfits : Computable s shares) :
    0 < s.totalAssets ∧ s.readShares user ≤ s.totalAssets ∧ s.totalAssets ≤ maxI128 := by
  have hle := hs.shares_le user
  rw [← hs.totals_eq] at hle
  have htotal : 0 < s.totalAssets := by omega
  refine ⟨htotal, hle, ?_⟩
  calc s.totalAssets = 1 * s.totalAssets := (one_mul _).symm
    _ ≤ shares * s.totalAssets := Int.mul_le_mul_of_nonneg_right hpos htotal.le
    _ ≤ maxI128 := hfits

theorem isOk_of_computable (hs : Accounted T contract asset s) {user : Address} {shares : Int}
    (hauth : env.auths user = true) (hpos : 1 ≤ shares) (hheld : shares ≤ s.readShares user)
    (hpay : Payable T contract asset s user) (hfits : Computable s shares) :
    (withdraw T env s user shares).isOk = true := by
  obtain ⟨htotal, hle, hmax⟩ := total_bounds hs hpos hheld hfits
  have hshares := hs.totals_eq
  have hworth : (shares * s.totalAssets).tdiv s.totalShares = shares := by
    rw [← hshares]
    exact Int.mul_tdiv_cancel _ htotal.ne'
  have hscaled : 0 ≤ shares * s.totalAssets := mul_nonneg (by omega) htotal.le
  obtain ⟨w, hw⟩ := Option.isSome_iff_exists.mp (hpay shares (by omega)
    ((hheld.trans hle).trans hs.covered))
  suffices h : withdraw T env s user shares = .ok (shares, afterWithdraw s user shares shares w) by
    rw [h]
    rfl
  simp only [withdraw, bind_eq_ok, rejectIf_eq_ok, requireAuth_eq_ok, checked_eq_ok,
    checkedDiv_eq_ok, transfer_eq_ok, pure_eq_ok, Prod.mk.injEq, Storage.writeShares]
  refine ⟨(), hauth, (), by omega, (), by omega, _, ⟨inRange_of_nonneg hscaled hfits, rfl⟩, shares,
    ⟨by omega, inRange_of_nonneg (by omega) (by omega), hworth⟩, (), by omega,
    _, ⟨inRange_of_nonneg (by omega) (by omega), rfl⟩,
    _, ⟨inRange_of_nonneg (by omega) (by omega), rfl⟩,
    _, ⟨inRange_of_nonneg (by omega) (by omega), rfl⟩,
    _, ⟨asset, hs.asset_eq, w, hw, rfl⟩, rfl, rfl⟩

theorem Accounted.opens (hs : Accounted T contract asset s) : Open T contract asset s :=
  fun _ _ _ hauth hpos hheld hpay =>
    ⟨computable_of_isOk, isOk_of_computable hs hauth hpos hheld hpay⟩

/-- In every state of a run, paused or not, a user can withdraw just those parts
of the shares whose product with the vault's total fits the amounts. -/
theorem opens_throughout {w : W} {admin : Address} {depositCap : Int}
    (h : initialise env (.fresh w) admin asset depositCap = .ok s)
    (is : List (Input Address W contract (Call Address)))
    (hkeep : Along (step T) (Undisturbed T asset) s is) :
    Throughout (step T) (Open T contract asset) s is := by
  have hall : Throughout (step T) (Accounted T contract asset) s is :=
    throughout_of_along (fun _ _ _ hs hi ht => accounted_step hs hi ht)
      (accounted_initialise h) hkeep
  exact throughout_mono (fun _ hs => Accounted.opens hs) hall

theorem opens_throughout_sample :
    Throughout (step (bookToken Nat)) (Open (bookToken Nat) 0 10) sampleStorage
      [.call (Env.signed 0 1) (.deposit 2 1000), .world sampleGift,
        .call (Env.signed 0 2) (.setPaused 1 true)] := by
  have hopen : initialise (Env.signed 0 0) (.fresh sampleWorld) 1 10 3000 =
      .ok sampleStorage := rfl
  refine opens_throughout hopen _ ⟨fun _ _ => trivial, fun _ _ => ?_, fun _ _ => trivial, trivial⟩
  unfold Undisturbed
  decide

def largeWorld : Nat → Nat → Nat := fun token a => if token = 10 ∧ a = 2 then 10 ^ 20 else 0

def largeStorage : Storage Nat (Nat → Nat → Nat) :=
  { Storage.fresh largeWorld with admin := some 1, asset := some 10, depositCap := 10 ^ 30 }

def largeDeposit : Storage Nat (Nat → Nat → Nat) :=
  run (step (bookToken Nat)) largeStorage [.call (Env.signed 0 1) (.deposit 2 (10 ^ 20))]

/-- A depositor with 10²⁰ shares cannot withdraw all of them at once, although
the vault holds the tokens and would send them. -/
theorem withdraw_traps :
    initialise (Env.signed 0 0) (.fresh largeWorld) 1 10 (10 ^ 30) = .ok largeStorage ∧
      largeDeposit.readShares 2 = 10 ^ 20 ∧
      withdraw (bookToken Nat) (Env.signed 0 2) largeDeposit 2 (10 ^ 20) = .error .panic ∧
      ((bookToken Nat).transfer largeDeposit.world 10 0 2 (10 ^ 20)).isSome :=
  ⟨rfl, by decide +kernel, rfl, by decide +kernel⟩

end Suban.StrategyVault.Withdrawals

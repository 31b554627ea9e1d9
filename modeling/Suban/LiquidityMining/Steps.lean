import Suban.LiquidityMining.Contract

namespace Suban.LiquidityMining.Steps

open Suban.Basis.Calls Suban.Basis.Tables Suban.Soroban.Host
open Suban.LiquidityMining.Contract

variable {Address W : Type} [DecidableEq Address] {contract : Address}
variable {T : Sep41 Address W} {env : Env Address contract} {s t : Storage Address W}
variable {farm f : FarmInfo Address}

def Pays (T : Sep41 Address W) (contract token user : Address) (pending : Int) (v w : W) : Prop :=
  if 0 < pending then T.transfer v token contract user pending = some w else w = v

/-- Everything that an accepted call can do. The farm `f` is the farm as it
stands once it is accrued up to the current ledger. -/
inductive Effect (T : Sep41 Address W) (env : Env Address contract) (s : Storage Address W)
    (farm f : FarmInfo Address) : Call Address → Storage Address W → Prop where
  | setRewardPerLedger (admin : Address) (rate : Int) (hrate : 0 ≤ rate) :
      Effect T env s farm f (.setRewardPerLedger admin rate)
        ((s.writeFarm { f with rewardPerLedger := rate }).publish (.rateSet rate))
  | stake (user : Address) (n pending debt : Int) (v w : W) (hu : user ≠ contract) (hn : 0 < n)
      (hp : pendingOf (s.readStake user) f.accumulatedRewardsPerShare = .ok pending)
      (hd : shareOf ((s.readStake user).amount + n) f.accumulatedRewardsPerShare = .ok debt)
      (hv : T.transfer s.world f.rewardToken user contract n = some v)
      (hw : Pays T contract f.rewardToken user pending v w) :
      Effect T env s farm f (.stake user n)
        ({ (s.writeFarm { f with totalStaked := f.totalStaked + n }).writeStake user
            ⟨(s.readStake user).amount + n, debt⟩ with world := w }.publish (.staked user n))
  | unstake (user : Address) (n pending debt : Int) (v w : W) (hu : user ≠ contract) (hn : 0 < n)
      (hle : n ≤ (s.readStake user).amount)
      (hp : pendingOf (s.readStake user) f.accumulatedRewardsPerShare = .ok pending)
      (hd : shareOf ((s.readStake user).amount - n) f.accumulatedRewardsPerShare = .ok debt)
      (hv : T.transfer s.world f.rewardToken contract user n = some v)
      (hw : Pays T contract f.rewardToken user pending v w) :
      Effect T env s farm f (.unstake user n)
        ({ (s.writeFarm { f with totalStaked := f.totalStaked - n }).writeStake user
            ⟨(s.readStake user).amount - n, debt⟩ with world := w }.publish
              (.unstake user n pending))
  | claim (user : Address) (pending debt : Int) (w : W) (hu : user ≠ contract)
      (hp : pendingOf (s.readStake user) f.accumulatedRewardsPerShare = .ok pending)
      (hpos : 0 < pending)
      (hd : shareOf (s.readStake user).amount f.accumulatedRewardsPerShare = .ok debt)
      (hw : T.transfer s.world f.rewardToken contract user pending = some w) :
      Effect T env s farm f (.claim user)
        ({ (s.writeFarm f).writeStake user ⟨(s.readStake user).amount, debt⟩ with
          world := w }.publish (.claimed user pending))

theorem accrueRewards_eq_ok : accrueRewards env s = .ok t ↔
    ∃ farm, s.farm = some farm ∧ ∃ f, accrueFarm env farm = .ok f ∧ s.writeFarm f = t := by
  simp only [accrueRewards, Storage.readFarm, bind_eq_ok, unwrap_eq_ok, pure_eq_ok]

theorem transfer_eq_ok {token src dst : Address} {n : Int} :
    transfer T s token src dst n = .ok t ↔
      ∃ w, T.transfer s.world token src dst n = some w ∧ { s with world := w } = t := by
  simp only [transfer, bind_eq_ok, unwrap_eq_ok, pure_eq_ok]

theorem payPending_eq_ok {token user : Address} {pending : Int} :
    payPending T s contract token user pending = .ok t ↔
      ∃ w, Pays T contract token user pending s.world w ∧ { s with world := w } = t := by
  unfold payPending Pays
  split
  · exact transfer_eq_ok
  · simp

theorem invoke_effect {c : Call Address} (h : invoke T env s c = .ok t) :
    ∃ farm f, s.farm = some farm ∧ accrueFarm env farm = .ok f ∧ Effect T env s farm f c t := by
  cases c with
  | setRewardPerLedger admin rate =>
    simp only [invoke, setRewardPerLedger, bind_eq_ok, rejectIf_eq_ok, accrueRewards_eq_ok,
      pure_eq_ok] at h
    obtain ⟨_, -, _, -, _, -, _, hrate, _, ⟨farm, hf, f, ha, rfl⟩, g, hg, rfl⟩ := h
    cases hg
    exact ⟨farm, f, hf, ha, .setRewardPerLedger admin rate (not_lt.mp hrate)⟩
  | stake user n =>
    simp only [invoke, stake, bind_eq_ok, requireAuth_eq_ok, rejectIf_eq_ok, accrueRewards_eq_ok,
      checked_eq_ok, transfer_eq_ok, payPending_eq_ok, pure_eq_ok] at h
    obtain ⟨_, hauth, _, hn, _, ⟨farm, hf, f, ha, rfl⟩, h⟩ := h
    obtain ⟨g, hg, _, ⟨v, hv, rfl⟩, h⟩ := h
    obtain ⟨p, hp, _, ⟨w, hw, rfl⟩, h⟩ := h
    obtain ⟨_, ⟨-, rfl⟩, h⟩ := h
    obtain ⟨debt, hd, _, ⟨-, rfl⟩, rfl⟩ := h
    cases hg
    exact ⟨farm, f, hf, ha, .stake user n p debt v w (ne_self hauth) (not_le.mp hn) hp hd hv hw⟩
  | unstake user n =>
    simp only [invoke, unstake, bind_eq_ok, requireAuth_eq_ok, rejectIf_eq_ok,
      accrueRewards_eq_ok, checked_eq_ok, transfer_eq_ok, payPending_eq_ok, pure_eq_ok] at h
    obtain ⟨_, h, rfl⟩ := h
    obtain ⟨_, hauth, _, hn, _, ⟨farm, hf, f, ha, rfl⟩, h⟩ := h
    obtain ⟨g, hg, _, hle, p, hp, _, ⟨-, rfl⟩, h⟩ := h
    obtain ⟨debt, hd, _, ⟨-, rfl⟩, h⟩ := h
    obtain ⟨_, ⟨v, hv, rfl⟩, h⟩ := h
    obtain ⟨_, ⟨w, hw, rfl⟩, rfl⟩ := h
    cases hg
    exact ⟨farm, f, hf, ha, .unstake user n p debt v w (ne_self hauth) (not_le.mp hn)
      (not_lt.mp hle) hp hd hv hw⟩
  | claim user =>
    simp only [invoke, claim, bind_eq_ok, requireAuth_eq_ok, rejectIf_eq_ok, accrueRewards_eq_ok,
      transfer_eq_ok, pure_eq_ok] at h
    obtain ⟨_, h, rfl⟩ := h
    obtain ⟨_, hauth, _, ⟨farm, hf, f, ha, rfl⟩, h⟩ := h
    obtain ⟨g, hg, p, hp, _, hpos, h⟩ := h
    obtain ⟨debt, hd, _, ⟨w, hw, rfl⟩, rfl⟩ := h
    cases hg
    exact ⟨farm, f, hf, ha, .claim user p debt w (ne_self hauth) hp (not_le.mp hpos) hd hw⟩

end Suban.LiquidityMining.Steps

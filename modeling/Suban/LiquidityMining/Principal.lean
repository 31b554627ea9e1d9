import Suban.Basis.Runs
import Suban.LiquidityMining.Steps

namespace Suban.LiquidityMining.Principal

open Suban.Basis.Calls Suban.Basis.Tables Suban.Basis.Runs Suban.Soroban.Host
open Suban.LiquidityMining.Contract Suban.LiquidityMining.Steps

variable {Address W : Type} [DecidableEq Address] {contract : Address}
variable {T : Sep41 Address W} {env : Env Address contract} {s t : Storage Address W}
variable {farm f : FarmInfo Address}

/-- The balance of the farm in the one token that it takes and pays. -/
def held (T : Sep41 Address W) (contract : Address) (s : Storage Address W)
    (farm : FarmInfo Address) : Int :=
  T.balance s.world farm.rewardToken contract

def stakes (s : Storage Address W) : Int := total StakeInfo.amount s.stake

/-- The farm holds the total that is staked, so that all stakers together can
take their stakes out. -/
def PrincipalSafe (T : Sep41 Address W) (contract : Address) (s : Storage Address W) : Prop :=
  ∀ farm, s.farm = some farm →
    farm.totalStaked ≤ held T contract s farm ∧ stakes s ≤ held T contract s farm

structure Staked (s : Storage Address W) (farm : FarmInfo Address) : Prop where
  stored : s.farm = some farm
  total : stakes s = farm.totalStaked
  amount : ∀ user v, s.stake.lookup user = some v → 0 ≤ v.amount
  debt : ∀ user v, s.stake.lookup user = some v → v.amount = 0 → v.rewardDebt = 0

def Undrained (T : Sep41 Address W) (s : Storage Address W) :
    Input Address W contract (Call Address) → Prop
  | .call _ _ => True
  | .world w => ∀ farm, s.farm = some farm →
      held T contract s farm ≤ T.balance w farm.rewardToken contract

/-- The rewards that the view shows the user are no more than what the farm holds
beyond the stakes. -/
def Covered (T : Sep41 Address W) (env : Env Address contract) (s : Storage Address W)
    (user : Address) : Prop :=
  ∀ farm pending, s.farm = some farm → pendingRewards env s user = .ok pending →
    pending ≤ held T contract s farm - farm.totalStaked

def RewardsCovered (T : Sep41 Address W) (s : Storage Address W) :
    Input Address W contract (Call Address) → Prop
  | .call env (.stake user _) | .call env (.unstake user _) | .call env (.claim user) =>
    Covered T env s user
  | _ => True

theorem principalSafe_iff (h : Staked s farm) :
    PrincipalSafe T contract s ↔ farm.totalStaked ≤ held T contract s farm := by
  simp only [PrincipalSafe, h.stored, h.total, Option.some.injEq, forall_eq', and_self]

theorem Staked.nonneg (h : Staked s farm) : 0 ≤ farm.totalStaked := by
  rw [← h.total]
  exact total_nonneg _ _ h.amount

theorem Staked.readStake (h : Staked s farm) (user : Address) :
    0 ≤ (s.readStake user).amount ∧
      ((s.readStake user).amount = 0 → (s.readStake user).rewardDebt = 0) := by
  unfold Storage.readStake readOr
  cases hl : s.stake.lookup user with
  | none => exact ⟨le_rfl, fun _ => rfl⟩
  | some v => exact ⟨h.amount user v hl, h.debt user v hl⟩

omit [DecidableEq Address] in
theorem accrueFarm_ok (h : accrueFarm env farm = .ok f) (h0 : 0 ≤ farm.totalStaked) :
    f.rewardToken = farm.rewardToken ∧ f.totalStaked = farm.totalStaked ∧
      simulateAccrual env farm = .ok f.accumulatedRewardsPerShare := by
  unfold accrueFarm at h
  unfold simulateAccrual
  split at h
  next hz =>
    cases pure_eq_ok.mp h
    simp [hz, pure, Except.pure]
  next hz =>
    have hpos : 0 < farm.totalStaked := lt_of_le_of_ne h0 (Ne.symm hz)
    split at h
    next hl =>
      simp only [accrueLedgers, bind_eq_ok, pure_eq_ok] at h
      obtain ⟨a, ha, rfl⟩ := h
      exact ⟨rfl, rfl, (if_pos ⟨hl, hpos⟩).trans ha⟩
    next hl =>
      cases pure_eq_ok.mp h
      exact ⟨rfl, rfl, if_neg fun hand => hl hand.1⟩

theorem shareOf_zero {a d : Int} (h : shareOf 0 a = .ok d) : d = 0 := by
  simp only [shareOf, bind_eq_ok, checked_eq_ok, checkedDiv_eq_ok] at h
  obtain ⟨_, ⟨-, rfl⟩, -, -, rfl⟩ := h
  simp

theorem pendingRewards_eq (h : Staked s farm) (ha : accrueFarm env farm = .ok f)
    {user : Address} {p : Int}
    (hp : pendingOf (s.readStake user) f.accumulatedRewardsPerShare = .ok p) :
    pendingRewards env s user = .ok p := by
  obtain ⟨-, -, hacc⟩ := accrueFarm_ok ha h.nonneg
  simp only [pendingRewards, Storage.readFarm, h.stored, bind_eq_ok, unwrap_eq_ok,
    Option.some.injEq, exists_eq_left']
  split
  next hz =>
    simp only [pendingOf, hz, (h.readStake user).2 hz, bind_eq_ok, checked_eq_ok] at hp
    obtain ⟨d, hd, -, rfl⟩ := hp
    rw [shareOf_zero hd]
    rfl
  next => exact bind_eq_ok.mpr ⟨_, hacc, hp⟩

theorem covered_iff (h : Staked s farm) (ha : accrueFarm env farm = .ok f) {user : Address}
    {p : Int} (hp : pendingOf (s.readStake user) f.accumulatedRewardsPerShare = .ok p) :
    Covered T env s user ↔ p ≤ held T contract s farm - farm.totalStaked := by
  refine ⟨?_, ?_⟩
  · exact fun hc => hc farm p h.stored (pendingRewards_eq h ha hp)
  · intro hle g q hg hq
    cases h.stored.symm.trans hg
    cases (pendingRewards_eq h ha hp).symm.trans hq
    exact hle

theorem pays_balance {token user : Address} {p : Int} {v w : W}
    (h : Pays T contract token user p v w) (hu : user ≠ contract) :
    T.balance w token contract = T.balance v token contract - max p 0 := by
  unfold Pays at h
  split at h
  next hp => rw [T.balance_out h hu, max_eq_left hp.le]
  next hp => rw [h, max_eq_right (not_lt.mp hp), sub_zero]

theorem stakes_write {user : Address} {v : StakeInfo}
    (h : t.stake = s.stake.insert user v) :
    stakes t = stakes s - (s.readStake user).amount + v.amount := by
  rw [stakes, h, total_insert, Storage.readStake, readOr]
  cases s.stake.lookup user <;> rfl

theorem staked_write {g : FarmInfo Address} (h : Staked s farm) {user : Address} {n debt acc : Int}
    (hn : 0 ≤ n) (hd : shareOf n acc = .ok debt) (hfarm : t.farm = some g)
    (hstake : t.stake = s.stake.insert user ⟨n, debt⟩)
    (hg : g.totalStaked = farm.totalStaked - (s.readStake user).amount + n) : Staked t g := by
  refine ⟨hfarm, ?_, ?_, ?_⟩
  · rw [stakes_write hstake, h.total, hg]
  · rw [hstake]
    exact forall_insert hn h.amount
  · rw [hstake]
    refine forall_insert (fun hz => ?_) h.debt
    change n = 0 at hz
    exact shareOf_zero (hz ▸ hd)

theorem staked_effect {c : Call Address} (h : Effect T env s farm f c t) (hs : Staked s farm)
    (ha : accrueFarm env farm = .ok f) : ∃ g, Staked t g := by
  obtain ⟨-, htotal, -⟩ := accrueFarm_ok ha hs.nonneg
  cases h with
  | setRewardPerLedger admin rate =>
    exact ⟨_, rfl, hs.total.trans htotal.symm, hs.amount, hs.debt⟩
  | stake user n pending debt v w hu hn hp hd hv hw =>
    refine ⟨_, staked_write hs (add_nonneg (hs.readStake user).1 hn.le) hd rfl rfl ?_⟩
    rw [htotal]
    ring
  | unstake user n pending debt v w hu hn hle hp hd hv hw =>
    refine ⟨_, staked_write hs (sub_nonneg.mpr hle) hd rfl rfl ?_⟩
    rw [htotal]
    ring
  | claim user pending debt w hu hp hpos hd hw =>
    refine ⟨_, staked_write hs (hs.readStake user).1 hd rfl rfl ?_⟩
    rw [htotal]
    ring

theorem principalSafe_effect {c : Call Address} (h : Effect T env s farm f c t)
    (hs : Staked s farm) (ha : accrueFarm env farm = .ok f) (hsafe : PrincipalSafe T contract s) :
    PrincipalSafe T contract t ↔ RewardsCovered T s (.call env c) := by
  obtain ⟨htoken, htotal, -⟩ := accrueFarm_ok ha hs.nonneg
  obtain ⟨g, hg⟩ := staked_effect h hs ha
  have hheld : farm.totalStaked ≤ held T contract s farm := (principalSafe_iff hs).mp hsafe
  rw [principalSafe_iff hg]
  cases h with
  | setRewardPerLedger admin rate =>
    cases hg.stored
    refine iff_of_true ?_ trivial
    change f.totalStaked ≤ T.balance s.world f.rewardToken contract
    rw [htoken, htotal]
    exact hheld
  | stake user n pending debt v w hu hn hp hd hv hw =>
    cases hg.stored
    have hin := T.balance_in hv hu
    have hout := pays_balance hw hu
    rw [RewardsCovered, covered_iff hs ha hp]
    change f.totalStaked + n ≤ T.balance w f.rewardToken contract ↔ _
    rw [htoken] at hin hout ⊢
    unfold held at hheld ⊢
    omega
  | unstake user n pending debt v w hu hn hle hp hd hv hw =>
    cases hg.stored
    have hback := T.balance_out hv hu
    have hout := pays_balance hw hu
    rw [RewardsCovered, covered_iff hs ha hp]
    change f.totalStaked - n ≤ T.balance w f.rewardToken contract ↔ _
    rw [htoken] at hback hout ⊢
    unfold held at hheld ⊢
    omega
  | claim user pending debt w hu hp hpos hd hw =>
    cases hg.stored
    have hout := T.balance_out hw hu
    rw [RewardsCovered, covered_iff hs ha hp]
    change f.totalStaked ≤ T.balance w f.rewardToken contract ↔ _
    rw [htoken] at hout ⊢
    unfold held
    omega

theorem principalSafe_step {i : Input Address W contract (Call Address)}
    (h : step T s i = .ok t) (hs : ∃ farm, Staked s farm) (hsafe : PrincipalSafe T contract s)
    (hi : Undrained T s i) :
    (PrincipalSafe T contract t ↔ RewardsCovered T s i) ∧ ∃ g, Staked t g := by
  obtain ⟨farm, hs⟩ := hs
  cases i with
  | call env c =>
    obtain ⟨farm', f, hf, ha, he⟩ := invoke_effect h
    cases hs.stored.symm.trans hf
    exact ⟨principalSafe_effect he hs ha hsafe, staked_effect he hs ha⟩
  | world w =>
    cases pure_eq_ok.mp h
    have ht : Staked { s with world := w } farm := ⟨hs.stored, hs.total, hs.amount, hs.debt⟩
    refine ⟨iff_of_true ((principalSafe_iff ht).mpr ?_) trivial, farm, ht⟩
    exact ((principalSafe_iff hs).mp hsafe).trans (hi farm hs.stored)

theorem staked_initialise {w : W} {admin rewardToken : Address} {rewardPerLedger : Int}
    (h : initialise env (.fresh w) admin rewardToken rewardPerLedger = .ok s) :
    ∃ farm, Staked s farm ∧ farm.totalStaked = 0 := by
  simp only [initialise, bind_eq_ok, pure_eq_ok] at h
  obtain ⟨_, -, _, -, _, -, rfl⟩ := h
  refine ⟨_, ⟨rfl, rfl, fun user v hl => ?_, fun user v hl => ?_⟩, rfl⟩
  · cases hl
  · cases hl

/-- The farm holds what is staked in every state of a run exactly when every
accepted call of a staker finds the rewards it is shown beyond the stakes. -/
theorem principalSafe_iff_rewardsCovered {w : W} {admin rewardToken : Address}
    {rewardPerLedger : Int}
    (h : initialise env (.fresh w) admin rewardToken rewardPerLedger = .ok s)
    (is : List (Input Address W contract (Call Address)))
    (hkeep : Along (step T) (Undrained T) s is) :
    Throughout (step T) (PrincipalSafe T contract) s is ↔
      Along (step T) (RewardsCovered T) s is := by
  obtain ⟨farm, hs, h0⟩ := staked_initialise h
  have hsafe : PrincipalSafe T contract s := by
    rw [principalSafe_iff hs, h0]
    exact T.balance_nonneg _ _ _
  refine throughout_iff_along (J := fun s => ∃ farm, Staked s farm) (fun s i t hJ hsafe hi ht => ?_)
    ⟨farm, hs⟩ hsafe hkeep
  obtain ⟨hiff, hstaked⟩ := principalSafe_step ht hJ hsafe hi
  exact ⟨hiff, fun _ => hstaked⟩

def sampleWorld : Nat → Nat → Nat := fun token a =>
  if token = 10 ∧ (a = 2 ∨ a = 3) then 5000 else 0

def sampleStorage : Storage Nat (Nat → Nat → Nat) :=
  { Storage.fresh sampleWorld with admin := some 1, farm := some ⟨10, 100, 0, 0, 0⟩ }

theorem principalSafe_iff_rewardsCovered_sample :
    Throughout (step (bookToken Nat)) (PrincipalSafe (bookToken Nat) 0) sampleStorage
      [.call (Env.signed 0 0) (.stake 2 1000), .call (Env.signed 0 0) (.unstake 2 400)] := by
  have hopen : initialise (Env.signed 0 0) (.fresh sampleWorld) 1 10 100 = .ok sampleStorage := rfl
  refine (principalSafe_iff_rewardsCovered hopen _ ?_).mpr ?_
  · simp [Along, Undrained]
  · refine ⟨fun _ _ => ?_, fun _ _ => ?_, trivial⟩
    · intro farm p hf hp
      cases hf
      cases hp
      decide
    · intro farm p hf hp
      cases hf
      cases hp
      decide

/-- Two users stake a thousand each. Three ledgers later the first one takes its
stake back with rewards that come out of the stake of the other. -/
theorem rewards_paid_from_principal :
    initialise (Env.signed 0 0) (.fresh sampleWorld) 1 10 100 = .ok sampleStorage ∧
    ¬ Throughout (step (bookToken Nat)) (PrincipalSafe (bookToken Nat) 0) sampleStorage
      [.call (Env.signed 0 1) (.stake 2 1000), .call (Env.signed 0 1) (.stake 3 1000),
        .call (Env.signed 0 4) (.unstake 2 1000)] := by
  refine ⟨rfl, fun h => ?_⟩
  have hsafe := (throughout_run h _ rfl).1
  revert hsafe
  decide

end Suban.LiquidityMining.Principal

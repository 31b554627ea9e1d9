import Suban.Basis.Accumulators
import Suban.LiquidityMining.Principal

namespace Suban.LiquidityMining.Rewards

open Suban.Basis.Calls Suban.Basis.Tables Suban.Basis.Runs Suban.Basis.Accumulators
open Suban.Soroban.Host
open Suban.LiquidityMining.Contract Suban.LiquidityMining.Steps Suban.LiquidityMining.Principal

variable {Address W : Type} [DecidableEq Address] {contract : Address}
variable {T : Sep41 Address W} {env : Env Address contract} {s t : Storage Address W}
variable {farm f g : FarmInfo Address} {user : Address}

def accumulatedAt (farm : FarmInfo Address) (ledger : Nat) : Int :=
  farm.accumulatedRewardsPerShare +
    growth 1000000 farm.rewardPerLedger farm.totalStaked (ledger - farm.lastLedger)

def earned (stake : StakeInfo) (accumulated : Int) : Int :=
  stake.amount * accumulated / 1000000 - stake.rewardDebt

def caller : Call Address → Option Address
  | .setRewardPerLedger _ _ => none
  | .stake user _ | .unstake user _ | .claim user => some user

def principal : Call Address → Int
  | .stake _ n => n
  | .unstake _ n => -n
  | .setRewardPerLedger _ _ | .claim _ => 0

/-- What the call has left its caller beyond the stake that it moved. -/
def payout (T : Sep41 Address W) (s : Storage Address W) (c : Call Address)
    (t : Storage Address W) : Int :=
  match s.farm, caller c with
  | some farm, some user =>
    T.balance t.world farm.rewardToken user - T.balance s.world farm.rewardToken user + principal c
  | _, _ => 0

/-- No stake has been paid more than it has earned. -/
structure Accruing (s : Storage Address W) (farm : FarmInfo Address) : Prop
    extends Staked s farm where
  rate : 0 ≤ farm.rewardPerLedger
  accumulated : 0 ≤ farm.accumulatedRewardsPerShare
  owed : ∀ user v, s.stake.lookup user = some v →
    v.rewardDebt ≤ v.amount * farm.accumulatedRewardsPerShare / 1000000

/-- The rewards that the view shows a user, when none of its arithmetic
overflows, are what the user's calls pay in that ledger and tell of. -/
structure Agrees (T : Sep41 Address W) (env : Env Address contract) (s : Storage Address W)
    (user : Address) : Prop where
  nonneg : ∀ p, pendingRewards env s user = .ok p → 0 ≤ p
  pays : ∀ c t, caller c = some user → invoke T env s c = .ok t →
    pendingRewards env s user = .ok (payout T s c t)
  unstaked : ∀ n p t, unstake T env s user n = .ok (p, t) → pendingRewards env s user = .ok p
  claimed : ∀ p t, claim T env s user = .ok (p, t) → pendingRewards env s user = .ok p ∧ 0 < p
  refused : ∀ p, pendingRewards env s user = .ok p →
    claim T env s user = .error (.error .noRewards) → p = 0

/-- The farm `g` is the farm `farm` brought up to the ledger, apart from what a
call then sets in it. -/
structure BroughtUp (ledger : Nat) (farm g : FarmInfo Address) : Prop where
  token : g.rewardToken = farm.rewardToken
  accumulated : g.accumulatedRewardsPerShare = accumulatedAt farm ledger
  last : g.lastLedger = if farm.totalStaked = 0 then farm.lastLedger else max farm.lastLedger ledger

/-- What an accepted call does to the stakes: it leaves them all, or settles the
one of its caller for what it has earned. -/
inductive Moves (T : Sep41 Address W) (env : Env Address contract) (s t : Storage Address W)
    (farm g : FarmInfo Address) : Call Address → Prop where
  | configure (admin : Address) (rate : Int) (hrate : 0 ≤ rate) (hstake : t.stake = s.stake)
      (htotal : g.totalStaked = farm.totalStaked) (hg : g.rewardPerLedger = rate) :
      Moves T env s t farm g (.setRewardPerLedger admin rate)
  | settle {c : Call Address} (user : Address) (hcaller : caller c = some user)
      (hamount : 0 ≤ (s.readStake user).amount + principal c)
      (hstake : t.stake = s.stake.insert user ⟨(s.readStake user).amount + principal c,
        ((s.readStake user).amount + principal c) * accumulatedAt farm env.sequence / 1000000⟩)
      (htotal : g.totalStaked = farm.totalStaked + principal c)
      (hrate : g.rewardPerLedger = farm.rewardPerLedger)
      (hpaid : payout T s c t = earned (s.readStake user) (accumulatedAt farm env.sequence)) :
      Moves T env s t farm g c

omit [DecidableEq Address] in
theorem accumulated_le (hr : 0 ≤ farm.rewardPerLedger) (ht : 0 ≤ farm.totalStaked) (ledger : Nat) :
    farm.accumulatedRewardsPerShare ≤ accumulatedAt farm ledger :=
  le_add_of_nonneg_right (growth_nonneg (by decide) hr ht)

omit [DecidableEq Address] in
theorem accrueFarm_eq (h : accrueFarm env farm = .ok f) (hr : 0 ≤ farm.rewardPerLedger) :
    f = { farm with
      accumulatedRewardsPerShare := accumulatedAt farm env.sequence
      lastLedger := if farm.totalStaked = 0 then farm.lastLedger
        else max farm.lastLedger env.sequence } := by
  unfold accrueFarm at h
  split at h
  next hz =>
    cases pure_eq_ok.mp h
    have hsame : accumulatedAt farm env.sequence = farm.accumulatedRewardsPerShare := by
      simp [accumulatedAt, hz]
    rw [if_pos hz, hsame]
  next hz =>
    rw [if_neg hz]
    split at h
    next hl =>
      simp only [accrueLedgers, accumulate, bind_eq_ok, checked_eq_ok, checkedDiv_eq_ok,
        pure_eq_ok] at h
      obtain ⟨a, ⟨_, ⟨-, rfl⟩, _, ⟨-, rfl⟩, _, ⟨-, -, rfl⟩, -, rfl⟩, rfl⟩ := h
      have hnonneg : 0 ≤ farm.rewardPerLedger * (env.sequence - farm.lastLedger : Nat) * 1000000 :=
        mul_nonneg (mul_nonneg hr (Int.natCast_nonneg _)) (by decide)
      have hmax : max farm.lastLedger env.sequence = env.sequence := by omega
      rw [Int.tdiv_eq_ediv_of_nonneg hnonneg, hmax]
      rfl
    next hl =>
      cases pure_eq_ok.mp h
      have hzero : env.sequence - farm.lastLedger = 0 := by omega
      have hmax : max farm.lastLedger env.sequence = farm.lastLedger := by omega
      simp [accumulatedAt, hzero, hmax]

theorem shareOf_ok {n a d : Int} (h : shareOf n a = .ok d) (hn : 0 ≤ n) (ha : 0 ≤ a) :
    d = n * a / 1000000 := by
  simp only [shareOf, bind_eq_ok, checked_eq_ok, checkedDiv_eq_ok] at h
  obtain ⟨_, ⟨-, rfl⟩, -, -, rfl⟩ := h
  exact Int.tdiv_eq_ediv_of_nonneg (mul_nonneg hn ha)

theorem pendingOf_ok {v : StakeInfo} {a p : Int} (h : pendingOf v a = .ok p) (hv : 0 ≤ v.amount)
    (ha : 0 ≤ a) : p = earned v a := by
  simp only [pendingOf, bind_eq_ok, checked_eq_ok] at h
  obtain ⟨d, hd, -, rfl⟩ := h
  rw [shareOf_ok hd hv ha]
  rfl

theorem earned_nonneg (hs : Accruing s farm) (user : Address) (ledger : Nat) :
    0 ≤ earned (s.readStake user) (accumulatedAt farm ledger) := by
  have howed : (s.readStake user).rewardDebt ≤
      (s.readStake user).amount * farm.accumulatedRewardsPerShare / 1000000 := by
    unfold Storage.readStake readOr
    cases hl : s.stake.lookup user with
    | none => simp
    | some v => exact hs.owed user v hl
  have hgrows := mul_le_mul_of_nonneg_left (accumulated_le hs.rate hs.nonneg ledger)
    (hs.readStake user).1
  exact sub_nonneg.mpr (howed.trans (Int.ediv_le_ediv (by decide) hgrows))

theorem pays_user {token : Address} {p : Int} {v w : W} (h : Pays T contract token user p v w)
    (hu : user ≠ contract) (hp : 0 ≤ p) :
    T.balance w token user = T.balance v token user + p := by
  unfold Pays at h
  split at h
  next => exact T.balance_in h (Ne.symm hu)
  next hz => rw [h, le_antisymm (not_lt.mp hz) hp, add_zero]

theorem payout_eq {c : Call Address} (hf : s.farm = some farm) (hc : caller c = some user) :
    payout T s c t = T.balance t.world farm.rewardToken user -
      T.balance s.world farm.rewardToken user + principal c := by
  simp only [payout, hf, hc]

theorem invoke_moves {c : Call Address} (h : invoke T env s c = .ok t) (hs : Accruing s farm) :
    ∃ g, t.farm = some g ∧ BroughtUp env.sequence farm g ∧ Moves T env s t farm g c := by
  obtain ⟨farm', f, hf, ha, he⟩ := invoke_effect h
  cases hs.stored.symm.trans hf
  have hacc : 0 ≤ accumulatedAt farm env.sequence :=
    hs.accumulated.trans (accumulated_le hs.rate hs.nonneg _)
  have hpaid (user : Address) := earned_nonneg hs user env.sequence
  cases accrueFarm_eq ha hs.rate
  cases he with
  | setRewardPerLedger admin rate hrate =>
    exact ⟨_, rfl, ⟨rfl, rfl, rfl⟩, .configure admin rate hrate rfl rfl rfl⟩
  | stake user n pending debt v w hu hn hp hd hv hw =>
    have hamount : 0 ≤ (s.readStake user).amount + n := add_nonneg (hs.readStake user).1 hn.le
    cases pendingOf_ok hp (hs.readStake user).1 hacc
    cases shareOf_ok hd hamount hacc
    refine ⟨_, rfl, ⟨rfl, rfl, rfl⟩, .settle user rfl hamount rfl rfl rfl ?_⟩
    have hout := T.balance_out hv (Ne.symm hu)
    have hin := pays_user hw hu (hpaid user)
    rw [payout_eq hs.stored rfl]
    dsimp only [principal, Storage.publish, Storage.writeStake] at hin hout ⊢
    omega
  | unstake user n pending debt v w hu hn hle hp hd hv hw =>
    have hamount : 0 ≤ (s.readStake user).amount - n := sub_nonneg.mpr hle
    cases pendingOf_ok hp (hs.readStake user).1 hacc
    cases shareOf_ok hd hamount hacc
    refine ⟨_, rfl, ⟨rfl, rfl, rfl⟩, .settle user rfl hamount rfl rfl rfl ?_⟩
    have hback := T.balance_in hv (Ne.symm hu)
    have hin := pays_user hw hu (hpaid user)
    rw [payout_eq hs.stored rfl]
    dsimp only [principal, Storage.publish, Storage.writeStake] at hin hback ⊢
    omega
  | claim user pending debt w hu hp hpos hd hw =>
    have hamount := (hs.readStake user).1
    cases pendingOf_ok hp hamount hacc
    cases shareOf_ok hd hamount hacc
    refine ⟨_, rfl, ⟨rfl, rfl, rfl⟩, .settle user rfl ?_ ?_ ?_ rfl ?_⟩
    · rwa [principal, add_zero]
    · rw [principal, add_zero]
      rfl
    · rw [principal, add_zero]
    · have hin := T.balance_in hw (Ne.symm hu)
      rw [payout_eq hs.stored rfl]
      dsimp only [principal, Storage.publish, Storage.writeStake] at hin ⊢
      omega

theorem owed_at (hs : Accruing s farm) (ledger : Nat) (user : Address) (v : StakeInfo)
    (hl : s.stake.lookup user = some v) :
    v.rewardDebt ≤ v.amount * accumulatedAt farm ledger / 1000000 :=
  (hs.owed user v hl).trans (Int.ediv_le_ediv (by decide)
    (mul_le_mul_of_nonneg_left (accumulated_le hs.rate hs.nonneg ledger) (hs.amount user v hl)))

theorem accruing_moves {c : Call Address} (hm : Moves T env s t farm g c) (ht : Staked t g)
    (hg : BroughtUp env.sequence farm g) (hs : Accruing s farm) : Accruing t g := by
  have hacc : 0 ≤ g.accumulatedRewardsPerShare := by
    rw [hg.accumulated]
    exact hs.accumulated.trans (accumulated_le hs.rate hs.nonneg _)
  cases hm with
  | configure admin rate hrate hstake htotal hr =>
    refine ⟨ht, hr.symm ▸ hrate, hacc, ?_⟩
    rw [hstake, hg.accumulated]
    exact owed_at hs env.sequence
  | settle user hcaller hamount hstake htotal hr hpaid =>
    refine ⟨ht, hr.symm ▸ hs.rate, hacc, ?_⟩
    rw [hstake, hg.accumulated]
    exact forall_insert le_rfl (owed_at hs env.sequence)

theorem accruing_invoke {c : Call Address} (h : invoke T env s c = .ok t) (hs : Accruing s farm) :
    ∃ g, Accruing t g ∧ BroughtUp env.sequence farm g ∧ Moves T env s t farm g c := by
  obtain ⟨g, hfarm, hg, hm⟩ := invoke_moves h hs
  obtain ⟨farm', f, hf, ha, he⟩ := invoke_effect h
  cases hs.stored.symm.trans hf
  obtain ⟨g', hg'⟩ := staked_effect he hs.toStaked ha
  cases hfarm.symm.trans hg'.stored
  exact ⟨g, accruing_moves hm hg' hg hs, hg, hm⟩

theorem accruing_world (hs : Accruing s farm) (w : W) : Accruing { s with world := w } farm :=
  ⟨⟨hs.stored, hs.total, hs.amount, hs.debt⟩, hs.rate, hs.accumulated, hs.owed⟩

theorem accruing_step {i : Input Address W contract (Call Address)} (h : step T s i = .ok t)
    (hs : ∃ farm, Accruing s farm) : ∃ farm, Accruing t farm := by
  obtain ⟨farm, hs⟩ := hs
  cases i with
  | call env c =>
    obtain ⟨g, hg, -⟩ := accruing_invoke h hs
    exact ⟨g, hg⟩
  | world w =>
    cases pure_eq_ok.mp h
    exact ⟨farm, accruing_world hs w⟩

theorem accruing_initialise {w : W} {admin rewardToken : Address} {rewardPerLedger : Int}
    (h : initialise env (.fresh w) admin rewardToken rewardPerLedger = .ok s) :
    Accruing s ⟨rewardToken, rewardPerLedger, 0, env.sequence, 0⟩ := by
  simp only [initialise, bind_eq_ok, panicIf_eq_ok, pure_eq_ok] at h
  obtain ⟨_, -, _, -, _, hrate, rfl⟩ := h
  refine ⟨⟨rfl, rfl, ?_, ?_⟩, not_lt.mp hrate, le_rfl, ?_⟩ <;> intro user v hl <;> cases hl

theorem accruing_run (hs : ∃ farm, Accruing s farm)
    (is : List (Input Address W contract (Call Address))) :
    ∃ farm, Accruing (run (step T) s is) farm :=
  throughout_run (throughout_of_along (fun _ _ _ h _ ht => accruing_step ht h) hs (along_true s is))

omit [DecidableEq Address] in
theorem simulateAccrual_ok {a : Int} (h : simulateAccrual env farm = .ok a)
    (hr : 0 ≤ farm.rewardPerLedger) (ht : 0 ≤ farm.totalStaked) :
    a = accumulatedAt farm env.sequence := by
  simp only [simulateAccrual] at h
  split at h
  next hl =>
    simp only [accumulate, bind_eq_ok, checked_eq_ok, checkedDiv_eq_ok] at h
    obtain ⟨_, ⟨-, rfl⟩, _, ⟨-, rfl⟩, _, ⟨-, -, rfl⟩, -, rfl⟩ := h
    rw [Int.tdiv_eq_ediv_of_nonneg]
    · rfl
    · exact mul_nonneg (mul_nonneg hr (Int.natCast_nonneg _)) (by decide)
  next hl =>
    cases pure_eq_ok.mp h
    obtain hz | hpos := ht.eq_or_lt
    · simp [accumulatedAt, ← hz]
    · have hzero : env.sequence - farm.lastLedger = 0 := by
        by_contra hne
        exact hl ⟨Nat.pos_of_ne_zero hne, hpos⟩
      simp [accumulatedAt, hzero]

theorem pendingRewards_ok {p : Int} (h : pendingRewards env s user = .ok p)
    (hs : Accruing s farm) : p = earned (s.readStake user) (accumulatedAt farm env.sequence) := by
  simp only [pendingRewards, Storage.readFarm, hs.stored, bind_eq_ok, unwrap_eq_ok,
    Option.some.injEq, exists_eq_left'] at h
  split at h
  next hz =>
    cases pure_eq_ok.mp h
    simp [earned, hz, (hs.readStake user).2 hz]
  next hz =>
    obtain ⟨a, ha, hp⟩ := bind_eq_ok.mp h
    cases simulateAccrual_ok ha hs.rate hs.nonneg
    exact pendingOf_ok hp (hs.readStake user).1
      (hs.accumulated.trans (accumulated_le hs.rate hs.nonneg _))

theorem pending_of_effect {c : Call Address} (h : Effect T env s farm f c t)
    (hc : caller c = some user) :
    ∃ p, pendingOf (s.readStake user) f.accumulatedRewardsPerShare = .ok p := by
  cases h with
  | setRewardPerLedger => cases hc
  | stake v n pending debt _ _ hu hn hp =>
    cases hc
    exact ⟨pending, hp⟩
  | unstake v n pending debt _ _ hu hn hle hp =>
    cases hc
    exact ⟨pending, hp⟩
  | claim v pending debt _ hu hp =>
    cases hc
    exact ⟨pending, hp⟩

theorem pendingRewards_of_invoke {c : Call Address} (h : invoke T env s c = .ok t)
    (hc : caller c = some user) (hs : Accruing s farm) :
    pendingRewards env s user = .ok (payout T s c t) := by
  obtain ⟨g, -, -, hm⟩ := invoke_moves h hs
  obtain ⟨farm', f, hf, ha, he⟩ := invoke_effect h
  cases hs.stored.symm.trans hf
  obtain ⟨p, hp⟩ := pending_of_effect he hc
  have hview := pendingRewards_eq hs.toStaked ha hp
  have hpaid : payout T s c t = earned (s.readStake user) (accumulatedAt farm env.sequence) := by
    cases hm with
    | configure => cases hc
    | settle v hcaller hamount hstake htotal hrate hpaid =>
      cases hc.symm.trans hcaller
      exact hpaid
  rw [hpaid, ← pendingRewards_ok hview hs]
  exact hview

theorem unstake_returns {n p : Int} (h : unstake T env s user n = .ok (p, t))
    (hs : Accruing s farm) : pendingRewards env s user = .ok p := by
  simp only [unstake, bind_eq_ok, rejectIf_eq_ok, accrueRewards_eq_ok, pure_eq_ok,
    Prod.mk.injEq] at h
  obtain ⟨_, -, _, -, _, ⟨farm', hf, f, ha, rfl⟩, g, hg, _, -, q, hq, h⟩ := h
  obtain ⟨_, -, _, -, _, -, _, -, _, -, rfl, -⟩ := h
  cases hs.stored.symm.trans hf
  cases hg
  exact pendingRewards_eq hs.toStaked ha hq

theorem claim_returns {p : Int} (h : claim T env s user = .ok (p, t)) (hs : Accruing s farm) :
    pendingRewards env s user = .ok p ∧ 0 < p := by
  simp only [claim, bind_eq_ok, rejectIf_eq_ok, accrueRewards_eq_ok, pure_eq_ok,
    Prod.mk.injEq, not_le] at h
  obtain ⟨_, -, _, ⟨farm', hf, f, ha, rfl⟩, g, hg, q, hq, _, hpos, h⟩ := h
  obtain ⟨_, -, _, -, rfl, -⟩ := h
  cases hs.stored.symm.trans hf
  cases hg
  exact ⟨pendingRewards_eq hs.toStaked ha hq, hpos⟩

section Traps

variable {a b : Int} {e : MiningError}

theorem checkedDiv_ne_error : checkedDiv a b ≠ .error (.error e) := by
  unfold checkedDiv
  split
  · exact fun h => by cases h
  · exact checked_ne_error _ _

theorem shareOf_ne_error : shareOf a b ≠ .error (.error e) :=
  bind_ne_error (checked_ne_error _ _) fun _ _ => checkedDiv_ne_error

theorem pendingOf_ne_error {v : StakeInfo} : pendingOf v a ≠ .error (.error e) :=
  bind_ne_error shareOf_ne_error fun _ _ => checked_ne_error _ _

omit [DecidableEq Address] in
theorem accrueFarm_ne_error : accrueFarm env farm ≠ .error (.error e) := by
  unfold accrueFarm accrueLedgers accumulate
  split
  · exact pure_ne_error _ _
  · split
    · refine bind_ne_error (bind_ne_error (checked_ne_error _ _) fun _ _ => ?_)
        fun _ _ => pure_ne_error _ _
      exact bind_ne_error (checked_ne_error _ _) fun _ _ =>
        bind_ne_error checkedDiv_ne_error fun _ _ => checked_ne_error _ _
    · exact pure_ne_error _ _

theorem accrueRewards_ne_error : accrueRewards env s ≠ .error (.error e) :=
  bind_ne_error (unwrap_ne_error _ _) fun _ _ =>
    bind_ne_error accrueFarm_ne_error fun _ _ => pure_ne_error _ _

end Traps

theorem claim_refused {p : Int} (hp : pendingRewards env s user = .ok p)
    (h : claim T env s user = .error (.error .noRewards)) (hs : Accruing s farm) : p ≤ 0 := by
  simp only [claim, transfer, Storage.readFarm, bind_eq_error, bind_eq_ok, requireAuth,
    panicIf_ne_error, accrueRewards_ne_error, accrueRewards_eq_ok, pendingOf_ne_error,
    shareOf_ne_error, unwrap_ne_error, unwrap_eq_ok, rejectIf_eq_error, pure_ne_error, and_true,
    and_false, or_false, false_or, exists_false] at h
  obtain ⟨_, -, _, ⟨farm', hf, f, ha, rfl⟩, g, hg, q, hq, hle⟩ := h
  cases hs.stored.symm.trans hf
  cases hg
  cases (pendingRewards_eq hs.toStaked ha hq).symm.trans hp
  exact hle

/-- In every reachable state, and in any ledger, the total is that of the stakes
and the view agrees with the calls. -/
theorem views_agree {env' : Env Address contract} {w : W} {admin rewardToken : Address}
    {rewardPerLedger : Int}
    (h : initialise env (.fresh w) admin rewardToken rewardPerLedger = .ok s)
    (is : List (Input Address W contract (Call Address))) :
    (∃ farm, (run (step T) s is).farm = some farm ∧
      farm.totalStaked = stakes (run (step T) s is)) ∧
    ∀ user, 0 ≤ ((run (step T) s is).readStake user).amount ∧
      Agrees T env' (run (step T) s is) user := by
  obtain ⟨farm, hs⟩ := accruing_run (T := T) ⟨_, accruing_initialise h⟩ is
  refine ⟨⟨farm, hs.stored, hs.total.symm⟩, fun user => ⟨(hs.readStake user).1, ?_⟩⟩
  have hview : ∀ p, pendingRewards env' (run (step T) s is) user = .ok p → 0 ≤ p := by
    intro p hp
    rw [pendingRewards_ok hp hs]
    exact earned_nonneg hs user env'.sequence
  exact ⟨hview, fun c t hc ht => pendingRewards_of_invoke ht hc hs,
    fun n p t ht => unstake_returns ht hs, fun p t ht => claim_returns ht hs,
    fun p hp hrefused => le_antisymm (claim_refused hp hrefused hs) (hview p hp)⟩

theorem views_agree_sample : Agrees (bookToken Nat) (Env.signed 0 5)
    (run (step (bookToken Nat)) sampleStorage [.call (Env.signed 0 0) (.stake 2 1000)]) 2 := by
  have hopen : initialise (Env.signed 0 0) (.fresh sampleWorld) 1 10 100 = .ok sampleStorage := rfl
  exact ((views_agree hopen _).2 2).2

end Suban.LiquidityMining.Rewards

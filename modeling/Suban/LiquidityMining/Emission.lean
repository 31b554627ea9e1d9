import Suban.LiquidityMining.Rewards
import Suban.Soroban.Ledgers

namespace Suban.LiquidityMining.Emission

open Suban.Basis.Calls Suban.Basis.Tables Suban.Basis.Runs Suban.Basis.Accumulators
open Suban.Soroban.Host Suban.Soroban.Ledgers Suban.LiquidityMining.Contract
open Suban.LiquidityMining.Steps Suban.LiquidityMining.Principal Suban.LiquidityMining.Rewards

variable {Address W : Type} [DecidableEq Address] {contract : Address}
variable {T : Sep41 Address W} {env : Env Address contract} {s t : Storage Address W}
variable {farm g : FarmInfo Address} {user : Address}

/-- The ledger of the last call, what the rates in force have come to, what was
paid, and how often a stake was changed. -/
structure Account where
  ledger : Nat
  due : Int
  paid : Int
  changes : Nat

def emission (s : Storage Address W) (ledgers : Nat) : Int :=
  match s.farm with
  | some farm => farm.rewardPerLedger * ledgers
  | none => 0

/-- The part of it that falls into the time of a user's stake. -/
def entitlement (user : Address) (s : Storage Address W) (ledgers : Nat) : Int :=
  if 0 < (s.readStake user).amount then emission s ledgers else 0

def keepAccount (T : Sep41 Address W) (user : Address) (a : Account) :
    Storage Address W × Input Address W contract (Call Address) × Storage Address W → Account
  | (s, .call env c, t) =>
    { ledger := env.sequence
      due := a.due + entitlement user s (env.sequence - a.ledger)
      paid := a.paid + if caller c = some user then payout T s c t else 0
      changes := a.changes + if caller c = some user ∧ principal c ≠ 0 then 1 else 0 }
  | (_, .world _, _) => a

def keepTotal (T : Sep41 Address W) (a : Account) :
    Storage Address W × Input Address W contract (Call Address) × Storage Address W → Account
  | (s, .call env c, t) =>
    { ledger := env.sequence
      due := a.due + emission s (env.sequence - a.ledger)
      paid := a.paid + payout T s c t
      changes := a.changes + if principal c ≠ 0 then 1 else 0 }
  | (_, .world _, _) => a

/-- In no ledger from now on has the user been paid and promised more than the
rates in force in the time of the user's stake, apart from one unit for each
change of the stake. -/
def NotAhead (contract user : Address) (x : Storage Address W × Account) : Prop :=
  ∀ (env : Env Address contract) p, x.2.ledger ≤ env.sequence →
    pendingRewards env x.1 user = .ok p →
    x.2.paid + p ≤ x.2.due + entitlement user x.1 (env.sequence - x.2.ledger) + x.2.changes

/-- Nobody stakes into the empty farm at a positive rate after ledgers that were
not accrued. -/
def FilledInTime (s : Storage Address W) : Input Address W contract (Call Address) → Prop
  | .call env (.stake _ _) => ∀ farm, s.farm = some farm → farm.totalStaked = 0 →
      farm.rewardPerLedger = 0 ∨ env.sequence ≤ farm.lastLedger
  | _ => True

/-- Ledgers only pass while somebody is staking. -/
def Attended (x : Storage Address W × Account) : Input Address W contract (Call Address) → Prop
  | .call env _ => x.2.ledger < env.sequence → ∀ farm, x.1.farm = some farm →
      farm.totalStaked ≠ 0
  | .world _ => True

theorem emission_eq (h : s.farm = some farm) (ledgers : Nat) :
    emission s ledgers = farm.rewardPerLedger * ledgers := by
  simp only [emission, h]

theorem readStake_insert {v : Address} {x : StakeInfo} (h : t.stake = s.stake.insert v x)
    (user : Address) : t.readStake user = if user = v then x else s.readStake user := by
  rw [Storage.readStake, h, readOr_insert]
  rfl

theorem amount_le_total (h : Staked s farm) (user : Address) :
    (s.readStake user).amount ≤ farm.totalStaked := by
  unfold Storage.readStake readOr
  cases hl : s.stake.lookup user with
  | none => exact h.nonneg
  | some v => exact h.total ▸ Basis.Tables.le_total StakeInfo.amount s.stake h.amount hl

/-- The farm is accrued up to the last call, or has nothing to accrue. -/
structure Timely (farm : FarmInfo Address) (ledger : Nat) : Prop where
  past : farm.lastLedger ≤ ledger
  last : farm.totalStaked ≠ 0 → farm.rewardPerLedger = 0 ∨ farm.lastLedger = ledger

omit [DecidableEq Address] in
theorem Timely.emitted {ledger now : Nat} (h : Timely farm ledger) (hz : farm.totalStaked ≠ 0) :
    farm.rewardPerLedger * (now - farm.lastLedger : Nat) =
      farm.rewardPerLedger * (now - ledger : Nat) := by
  obtain hr | hl := h.last hz
  · rw [hr, zero_mul, zero_mul]
  · rw [hl]

theorem unstake_pos {n : Int} (h : invoke T env s (.unstake user n) = .ok t) : 0 < n := by
  obtain ⟨_, _, -, -, he⟩ := invoke_effect h
  cases he
  assumption

theorem fills {c : Call Address} (h : invoke T env s c = .ok t)
    (hm : Moves T env s t farm g c) (hz : farm.totalStaked = 0) (hg : 0 < g.totalStaked) :
    g.rewardPerLedger = farm.rewardPerLedger ∧ ∃ user n, c = .stake user n := by
  cases hm with
  | configure admin rate hrate hstake htotal hr => omega
  | settle user hcaller hamount hstake htotal hr hpaid =>
    refine ⟨hr, ?_⟩
    cases c with
    | setRewardPerLedger admin rate => cases hcaller
    | stake user n => exact ⟨user, n, rfl⟩
    | unstake user n =>
      have hn := unstake_pos h
      dsimp only [principal] at htotal
      omega
    | claim user =>
      dsimp only [principal] at htotal
      omega

theorem timely_call {ledger : Nat} {c : Call Address} (h : invoke T env s c = .ok t)
    (hs : Accruing s farm) (ht : Accruing t g) (hg : BroughtUp env.sequence farm g)
    (hm : Moves T env s t farm g c) (hle : ledger ≤ env.sequence)
    (hfill : FilledInTime s (.call env c)) (htime : Timely farm ledger) :
    Timely g env.sequence := by
  have hpast := htime.past.trans hle
  by_cases hz : farm.totalStaked = 0
  · have hlast : g.lastLedger = farm.lastLedger := by rw [hg.last, if_pos hz]
    refine ⟨hlast ▸ hpast, fun hne => ?_⟩
    obtain ⟨hr, user, n, rfl⟩ := fills h hm hz (lt_of_le_of_ne ht.nonneg (Ne.symm hne))
    obtain hrate | hnow := hfill farm hs.stored hz
    · exact .inl (hr.trans hrate)
    · exact .inr (hlast.trans (le_antisymm hpast hnow))
  · have hlast : g.lastLedger = env.sequence := by rw [hg.last, if_neg hz, max_eq_right hpast]
    exact ⟨hlast.le, fun _ => .inr hlast⟩

/-- A stake gains no more on the accumulator than the rate emits in its time. -/
theorem accumulated_due {ledger : Nat} (hs : Accruing s farm) (htime : Timely farm ledger)
    (user : Address) (now : Nat) :
    (s.readStake user).amount * accumulatedAt farm now ≤
      (s.readStake user).amount * farm.accumulatedRewardsPerShare +
        1000000 * entitlement user s (now - ledger) := by
  have hle := amount_le_total hs.toStaked user
  rw [accumulatedAt, mul_add, entitlement]
  refine add_le_add_right ?_ _
  split
  next hpos =>
    rw [emission_eq hs.stored, ← htime.emitted (hpos.trans_le hle).ne']
    exact part_mul_growth_le (by decide) hs.rate hpos.le hle
  next hneg =>
    have hz : (s.readStake user).amount = 0 := le_antisymm (not_lt.mp hneg) (hs.readStake user).1
    simp [hz]

/-- What the user was paid and is credited with at the accumulator has come due,
apart from one unit for each change of the stake. -/
structure Credited (user : Address) (x : Storage Address W × Account) (farm : FarmInfo Address) :
    Prop extends Accruing x.1 farm, Timely farm x.2.ledger where
  credit : 1000000 * (x.2.paid - (x.1.readStake user).rewardDebt) +
      (x.1.readStake user).amount * farm.accumulatedRewardsPerShare ≤
    1000000 * (x.2.due + x.2.changes)

theorem credited_call {x : Storage Address W × Account} {c : Call Address}
    (h : invoke T env x.1 c = .ok t) (hle : x.2.ledger ≤ env.sequence)
    (hfill : FilledInTime x.1 (.call env c)) (hx : Credited user x farm) :
    ∃ g, Credited user (t, keepAccount T user x.2 (x.1, .call env c, t)) g := by
  obtain ⟨g, ht, hg, hm⟩ := accruing_invoke h hx.toAccruing
  have htime := timely_call h hx.toAccruing ht hg hm hle hfill hx.toTimely
  have hdue := accumulated_due hx.toAccruing hx.toTimely user env.sequence
  have hcredit := hx.credit
  refine ⟨g, ht, htime, ?_⟩
  cases hm with
  | configure admin rate hrate hstake htotal hr =>
    have hsame : t.readStake user = x.1.readStake user := by simp only [Storage.readStake, hstake]
    simp only [keepAccount, hsame, hg.accumulated, caller, principal]
    simp only [reduceCtorEq, false_and, if_false]
    omega
  | settle v hcaller hamount hstake htotal hr hpaid =>
    simp only [keepAccount, readStake_insert hstake, hg.accumulated, hcaller, Option.some.injEq]
    by_cases hv : v = user
    · subst hv
      simp only [if_true, true_and, hpaid, earned]
      split
      next => omega
      next hn =>
        simp only [not_not.mp hn, add_zero]
        omega
    · simp only [hv, Ne.symm hv, if_false, false_and]
      omega

theorem credited_step {x y : Storage Address W × Account}
    {i : Input Address W contract (Call Address)}
    (h : noted (step T) (keepAccount T user) x i = .ok y) (horder : OnTime x.2.ledger i)
    (hfill : FilledInTime x.1 i) (hx : ∃ farm, Credited user x farm) :
    ∃ farm, Credited user y farm := by
  obtain ⟨t, ht, rfl⟩ := noted_eq_ok.mp h
  obtain ⟨farm, hx⟩ := hx
  cases i with
  | call env c => exact credited_call ht horder hfill hx
  | world w =>
    cases pure_eq_ok.mp ht
    exact ⟨farm, accruing_world hx.toAccruing w, hx.toTimely, hx.credit⟩

theorem notAhead_of_credited {x : Storage Address W × Account} (hx : ∃ farm, Credited user x farm) :
    NotAhead contract user x := by
  obtain ⟨farm, hx⟩ := hx
  intro env p hle hp
  have hdue := accumulated_due hx.toAccruing hx.toTimely user env.sequence
  have hcredit := hx.credit
  rw [pendingRewards_ok hp hx.toAccruing, earned]
  omega

theorem keepAccount_ledger (a : Account)
    (x : Storage Address W × Input Address W contract (Call Address) × Storage Address W) :
    (keepAccount T user a x).ledger = clock a.ledger x := by
  obtain ⟨s, i, t⟩ := x
  cases i <;> rfl

/-- A run in which the empty farm is filled in time pays and promises no user
more than the rate emits in the time of the user's stake. -/
theorem notAhead_of_filledInTime {w : W} {admin rewardToken : Address} {rewardPerLedger : Int}
    (h : initialise env (.fresh w) admin rewardToken rewardPerLedger = .ok s)
    (is : List (Input Address W contract (Call Address))) (horder : InOrder env.sequence is)
    (hfill : Along (step T) FilledInTime s is) (user : Address) :
    Throughout (noted (step T) (keepAccount T user)) (NotAhead contract user)
      (s, ⟨env.sequence, 0, 0, 0⟩) is := by
  have hs := accruing_initialise h
  have hopen : ∃ farm, Credited user (s, ⟨env.sequence, 0, 0, 0⟩) farm := by
    refine ⟨_, hs, ⟨le_rfl, fun _ => .inr rfl⟩, ?_⟩
    have hstake : s.readStake user = ⟨0, 0⟩ := by
      simp only [initialise, bind_eq_ok, pure_eq_ok] at h
      obtain ⟨_, -, _, -, _, -, rfl⟩ := h
      rfl
    simp [hstake]
  have hfilled : Along (noted (step T) (keepAccount T user)) (fun x => FilledInTime x.1)
      (s, ⟨env.sequence, 0, 0, 0⟩) is := along_noted.mpr hfill
  exact throughout_mono (fun x => notAhead_of_credited)
    (throughout_of_along (fun x i y hx hi hy => credited_step hy hi.1 hi.2 hx) hopen
      (along_and.mpr ⟨along_onTime keepAccount_ledger horder, hfilled⟩))

theorem notAhead_of_filledInTime_sample :
    Throughout (noted (step (bookToken Nat)) (keepAccount (bookToken Nat) 2)) (NotAhead 0 2)
      (sampleStorage, ⟨0, 0, 0, 0⟩)
      [.call (Env.signed 0 0) (.stake 2 1000), .call (Env.signed 0 3) (.claim 2)] := by
  have hopen : initialise (Env.signed 0 0) (.fresh sampleWorld) 1 10 100 = .ok sampleStorage := rfl
  refine notAhead_of_filledInTime hopen _ ?_ ?_ 2
  · exact ⟨le_rfl, Nat.zero_le _, trivial⟩
  · refine ⟨fun _ _ farm hfarm _ => .inr ?_, fun _ _ => trivial, trivial⟩
    cases hfarm
    exact le_rfl

/-- The farm stands empty for ten ledgers. Who then stakes is promised what it
would have emitted in them. -/
theorem idle_ledgers_earned :
    initialise (Env.signed 0 0) (.fresh sampleWorld) 1 10 100 = .ok sampleStorage ∧
    ¬ Throughout (noted (step (bookToken Nat)) (keepAccount (bookToken Nat) 2)) (NotAhead 0 2)
      (sampleStorage, ⟨0, 0, 0, 0⟩) [.call (Env.signed 0 10) (.stake 2 1000)] := by
  refine ⟨rfl, fun h => ?_⟩
  have hlast := throughout_run h (Env.signed 0 10) 1000 (by decide) rfl
  revert hlast
  decide

def debts (s : Storage Address W) : Int := total StakeInfo.rewardDebt s.stake

/-- What all users were paid and are credited with has come due, apart from a
fraction for each change of a stake. -/
structure Booked (x : Storage Address W × Account) (farm : FarmInfo Address) : Prop
    extends Accruing x.1 farm where
  last : farm.lastLedger = x.2.ledger
  credit : 1000000 * x.2.paid +
      (farm.totalStaked * farm.accumulatedRewardsPerShare - 1000000 * debts x.1) ≤
    1000000 * x.2.due + 999999 * x.2.changes

theorem credit_nonneg (hs : Accruing s farm) :
    0 ≤ farm.totalStaked * farm.accumulatedRewardsPerShare - 1000000 * debts s := by
  rw [debts, ← hs.total, stakes, ← total_combine]
  refine total_nonneg _ _ fun user v hl => ?_
  have howed := hs.owed user v hl
  omega

theorem debts_write {user : Address} {v : StakeInfo} (h : t.stake = s.stake.insert user v) :
    debts t = debts s - (s.readStake user).rewardDebt + v.rewardDebt := by
  rw [debts, h, total_insert_readOr (d := ⟨0, 0⟩) rfl]
  rfl

theorem accumulated_emitted (hs : Accruing s farm) (now : Nat) :
    farm.totalStaked * accumulatedAt farm now ≤
      farm.totalStaked * farm.accumulatedRewardsPerShare +
        1000000 * emission s (now - farm.lastLedger) := by
  rw [accumulatedAt, mul_add, emission_eq hs.stored]
  exact add_le_add_right (total_mul_growth_le (by decide) hs.rate hs.nonneg) _

theorem booked_call {x : Storage Address W × Account} {c : Call Address}
    (h : invoke T env x.1 c = .ok t) (hle : x.2.ledger ≤ env.sequence)
    (hattended : Attended x (.call env c)) (hx : Booked x farm) :
    ∃ g, Booked (t, keepTotal T x.2 (x.1, .call env c, t)) g := by
  obtain ⟨g, ht, hg, hm⟩ := accruing_invoke h hx.toAccruing
  have hdue := accumulated_emitted hx.toAccruing env.sequence
  have hcredit := hx.credit
  rw [hx.last] at hdue
  have hlast : g.lastLedger = env.sequence := by
    rw [hg.last, hx.last]
    split
    next hz => exact le_antisymm hle (not_lt.mp fun hlt => hattended hlt farm hx.stored hz)
    next => exact max_eq_right hle
  refine ⟨g, ht, hlast, ?_⟩
  cases hm with
  | configure admin rate hrate hstake htotal hr =>
    have hsame : debts t = debts x.1 := by simp only [debts, hstake]
    have hpaid : payout T x.1 (.setRewardPerLedger admin rate) t = 0 := by
      simp only [payout, hx.stored, caller]
    have hkept : ¬ principal (.setRewardPerLedger admin rate) ≠ 0 := not_not.mpr rfl
    simp only [keepTotal, hsame, hpaid, htotal, hg.accumulated, if_neg hkept]
    omega
  | settle v hcaller hamount hstake htotal hr hpaid =>
    simp only [keepTotal, debts_write hstake, hpaid, htotal, hg.accumulated, earned, add_mul]
    split
    next => omega
    next hn =>
      simp only [not_not.mp hn, zero_mul, add_zero]
      omega

theorem booked_step {x y : Storage Address W × Account}
    {i : Input Address W contract (Call Address)} (h : noted (step T) (keepTotal T) x i = .ok y)
    (horder : OnTime x.2.ledger i) (hattended : Attended x i) (hx : ∃ farm, Booked x farm) :
    ∃ farm, Booked y farm := by
  obtain ⟨t, ht, rfl⟩ := noted_eq_ok.mp h
  obtain ⟨farm, hx⟩ := hx
  cases i with
  | call env c => exact booked_call ht horder hattended hx
  | world w =>
    cases pure_eq_ok.mp ht
    exact ⟨farm, accruing_world hx.toAccruing w, hx.last, hx.credit⟩

theorem keepTotal_ledger (a : Account)
    (x : Storage Address W × Input Address W contract (Call Address) × Storage Address W) :
    (keepTotal T a x).ledger = clock a.ledger x := by
  obtain ⟨s, i, t⟩ := x
  cases i <;> rfl

/-- An attended farm pays no more than its rate emits and one unit for each
change of a stake. -/
theorem paid_le_emitted {w : W} {admin rewardToken : Address} {rewardPerLedger : Int}
    (h : initialise env (.fresh w) admin rewardToken rewardPerLedger = .ok s)
    (is : List (Input Address W contract (Call Address))) (horder : InOrder env.sequence is)
    (hattended : Along (noted (step T) (keepTotal T)) Attended (s, ⟨env.sequence, 0, 0, 0⟩) is) :
    Throughout (noted (step T) (keepTotal T)) (fun x => x.2.paid ≤ x.2.due + x.2.changes)
      (s, ⟨env.sequence, 0, 0, 0⟩) is := by
  have hs := accruing_initialise h
  have hopen : ∃ farm, Booked (s, ⟨env.sequence, 0, 0, 0⟩) farm := by
    refine ⟨_, hs, rfl, ?_⟩
    have hdebts : debts s = 0 := by
      simp only [initialise, bind_eq_ok, pure_eq_ok] at h
      obtain ⟨_, -, _, -, _, -, rfl⟩ := h
      rfl
    simp [hdebts]
  refine throughout_mono (fun x hx => ?_)
    (throughout_of_along (fun x i y hx hi hy => booked_step hy hi.1 hi.2 hx) hopen
      (along_and.mpr ⟨along_onTime keepTotal_ledger horder, hattended⟩))
  obtain ⟨farm, hx⟩ := hx
  have hcredit := hx.credit
  have hnonneg := credit_nonneg hx.toAccruing
  omega

theorem paid_le_emitted_sample :
    Throughout (noted (step (bookToken Nat)) (keepTotal (bookToken Nat)))
      (fun x => x.2.paid ≤ x.2.due + x.2.changes) (sampleStorage, ⟨0, 0, 0, 0⟩)
      [.call (Env.signed 0 0) (.stake 2 1000), .call (Env.signed 0 3) (.claim 2)] := by
  have hopen : initialise (Env.signed 0 0) (.fresh sampleWorld) 1 10 100 = .ok sampleStorage := rfl
  refine paid_le_emitted hopen _ ?_ ?_
  · exact ⟨le_rfl, Nat.zero_le _, trivial⟩
  · refine ⟨fun _ _ hlt => absurd hlt (lt_irrefl 0), fun _ _ _ farm hfarm => ?_, trivial⟩
    cases hfarm
    decide

def crowdWorld : Nat → Nat → Nat := fun token a => if token = 10 ∧ a ≤ 4 then 5000 else 0

def crowdStorage : Storage Nat (Nat → Nat → Nat) :=
  { Storage.fresh crowdWorld with admin := some 1, farm := some ⟨10, 1, 0, 0, 0⟩ }

def crowdCalls : List (Input Nat (Nat → Nat → Nat) 0 (Call Nat)) :=
  [.call (Env.signed 0 0) (.stake 2 2), .call (Env.signed 0 1) (.stake 3 1),
    .call (Env.signed 0 1) (.stake 4 1), .call (Env.signed 0 1) (.claim 2),
    .call (Env.signed 0 3) (.claim 2), .call (Env.signed 0 3) (.claim 3),
    .call (Env.signed 0 3) (.claim 4)]

/-- Two users stake one unit each while the accumulator stands at a half, and no
debt is written down for them. The farm emits one unit a ledger for three ledgers
and pays four. -/
theorem four_of_three_paid :
    initialise (Env.signed 0 0) (.fresh crowdWorld) 1 10 1 = .ok crowdStorage ∧
    InOrder 0 crowdCalls ∧
    Along (noted (step (bookToken Nat)) (keepTotal (bookToken Nat))) Attended
      (crowdStorage, ⟨0, 0, 0, 0⟩) crowdCalls ∧
    ¬ Throughout (noted (step (bookToken Nat)) (keepTotal (bookToken Nat)))
      (fun x => x.2.paid ≤ x.2.due) (crowdStorage, ⟨0, 0, 0, 0⟩) crowdCalls := by
  refine ⟨rfl, ?_, ?_, fun h => ?_⟩
  · simp [InOrder, crowdCalls, Env.signed]
  · refine ⟨?_, ?_, ?_, ?_, ?_, ?_, ?_, trivial⟩ <;> intro _ _ hlt farm hfarm <;>
      cases hfarm <;> first | decide | exact absurd hlt (by decide)
  · have hpaid := throughout_run h
    revert hpaid
    decide

end Suban.LiquidityMining.Emission

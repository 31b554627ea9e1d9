import Suban.Basis.Twins
import Suban.LiquidityMining.Emission

namespace Suban.LiquidityMining.Touches

open Suban.Basis.Calls Suban.Basis.Runs Suban.Basis.Twins Suban.Basis.Accumulators
open Suban.Soroban.Host Suban.Soroban.Ledgers Suban.LiquidityMining.Contract
open Suban.LiquidityMining.Steps Suban.LiquidityMining.Principal Suban.LiquidityMining.Rewards
open Suban.LiquidityMining.Emission

variable {Address W : Type} [DecidableEq Address] {contract : Address}
variable {T : Sep41 Address W} {env : Env Address contract} {c : Call Address}
variable {x x' y y' : Storage Address W × Account} {f f' g g' : FarmInfo Address} {user : Address}

abbrev accounted (T : Sep41 Address W) (user : Address) (x : Storage Address W × Account)
    (i : Input Address W contract (Call Address)) :=
  noted (step T) (keepAccount T user) x i

/-- A call that accrues and moves no stake. -/
def Touch (x : Storage Address W × Account) : Input Address W contract (Call Address) → Prop
  | .call _ (.setRewardPerLedger _ rate) => ∀ farm, x.1.farm = some farm →
      farm.rewardPerLedger = rate
  | .call _ (.stake _ _) => False
  | .call _ (.unstake _ _) => False
  | .call _ (.claim _) => True
  | .world _ => True

/-- What one more accrual can take from a stake, the accumulator being rounded
down by less than one. -/
def lost (amount : Int) : Int := (amount + 999999) / 1000000

/-- How often the user's stake was paid out by calls of both runs, and what the
calls that only one of them made can have taken from it. -/
structure Tally where
  payouts : Nat
  lostFirst : Int
  lostSecond : Int

abbrev Pair (Address W : Type) [DecidableEq Address] :=
  (Storage Address W × Account) × (Storage Address W × Account)

def tally (user : Address) (a : Tally) : Pair Address W ×
    Move (Input Address W contract (Call Address)) × Pair Address W → Tally
  | (z, .both (.call _ c), _) => { a with
      payouts := a.payouts +
        if caller c = some user ∧ 0 < (z.1.1.readStake user).amount then 1 else 0 }
  | (z, .first (.call _ _), _) => { a with
      lostFirst := a.lostFirst + lost (z.1.1.readStake user).amount }
  | (z, .second (.call _ _), _) => { a with
      lostSecond := a.lostSecond + lost (z.2.1.readStake user).amount }
  | (_, .both (.world _), _) => a
  | (_, .first (.world _), _) => a
  | (_, .second (.world _), _) => a

/-- By no ledger from now on can the user have collected more in the first run
than in the second one and so much more. -/
def CollectsUpTo (contract user : Address) (x y : Storage Address W × Account) (more : Int) :
    Prop :=
  ∀ (env : Env Address contract) p q, x.2.ledger ≤ env.sequence → y.2.ledger ≤ env.sequence →
    pendingRewards env x.1 user = .ok p → pendingRewards env y.1 user = .ok q →
    x.2.paid + p ≤ y.2.paid + q + more

/-- What the user has collected once the stake is settled at an accumulator. -/
def settled (user : Address) (x : Storage Address W × Account) (accumulated : Int) : Int :=
  x.2.paid + earned (x.1.readStake user) accumulated

def opened (env : Env Address contract) (s : Storage Address W) : Storage Address W × Account :=
  (s, ⟨env.sequence, 0, 0, 0⟩)

def tallied (T : Sep41 Address W) (user : Address) (x : Storage Address W × Account)
    (ms : List (Move (Input Address W contract (Call Address)))) : Tally :=
  (run (noted (twin (accounted T user)) (tally user)) ((x, x), ⟨0, 0, 0⟩) ms).2

structure Called (T : Sep41 Address W) (user : Address) (env : Env Address contract)
    (c : Call Address) (x x' : Storage Address W × Account) (f g : FarmInfo Address) : Prop where
  before : Accruing x.1 f
  after : Accruing x'.1 g
  brought : BroughtUp env.sequence f g
  moves : Moves T env x.1 x'.1 f g c
  ledger : x'.2.ledger = env.sequence
  paid : x'.2.paid = x.2.paid + if caller c = some user then payout T x.1 c x'.1 else 0

theorem called (h : accounted T user x (.call env c) = .ok x') (hx : Accruing x.1 f) :
    ∃ g, Called T user env c x x' f g := by
  obtain ⟨t, ht, rfl⟩ := noted_eq_ok.mp h
  obtain ⟨g, hg, hb, hm⟩ := accruing_invoke ht hx
  exact ⟨g, hx, hg, hb, hm, rfl, rfl⟩

theorem Called.own (h : Called T user env c x x' f g) (hc : caller c = some user) :
    (x'.1.readStake user).amount = (x.1.readStake user).amount + principal c ∧
      settled user x' (accumulatedAt f env.sequence) =
        settled user x (accumulatedAt f env.sequence) := by
  have hpaid := h.paid
  cases h.moves with
  | configure admin rate hrate hstake htotal hg => cases hc
  | settle v hcaller hamount hstake htotal hr hpay =>
    cases hcaller.symm.trans hc
    rw [if_pos hc, hpay] at hpaid
    have hread := readStake_insert hstake user
    rw [if_pos rfl] at hread
    rw [settled, settled, hread, hpaid]
    refine ⟨rfl, ?_⟩
    simp only [earned, sub_self, add_zero]

theorem Called.other (h : Called T user env c x x' f g) (hc : caller c ≠ some user) :
    x'.1.readStake user = x.1.readStake user ∧ x'.2.paid = x.2.paid := by
  have hpaid := h.paid
  rw [if_neg hc, add_zero] at hpaid
  refine ⟨?_, hpaid⟩
  cases h.moves with
  | configure admin rate hrate hstake htotal hg => simp only [Storage.readStake, hstake]
  | settle v hcaller hamount hstake htotal hr hpay =>
    have hv : user ≠ v := fun he => hc (he ▸ hcaller)
    rw [readStake_insert hstake, if_neg hv]

theorem Called.total (h : Called T user env c x x' f g) :
    g.totalStaked = f.totalStaked + principal c := by
  cases h.moves with
  | configure admin rate hrate hstake htotal hg => rw [htotal, principal, add_zero]
  | settle v hcaller hamount hstake htotal hr hpay => exact htotal

theorem Called.last (h : Called T user env c x x' f g) (hpast : f.lastLedger ≤ env.sequence) :
    g.lastLedger = if f.totalStaked = 0 then f.lastLedger else env.sequence := by
  rw [h.brought.last, max_eq_right hpast]

theorem Called.past (h : Called T user env c x x' f g) (hpast : f.lastLedger ≤ env.sequence) :
    g.lastLedger ≤ env.sequence := by
  rw [h.last hpast]
  split
  · exact hpast
  · exact le_rfl

theorem Called.later (h : Called T user env c x x' f g) (n : Nat) :
    accumulatedAt g n = accumulatedAt f env.sequence +
      growth 1000000 g.rewardPerLedger g.totalStaked (n - g.lastLedger) := by
  rw [accumulatedAt, h.brought.accumulated]

theorem Called.touch (h : Called T user env c x x' f g) (ht : Touch x (.call env c)) :
    g.totalStaked = f.totalStaked ∧ g.rewardPerLedger = f.rewardPerLedger ∧
      (x'.1.readStake user).amount = (x.1.readStake user).amount ∧
      ∀ a, settled user x' a = settled user x a := by
  have hzero : principal c = 0 := by
    cases c with
    | setRewardPerLedger admin rate => rfl
    | stake v n => cases ht
    | unstake v n => cases ht
    | claim v => rfl
  have hrate : g.rewardPerLedger = f.rewardPerLedger := by
    cases h.moves with
    | configure admin rate hrate hstake htotal hg => rw [hg, ht f h.before.stored]
    | settle v hcaller hamount hstake htotal hr hpay => exact hr
  refine ⟨by rw [h.total, hzero, add_zero], hrate, ?_⟩
  by_cases hc : caller c = some user
  · obtain ⟨hamount, hsettled⟩ := h.own hc
    rw [hzero, add_zero] at hamount
    refine ⟨hamount, fun a => ?_⟩
    simp only [settled, earned, hamount] at hsettled ⊢
    omega
  · obtain ⟨hread, hpaid⟩ := h.other hc
    exact ⟨by rw [hread], fun a => by rw [settled, settled, hread, hpaid]⟩

theorem Called.accumulated (h : Called T user env c x x' f g) (hpast : f.lastLedger ≤ env.sequence)
    (htotal : g.totalStaked = f.totalStaked) (hrate : g.rewardPerLedger = f.rewardPerLedger)
    {n : Nat} (hn : env.sequence ≤ n) :
    accumulatedAt g n ≤ accumulatedAt f n ∧ accumulatedAt f n ≤ accumulatedAt g n + 1 := by
  have hlast := h.last hpast
  have hacc := h.brought.accumulated
  by_cases hz : f.totalStaked = 0
  · simp only [accumulatedAt, htotal, hz, growth_no_total, add_zero] at hacc ⊢
    omega
  · rw [if_neg hz] at hlast
    have hsplit : n - f.lastLedger = (env.sequence - f.lastLedger) + (n - env.sequence) := by omega
    have hlow : growth 1000000 f.rewardPerLedger f.totalStaked (env.sequence - f.lastLedger) +
        growth 1000000 f.rewardPerLedger f.totalStaked (n - env.sequence) ≤ _ :=
      growth_add_le h.before.nonneg
    have hhigh : growth 1000000 f.rewardPerLedger f.totalStaked
        ((env.sequence - f.lastLedger) + (n - env.sequence)) ≤ _ := growth_le_add h.before.nonneg
    simp only [accumulatedAt, htotal, hrate, hlast, hsplit] at hacc ⊢
    omega

/-- The two runs stand at the same stakes and the same rate. -/
structure Alike (user : Address) (f g : FarmInfo Address) (x y : Storage Address W × Account) :
    Prop where
  first : Accruing x.1 f
  second : Accruing y.1 g
  amount : (x.1.readStake user).amount = (y.1.readStake user).amount
  total : f.totalStaked = g.totalStaked
  rate : f.rewardPerLedger = g.rewardPerLedger
  pastFirst : f.lastLedger ≤ x.2.ledger
  pastSecond : g.lastLedger ≤ y.2.ledger
  empty : f.totalStaked = 0 → f.lastLedger = g.lastLedger

/-- Since the accumulators `a` and `b` the first run has gained no more than `k`
on the second, which bounds what the user can have collected in it. -/
def Within (user : Address) (f g : FarmInfo Address) (x y : Storage Address W × Account)
    (bound : Int) : Prop :=
  ∃ a b k : Int, 0 ≤ k ∧
    settled user x a + k * lost (x.1.readStake user).amount ≤ settled user y b + bound ∧
    ∀ n, x.2.ledger ≤ n → y.2.ledger ≤ n → accumulatedAt f n - a ≤ accumulatedAt g n - b + k

theorem Alike.symm (h : Alike user f g x y) : Alike user g f y x :=
  ⟨h.second, h.first, h.amount.symm, h.total.symm, h.rate.symm, h.pastSecond, h.pastFirst,
    fun hz => (h.empty (h.total.trans hz)).symm⟩

theorem le_lost (amount : Int) : amount ≤ lost amount * 1000000 := by
  unfold lost
  omega

theorem Within.settled {bound : Int} (h : Within user f g x y bound) (hxy : Alike user f g x y)
    {n : Nat} (hx : x.2.ledger ≤ n) (hy : y.2.ledger ≤ n) :
    settled user x (accumulatedAt f n) ≤ settled user y (accumulatedAt g n) + bound +
      if 0 < (x.1.readStake user).amount then 1 else 0 := by
  obtain ⟨a, b, k, hk, hbound, hgain⟩ := h
  have hamount := (hxy.first.readStake user).1
  have hstep := gain_le (by decide) hamount hk (le_lost _) (hgain n hx hy)
  unfold Touches.settled earned at hbound ⊢
  rw [← hxy.amount] at hbound ⊢
  split
  next => omega
  next hz =>
    have hzero : (x.1.readStake user).amount = 0 := le_antisymm (not_lt.mp hz) hamount
    simp only [hzero, zero_mul, Int.zero_ediv] at hbound ⊢
    have hlost : k * lost 0 = 0 := mul_zero k
    omega

section Both

variable (hx : Called T user env c x x' f f') (hy : Called T user env c y y' g g')
variable (h : Alike user f g x y) (hxle : x.2.ledger ≤ env.sequence)
variable (hyle : y.2.ledger ≤ env.sequence)

include hx hy h hxle hyle

theorem last_both : f'.lastLedger = g'.lastLedger := by
  rw [hx.last (h.pastFirst.trans hxle), hy.last (h.pastSecond.trans hyle), ← h.total]
  split
  next hz => exact h.empty hz
  next => rfl

theorem alike_both : Alike user f' g' x' y' := by
  have hrate : f'.rewardPerLedger = g'.rewardPerLedger := by
    cases hx.moves with
    | configure admin rate hrate hstake htotal hf =>
      cases hy.moves with
      | configure _ _ _ _ _ hg => rw [hf, hg]
      | settle v hcaller => cases hcaller
    | settle v hcaller hamount hstake htotal hf hpay =>
      cases hy.moves with
      | configure => cases hcaller
      | settle w _ _ _ _ hg => rw [hf, hg, h.rate]
  refine ⟨hx.after, hy.after, ?_, by rw [hx.total, hy.total, h.total], hrate, ?_, ?_,
    fun _ => last_both hx hy h hxle hyle⟩
  · by_cases hc : caller c = some user
    · rw [(hx.own hc).1, (hy.own hc).1, h.amount]
    · rw [(hx.other hc).1, (hy.other hc).1, h.amount]
  · rw [hx.ledger]
    exact hx.past (h.pastFirst.trans hxle)
  · rw [hy.ledger]
    exact hy.past (h.pastSecond.trans hyle)

theorem accumulated_both (n : Nat) :
    accumulatedAt f' n - accumulatedAt f env.sequence =
      accumulatedAt g' n - accumulatedAt g env.sequence := by
  have h' := alike_both hx hy h hxle hyle
  rw [hx.later, hy.later, h'.total, h'.rate, last_both hx hy h hxle hyle]
  ring

theorem within_both {bound : Int} (hw : Within user f g x y bound) :
    Within user f' g' x' y'
      (bound + if caller c = some user ∧ 0 < (x.1.readStake user).amount then 1 else 0) := by
  have hgrow := accumulated_both hx hy h hxle hyle
  by_cases hc : caller c = some user
  · have hsettled := hw.settled h hxle hyle
    refine ⟨accumulatedAt f env.sequence, accumulatedAt g env.sequence, 0, le_rfl, ?_, ?_⟩
    · rw [(hx.own hc).2, (hy.own hc).2, zero_mul, add_zero, ← add_assoc]
      simpa only [hc, true_and] using hsettled
    · intro n _ _
      rw [hgrow n, add_zero]
  · obtain ⟨a, b, k, hk, hbound, hgain⟩ := hw
    obtain ⟨hreadx, hpaidx⟩ := hx.other hc
    obtain ⟨hready, hpaidy⟩ := hy.other hc
    refine ⟨a, b, k, hk, ?_, ?_⟩
    · rw [if_neg fun hand => hc hand.1, add_zero]
      simpa only [settled, hreadx, hpaidx, hready, hpaidy] using hbound
    · intro n _ _
      have hnow := hgain env.sequence hxle hyle
      have hlater := hgrow n
      omega

end Both

section Alone

variable (hx : Called T user env c x x' f f') (h : Alike user f g x y)
variable (ht : Touch x (.call env c)) (hle : x.2.ledger ≤ env.sequence)

include hx h ht hle

theorem alike_touch : Alike user f' g x' y := by
  obtain ⟨htotal, hrate, hamount, -⟩ := hx.touch ht
  refine ⟨hx.after, h.second, hamount.trans h.amount, htotal.trans h.total, hrate.trans h.rate,
    ?_, h.pastSecond, fun hz => ?_⟩
  · rw [hx.ledger]
    exact hx.past (h.pastFirst.trans hle)
  · rw [htotal] at hz
    rw [hx.last (h.pastFirst.trans hle), if_pos hz]
    exact h.empty hz

theorem within_touched {bound : Int} (hw : Within user f g x y bound) :
    Within user f' g x' y bound := by
  obtain ⟨htotal, hrate, hamount, hsettled⟩ := hx.touch ht
  obtain ⟨a, b, k, hk, hbound, hgain⟩ := hw
  refine ⟨a, b, k, hk, ?_, fun n hn hy => ?_⟩
  · rw [hsettled, hamount]
    exact hbound
  · rw [hx.ledger] at hn
    have hdrop := (hx.accumulated (h.pastFirst.trans hle) htotal hrate hn).1
    have hgap := hgain n (hle.trans hn) hy
    omega

theorem within_untouched {bound : Int} (hw : Within user g f y x bound) :
    Within user g f' y x' (bound + lost (x.1.readStake user).amount) := by
  obtain ⟨htotal, hrate, hamount, hsettled⟩ := hx.touch ht
  obtain ⟨a, b, k, hk, hbound, hgain⟩ := hw
  refine ⟨a, b, k + 1, by omega, ?_, fun n hy hn => ?_⟩
  · rw [hsettled, h.amount, add_one_mul]
    omega
  · rw [hx.ledger] at hn
    have hdrop := (hx.accumulated (h.pastFirst.trans hle) htotal hrate hn).2
    have hgap := hgain n hy (hle.trans hn)
    omega

end Alone

/-- The two runs are alike, and neither has fallen behind by more than the tally
accounts for. -/
def Compared (user : Address) (z : Pair Address W × Tally) : Prop :=
  ∃ f g, Alike user f g z.1.1 z.1.2 ∧
    Within user f g z.1.1 z.1.2 (z.2.payouts + z.2.lostSecond) ∧
    Within user g f z.1.2 z.1.1 (z.2.payouts + z.2.lostFirst)

theorem Within.mono {bound bound' : Int} (h : Within user f g x y bound) (hle : bound ≤ bound') :
    Within user f g x y bound' := by
  obtain ⟨a, b, k, hk, hbound, hgain⟩ := h
  exact ⟨a, b, k, hk, hbound.trans (add_le_add_right hle _), hgain⟩

theorem compared_both {z : Pair Address W × Tally} {u : Pair Address W}
    (hx : accounted T user z.1.1 (.call env c) = .ok u.1)
    (hy : accounted T user z.1.2 (.call env c) = .ok u.2) (hxle : z.1.1.2.ledger ≤ env.sequence)
    (hyle : z.1.2.2.ledger ≤ env.sequence) (hz : Compared user z) :
    Compared user (u, tally user z.2 (z.1, .both (.call env c), u)) := by
  obtain ⟨f, g, h, hfirst, hsecond⟩ := hz
  obtain ⟨f', hx⟩ := called hx h.first
  obtain ⟨g', hy⟩ := called hy h.second
  have hf := within_both hx hy h hxle hyle hfirst
  have hg := within_both hy hx h.symm hyle hxle hsecond
  rw [← h.amount] at hg
  refine ⟨f', g', alike_both hx hy h hxle hyle, hf.mono ?_, hg.mono ?_⟩ <;>
    simp only [tally] <;> split <;> omega

theorem compared_first {z : Pair Address W × Tally} {u : Storage Address W × Account}
    (hx : accounted T user z.1.1 (.call env c) = .ok u) (ht : Touch z.1.1 (.call env c))
    (hle : z.1.1.2.ledger ≤ env.sequence) (hz : Compared user z) :
    Compared user ((u, z.1.2), tally user z.2 (z.1, .first (.call env c), (u, z.1.2))) := by
  obtain ⟨f, g, h, hfirst, hsecond⟩ := hz
  obtain ⟨f', hx⟩ := called hx h.first
  refine ⟨f', g, alike_touch hx h ht hle, within_touched hx h ht hle hfirst, ?_⟩
  refine (within_untouched hx h ht hle hsecond).mono ?_
  simp only [tally]
  omega

theorem compared_second {z : Pair Address W × Tally} {u : Storage Address W × Account}
    (hy : accounted T user z.1.2 (.call env c) = .ok u) (ht : Touch z.1.2 (.call env c))
    (hle : z.1.2.2.ledger ≤ env.sequence) (hz : Compared user z) :
    Compared user ((z.1.1, u), tally user z.2 (z.1, .second (.call env c), (z.1.1, u))) := by
  obtain ⟨f, g, h, hfirst, hsecond⟩ := hz
  obtain ⟨g', hy⟩ := called hy h.second
  refine ⟨f, g', (alike_touch hy h.symm ht hle).symm, ?_, within_touched hy h.symm ht hle hsecond⟩
  refine (within_untouched hy h.symm ht hle hfirst).mono ?_
  simp only [tally]
  omega

theorem compared_world {z : Pair Address W × Tally} (hz : Compared user z) (v w : W) :
    Compared user ((({ z.1.1.1 with world := v }, z.1.1.2), ({ z.1.2.1 with world := w }, z.1.2.2)),
      z.2) := by
  obtain ⟨f, g, h, hfirst, hsecond⟩ := hz
  exact ⟨f, g, ⟨accruing_world h.first v, accruing_world h.second w, h.amount, h.total, h.rate,
    h.pastFirst, h.pastSecond, h.empty⟩, hfirst, hsecond⟩

theorem accounted_world {w : W}
    (h : accounted T user x (.world w : Input Address W contract (Call Address)) = .ok x') :
    ({ x.1 with world := w }, x.2) = x' := by
  obtain ⟨t, ht, rfl⟩ := noted_eq_ok.mp h
  cases pure_eq_ok.mp ht
  rfl

theorem compared_step {z z' : Pair Address W × Tally}
    {m : Move (Input Address W contract (Call Address))}
    (h : noted (twin (accounted T user)) (tally user) z m = .ok z')
    (htime : Each (fun x i => OnTime x.2.ledger i) z.1 m) (ht : Alone Touch z.1 m)
    (hz : Compared user z) : Compared user z' := by
  obtain ⟨⟨u, v⟩, hu, rfl⟩ := noted_eq_ok.mp h
  cases m with
  | both i =>
    obtain ⟨hx, hy⟩ := twin_both.mp hu
    cases i with
    | call env c => exact compared_both hx hy htime.1 htime.2 hz
    | world w =>
      cases accounted_world hx
      cases accounted_world hy
      exact compared_world hz w w
  | first i =>
    obtain ⟨hx, rfl⟩ := twin_first.mp hu
    cases i with
    | call env c => exact compared_first hx ht htime hz
    | world w =>
      cases accounted_world hx
      exact compared_world hz w _
  | second i =>
    obtain ⟨rfl, hy⟩ := twin_second.mp hu
    cases i with
    | call env c => exact compared_second hy ht htime hz
    | world w =>
      cases accounted_world hy
      exact compared_world hz _ w

theorem collectsUpTo_of_within {bound : Int} (h : Within user f g x y bound)
    (hxy : Alike user f g x y) : CollectsUpTo contract user x y (bound + 1) := by
  intro env p q hx hy hp hq
  have hsettled := h.settled hxy hx hy
  rw [settled, settled, ← pendingRewards_ok hp hxy.first, ← pendingRewards_ok hq hxy.second]
    at hsettled
  split at hsettled <;> omega

theorem compared_open (hx : Accruing x.1 f) (hpast : f.lastLedger ≤ x.2.ledger) :
    Compared user ((x, x), ⟨0, 0, 0⟩) := by
  have hsame : Within user f f x x 0 :=
    ⟨0, 0, 0, le_rfl, by rw [zero_mul], fun _ _ _ => (add_zero _).ge⟩
  exact ⟨f, f, ⟨hx, hx, rfl, rfl, rfl, hpast, hpast, fun _ => rfl⟩, hsame, hsame⟩

theorem compared_run {ms : List (Move (Input Address W contract (Call Address)))}
    (hx : Accruing x.1 f) (hpast : f.lastLedger ≤ x.2.ledger)
    (hfirst : InOrder x.2.ledger (firsts ms)) (hsecond : InOrder x.2.ledger (seconds ms))
    (hmatched : Matched (accounted T user) (x, x) ms)
    (htouch : Along (twin (accounted T user)) (Alone Touch) (x, x) ms) :
    Compared user (run (noted (twin (accounted T user)) (tally user)) ((x, x), ⟨0, 0, 0⟩) ms) := by
  have htime : Along (twin (accounted T user)) (Each fun x i => OnTime x.2.ledger i) (x, x) ms :=
    along_twin hmatched (along_onTime keepAccount_ledger hfirst)
      (along_onTime keepAccount_ledger hsecond)
  have hvalid : Along (noted (twin (accounted T user)) (tally user))
      (fun z m => Each (fun x i => OnTime x.2.ledger i) z.1 m ∧ Alone Touch z.1 m)
      ((x, x), ⟨0, 0, 0⟩) ms := along_noted.mpr (along_and.mpr ⟨htime, htouch⟩)
  exact throughout_run (throughout_of_along
    (fun z m z' hz hm hz' => compared_step hz' hm.1 hm.2 hz) (compared_open hx hpast) hvalid)

/-- Two runs that differ in calls which only accrue let a user collect the same,
apart from one unit for each payout, the last one included, and what each such
call can take from the stake. -/
theorem collected_alike {s : Storage Address W} {w : W} {admin rewardToken : Address}
    {rewardPerLedger : Int}
    (h : initialise env (.fresh w) admin rewardToken rewardPerLedger = .ok s)
    (ms : List (Move (Input Address W contract (Call Address))))
    (hfirst : InOrder env.sequence (firsts ms)) (hsecond : InOrder env.sequence (seconds ms))
    (hmatched : Matched (accounted T user) (opened env s, opened env s) ms)
    (htouch : Along (twin (accounted T user)) (Alone Touch) (opened env s, opened env s) ms) :
    CollectsUpTo contract user (run (accounted T user) (opened env s) (firsts ms))
        (run (accounted T user) (opened env s) (seconds ms))
        ((tallied T user (opened env s) ms).payouts +
          (tallied T user (opened env s) ms).lostSecond + 1) ∧
      CollectsUpTo contract user (run (accounted T user) (opened env s) (seconds ms))
        (run (accounted T user) (opened env s) (firsts ms))
        ((tallied T user (opened env s) ms).payouts +
          (tallied T user (opened env s) ms).lostFirst + 1) := by
  have hruns : (run (noted (twin (accounted T user)) (tally user))
      ((opened env s, opened env s), ⟨0, 0, 0⟩) ms).1 =
      (run (accounted T user) (opened env s) (firsts ms),
        run (accounted T user) (opened env s) (seconds ms)) := by
    rw [run_noted, run_twin hmatched]
  have hs : Accruing (opened env s).1 _ := accruing_initialise h
  obtain ⟨f, g, halike, hf, hg⟩ := compared_run hs le_rfl hfirst hsecond hmatched htouch
  rw [hruns] at halike hf hg
  exact ⟨collectsUpTo_of_within hf halike, collectsUpTo_of_within hg halike.symm⟩

def calmMoves : List (Move (Input Nat (Nat → Nat → Nat) 0 (Call Nat))) :=
  [.both (.call (Env.signed 0 0) (.stake 2 1000)), .both (.call (Env.signed 0 0) (.stake 3 1000)),
    .second (.call (Env.signed 0 1) (.claim 3))]

theorem collected_alike_sample : CollectsUpTo 0 2
    (run (accounted (bookToken Nat) 2) (opened (Env.signed 0 0) sampleStorage) (firsts calmMoves))
    (run (accounted (bookToken Nat) 2) (opened (Env.signed 0 0) sampleStorage) (seconds calmMoves))
    2 := by
  have hopen : initialise (Env.signed 0 0) (.fresh sampleWorld) 1 10 100 = .ok sampleStorage := rfl
  have hfirst : InOrder 0 (firsts calmMoves) := ⟨le_rfl, le_rfl, trivial⟩
  have hsecond : InOrder 0 (seconds calmMoves) := ⟨le_rfl, le_rfl, Nat.zero_le _, trivial⟩
  have htally : tallied (bookToken Nat) 2 (opened (Env.signed 0 0) sampleStorage) calmMoves =
      ⟨0, 0, 1⟩ := rfl
  have hmatched : Matched (accounted (bookToken Nat) 2) (opened (Env.signed 0 0) sampleStorage,
      opened (Env.signed 0 0) sampleStorage) calmMoves := ⟨Iff.rfl, Iff.rfl, trivial, trivial⟩
  have hboth := collected_alike hopen calmMoves hfirst hsecond hmatched
    ⟨fun _ _ => trivial, fun _ _ => trivial, fun _ _ => trivial, trivial⟩
  rw [htally] at hboth
  exact hboth.1

def richWorld : Nat → Nat → Nat := fun token a => if token = 10 ∧ a ≤ 3 then 20000000 else 0

def richStorage : Storage Nat (Nat → Nat → Nat) :=
  { Storage.fresh richWorld with admin := some 1, farm := some ⟨10, 60, 0, 0, 0⟩ }

/-- Two users stake twenty million each, and in the second run one of them claims
a ledger later. -/
def touchedMoves : List (Move (Input Nat (Nat → Nat → Nat) 0 (Call Nat))) :=
  [.both (.call (Env.signed 0 0) (.stake 2 20000000)),
    .both (.call (Env.signed 0 0) (.stake 3 20000000)), .second (.call (Env.signed 0 1) (.claim 3))]

/-- At ledger two the other one can collect sixty in the first run and forty in
the second. -/
theorem touch_takes_twenty :
    initialise (Env.signed 0 0) (.fresh richWorld) 1 10 60 = .ok richStorage ∧
    InOrder 0 (firsts touchedMoves) ∧ InOrder 0 (seconds touchedMoves) ∧
    Matched (accounted (bookToken Nat) 2) (opened (Env.signed 0 0) richStorage,
      opened (Env.signed 0 0) richStorage) touchedMoves ∧
    Along (twin (accounted (bookToken Nat) 2)) (Alone Touch) (opened (Env.signed 0 0) richStorage,
      opened (Env.signed 0 0) richStorage) touchedMoves ∧
    ¬ CollectsUpTo 0 2
      (run (accounted (bookToken Nat) 2) (opened (Env.signed 0 0) richStorage)
        (firsts touchedMoves))
      (run (accounted (bookToken Nat) 2) (opened (Env.signed 0 0) richStorage)
        (seconds touchedMoves))
      ((tallied (bookToken Nat) 2 (opened (Env.signed 0 0) richStorage) touchedMoves).payouts +
        1) := by
  refine ⟨rfl, ⟨le_rfl, le_rfl, trivial⟩, ⟨le_rfl, le_rfl, Nat.zero_le _, trivial⟩,
    ⟨Iff.rfl, Iff.rfl, trivial, trivial⟩,
    ⟨fun _ _ => trivial, fun _ _ => trivial, fun _ _ => trivial, trivial⟩, fun h => ?_⟩
  have hlast := h (Env.signed 0 2) 60 40 (by decide) (by decide) rfl rfl
  revert hlast
  decide

end Suban.LiquidityMining.Touches

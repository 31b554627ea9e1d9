import Suban.NodeStaking.Solvency

namespace Suban.NodeStaking.Bookkeeping

open Suban.Basis.Calls Suban.Basis.Tables Suban.Basis.Runs Suban.Soroban.Host
open Suban.NodeStaking.Contract Suban.NodeStaking.Steps
open Suban.NodeStaking.Solvency (token_effect sampleWorld sampleStorage)

variable {Address W : Type} [DecidableEq Address] {contract token : Address}
variable {T : Sep41 Address W} {env : Env Address contract} {s t : Storage Address W}

/-- An operator is active exactly while its stake reaches the minimum. -/
structure SoundNode (minStake : Int) (node : NodeInfo Address) : Prop where
  staked_nonneg : 0 ≤ node.staked
  rewards_nonneg : 0 ≤ node.rewardsAccrued
  active_iff : node.active = true ↔ minStake ≤ node.staked

/-- The aggregates agree with the registered nodes. -/
structure Books (s : Storage Address W) : Prop where
  nodes : ∀ operator node, s.node.lookup operator = some node → SoundNode s.minStake node
  totalStaked : s.totalStaked = total NodeInfo.staked s.node
  totalNodes : s.totalNodes = size s.node
  rewardPool : 0 ≤ s.rewardPool

def stakeOf (s : Storage Address W) (operator : Address) : Int :=
  ((s.node.lookup operator).map NodeInfo.staked).getD 0

def stakeSlashed :
    Storage Address W × Input Address W contract (Call Address) × Storage Address W → Int
  | (s, .call _ (.slash _ operator _), t) => stakeOf s operator - stakeOf t operator
  | _ => 0

theorem rewardOf_nonneg {n : Int} (h : 0 ≤ n) : 0 ≤ rewardOf s n :=
  Int.tdiv_nonneg (mul_nonneg h (Int.natCast_nonneg _)) (by decide)

theorem add_node (hs : Books s) {operator : Address} {v : NodeInfo Address}
    (hl : s.node.lookup operator = none) (hv : SoundNode s.minStake v) :
    (∀ a node, (s.setNode operator v).node.lookup a = some node → SoundNode s.minStake node) ∧
      s.totalStaked + v.staked = total NodeInfo.staked (s.setNode operator v).node ∧
      s.totalNodes + 1 = size (s.setNode operator v).node := by
  refine ⟨forall_insert (Q := fun _ node => SoundNode s.minStake node) hv hs.nodes, ?_, ?_⟩
  · rw [Storage.setNode, total_insert, hl, hs.totalStaked]
    simp
  · rw [Storage.setNode, size_insert_new hl, hs.totalNodes]

theorem rewrite_node (hs : Books s) {operator : Address} {u v : NodeInfo Address} {n : Int}
    (hl : s.node.lookup operator = some u) (hv : SoundNode s.minStake v)
    (hn : s.totalStaked - u.staked + v.staked = n) :
    (∀ a node, (s.setNode operator v).node.lookup a = some node → SoundNode s.minStake node) ∧
      n = total NodeInfo.staked (s.setNode operator v).node ∧
      s.totalNodes = size (s.setNode operator v).node := by
  refine ⟨forall_insert (Q := fun _ node => SoundNode s.minStake node) hv hs.nodes, ?_, ?_⟩
  · rw [Storage.setNode, total_insert, hl, ← hn, hs.totalStaked]
    rfl
  · rw [Storage.setNode, size_insert_old hl, hs.totalNodes]

/-- The amounts that a call does not check itself are those of a transfer that
the token has carried out. -/
theorem books_effect {c : Call Address} (h : Effect T env s token c t) (hs : Books s) :
    Books t := by
  have hpool := hs.rewardPool
  cases h with
  | registerNode operator n w ho hl hmin hw =>
    have hn := (T.transfer_covered hw).1
    obtain ⟨hnodes, htotal, hsize⟩ := add_node hs
      (v := ⟨operator, n, rewardOf s n, true, env.timestamp⟩) hl
      ⟨hn, rewardOf_nonneg hn, iff_of_true rfl hmin⟩
    exact ⟨hnodes, htotal, hsize, hpool⟩
  | addStake operator n node w ho hl ha hw =>
    have hn := (T.transfer_covered hw).1
    have hreward := rewardOf_nonneg (s := s) hn
    obtain ⟨hstaked, hrewards, hactive⟩ := hs.nodes operator node hl
    have hmin := hactive.mp ha
    obtain ⟨hnodes, htotal, hsize⟩ := rewrite_node hs (n := s.totalStaked + n)
      (v := { node with
        staked := node.staked + n
        rewardsAccrued := node.rewardsAccrued + rewardOf s n }) hl
      ⟨add_nonneg hstaked hn, add_nonneg hrewards hreward,
        iff_of_true ha (le_add_of_le_of_nonneg hmin hn)⟩ (by ring)
    exact ⟨hnodes, htotal, hsize, hpool⟩
  | unstake operator n node w ho hl hpos hle hw =>
    obtain ⟨hnodes, htotal, hsize⟩ := rewrite_node hs (n := s.totalStaked - n)
      (v := { node with
        staked := node.staked - n
        active := decide (s.minStake ≤ node.staked - n)
        rewardsAccrued := 0 }) hl
      ⟨sub_nonneg.mpr hle, le_refl 0, decide_eq_true_iff⟩ (by ring)
    exact ⟨hnodes, htotal, hsize, hpool⟩
  | noRewards operator node hl hr => exact hs
  | claimRewards operator n node w ho hl hr hn hw =>
    obtain ⟨hstaked, hrewards, hactive⟩ := hs.nodes operator node hl
    -- No more is paid than has accrued, and no more than the pool holds.
    have hpaid : n ≤ node.rewardsAccrued ∧ n ≤ s.rewardPool := by
      rw [hn]
      split <;> omega
    obtain ⟨hnodes, htotal, hsize⟩ := rewrite_node hs (n := s.totalStaked)
      (v := { node with rewardsAccrued := node.rewardsAccrued - n }) hl
      ⟨hstaked, sub_nonneg.mpr hpaid.1, hactive⟩ (by ring)
    exact ⟨hnodes, htotal, hsize, sub_nonneg.mpr hpaid.2⟩
  | distributeRewards admin n w ha hw =>
    have hn := (T.transfer_covered hw).1
    exact ⟨hs.nodes, hs.totalStaked, hs.totalNodes, add_nonneg hpool hn⟩
  | slash admin operator amount n node w ha hl hn hw =>
    obtain ⟨hstaked, hrewards, hactive⟩ := hs.nodes operator node hl
    have hle : n ≤ node.staked := hn ▸ min_le_right _ _
    obtain ⟨hnodes, htotal, hsize⟩ := rewrite_node hs (n := s.totalStaked - n)
      (v := { node with
        staked := node.staked - n
        active := decide (s.minStake ≤ node.staked - n) }) hl
      ⟨sub_nonneg.mpr hle, hrewards, decide_eq_true_iff⟩ (by ring)
    exact ⟨hnodes, htotal, hsize, hpool⟩

theorem minStake_effect {c : Call Address} (h : Effect T env s token c t) :
    t.minStake = s.minStake := by
  cases h <;> rfl

theorem slashedAmount_effect {c : Call Address} (h : Effect T env s token c t) :
    t.slashedAmount = s.slashedAmount + stakeSlashed (s, .call env c, t) := by
  cases h with
  | slash admin operator amount n node w ha hl hn hw =>
    change s.slashedAmount + n = s.slashedAmount + _
    simp only [stakeSlashed, stakeOf, Storage.publish, Storage.setNode, hl, AList.lookup_insert,
      Option.map_some, Option.getD_some]
    ring
  | registerNode | addStake | unstake | noRewards | claimRewards | distributeRewards =>
    exact (add_zero _).symm

def Kept (token : Address) (minStake : Int) (s : Storage Address W) : Prop :=
  s.token = some token ∧ s.minStake = minStake ∧ Books s

theorem kept_step {minStake : Int} {i : Input Address W contract (Call Address)}
    (hs : Kept token minStake s) (h : step T s i = .ok t) : Kept token minStake t := by
  obtain ⟨htoken, hmin, hbooks⟩ := hs
  cases i with
  | call env c =>
    have he := invoke_effect htoken h
    exact ⟨(token_effect he).trans htoken, (minStake_effect he).trans hmin,
      books_effect he hbooks⟩
  | world w =>
    cases pure_eq_ok.mp h
    exact ⟨htoken, hmin, ⟨hbooks.nodes, hbooks.totalStaked, hbooks.totalNodes,
      hbooks.rewardPool⟩⟩

theorem slashedAmount_step {minStake : Int} {i : Input Address W contract (Call Address)}
    (hs : Kept token minStake s) (h : step T s i = .ok t) :
    t.slashedAmount = s.slashedAmount + stakeSlashed (s, i, t) := by
  cases i with
  | call env c => exact slashedAmount_effect (invoke_effect hs.1 h)
  | world w =>
    cases pure_eq_ok.mp h
    exact (add_zero _).symm

theorem kept_initialise {env : Env Address contract} {w : W} {admin : Address} {minStake : Int}
    {rewardRateBps : Nat}
    (h : initialise env (.fresh w) admin token minStake rewardRateBps = .ok s) :
    Kept token minStake s ∧ s.slashedAmount = 0 := by
  simp only [initialise, bind_eq_ok, pure_eq_ok] at h
  obtain ⟨_, -, _, -, rfl⟩ := h
  refine ⟨⟨rfl, rfl, ⟨fun operator node hl => ?_, rfl, rfl, le_refl 0⟩⟩, rfl⟩
  cases hl

/-- In every state that the staking contract reaches, its aggregates are those
of its nodes, and the slashed amount is what slashing has taken from them. -/
theorem books_reachable {env : Env Address contract} {w : W} {admin : Address} {minStake : Int}
    {rewardRateBps : Nat}
    (h : initialise env (.fresh w) admin token minStake rewardRateBps = .ok s)
    (is : List (Input Address W contract (Call Address))) :
    (run (step T) s is).minStake = minStake ∧ Books (run (step T) s is) ∧
      (run (step T) s is).slashedAmount = ((history (step T) s is).map stakeSlashed).sum := by
  obtain ⟨hinit, hzero⟩ := kept_initialise h
  have hkept : Throughout (step T) (Kept token minStake) s is :=
    throughout_of_along (fun _ _ _ hs _ ht => kept_step hs ht) hinit (along_true s is)
  have hslashed := sum_history Storage.slashedAmount
    (fun _ _ _ hs ht => slashedAmount_step hs ht) hkept
  rw [hzero, zero_add] at hslashed
  obtain ⟨-, hmin, hbooks⟩ := throughout_run hkept
  exact ⟨hmin, hbooks, hslashed⟩

theorem books_reachable_sample :
    Books (run (step (bookToken Nat)) sampleStorage
      [.call (Env.signed 0 1) (.registerNode 2 2000),
        .call (Env.signed 0 2) (.addStake 2 (-5)), .call (Env.signed 0 3) (.slash 1 2 1500)]) ∧
    (run (step (bookToken Nat)) sampleStorage
      [.call (Env.signed 0 1) (.registerNode 2 2000),
        .call (Env.signed 0 2) (.addStake 2 (-5)),
        .call (Env.signed 0 3) (.slash 1 2 1500)]).slashedAmount = 1500 := by
  have hopen : initialise (Env.signed 0 0) (.fresh sampleWorld) 1 10 1000 50 =
      .ok sampleStorage := rfl
  exact ⟨(books_reachable hopen _).2.1, by decide⟩

end Suban.NodeStaking.Bookkeeping

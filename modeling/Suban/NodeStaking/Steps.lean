import Suban.NodeStaking.Contract

namespace Suban.NodeStaking.Steps

open Suban.Basis.Calls Suban.Basis.Tables Suban.Soroban.Host
open Suban.NodeStaking.Contract

variable {Address W : Type} [DecidableEq Address] {contract : Address}
variable {T : Sep41 Address W} {env : Env Address contract} {s t : Storage Address W}

def rewardOf (s : Storage Address W) (amount : Int) : Int :=
  (amount * s.rewardRateBps).tdiv 10000

inductive Effect (T : Sep41 Address W) (env : Env Address contract) (s : Storage Address W)
    (token : Address) : Call Address → Storage Address W → Prop where
  | registerNode (operator : Address) (n : Int) (w : W) (ho : operator ≠ contract)
      (hl : s.node.lookup operator = none) (hmin : s.minStake ≤ n)
      (hw : T.transfer s.world token operator contract n = some w) :
      Effect T env s token (.registerNode operator n)
        ({ s.setNode operator ⟨operator, n, rewardOf s n, true, env.timestamp⟩ with
          totalStaked := s.totalStaked + n
          totalNodes := s.totalNodes + 1
          world := w }.publish (.ndReg operator n))
  | addStake (operator : Address) (n : Int) (node : NodeInfo Address) (w : W)
      (ho : operator ≠ contract) (hl : s.node.lookup operator = some node)
      (ha : node.active = true) (hw : T.transfer s.world token operator contract n = some w) :
      Effect T env s token (.addStake operator n)
        { s.setNode operator { node with
            staked := node.staked + n
            rewardsAccrued := node.rewardsAccrued + rewardOf s n } with
          totalStaked := s.totalStaked + n
          world := w }
  | unstake (operator : Address) (n : Int) (node : NodeInfo Address) (w : W)
      (ho : operator ≠ contract) (hl : s.node.lookup operator = some node) (hpos : 0 < n)
      (hle : n ≤ node.staked)
      (hw : T.transfer s.world token contract operator (n + node.rewardsAccrued) = some w) :
      Effect T env s token (.unstake operator n)
        { (s.setNode operator { node with
            staked := node.staked - n
            active := decide (s.minStake ≤ node.staked - n)
            rewardsAccrued := 0 }).publish (.ndUnstke operator (n + node.rewardsAccrued)) with
          totalStaked := s.totalStaked - n
          world := w }
  | noRewards (operator : Address) (node : NodeInfo Address)
      (hl : s.node.lookup operator = some node) (hr : node.rewardsAccrued ≤ 0) :
      Effect T env s token (.claimRewards operator) s
  | claimRewards (operator : Address) (n : Int) (node : NodeInfo Address) (w : W)
      (ho : operator ≠ contract) (hl : s.node.lookup operator = some node)
      (hr : 0 < node.rewardsAccrued)
      (hn : n = if node.rewardsAccrued ≤ s.rewardPool then node.rewardsAccrued else s.rewardPool)
      (hw : T.transfer s.world token contract operator n = some w) :
      Effect T env s token (.claimRewards operator)
        ({ s.setNode operator { node with rewardsAccrued := node.rewardsAccrued - n } with
          rewardPool := s.rewardPool - n
          world := w }.publish (.ndClaim operator n))
  | distributeRewards (admin : Address) (n : Int) (w : W) (ha : admin ≠ contract)
      (hw : T.transfer s.world token admin contract n = some w) :
      Effect T env s token (.distributeRewards admin n)
        { s with rewardPool := s.rewardPool + n, world := w }
  | slash (admin operator : Address) (amount n : Int) (node : NodeInfo Address) (w : W)
      (ha : admin ≠ contract) (hl : s.node.lookup operator = some node)
      (hn : n = min amount node.staked)
      (hw : T.transfer s.world token contract admin n = some w) :
      Effect T env s token (.slash admin operator amount)
        ({ s.setNode operator { node with
            staked := node.staked - n
            active := decide (s.minStake ≤ node.staked - n) } with
          slashedAmount := s.slashedAmount + n
          totalStaked := s.totalStaked - n
          world := w }.publish (.ndSlash operator n))

theorem transfer_eq_ok {src dst : Address} {n : Int} :
    transfer T s src dst n = .ok t ↔ ∃ token, s.token = some token ∧
      ∃ w, T.transfer s.world token src dst n = some w ∧ { s with world := w } = t := by
  simp only [transfer, Storage.readToken, bind_eq_ok, unwrap_eq_ok, pure_eq_ok]

theorem rewardFor_eq_ok {n r : Int} (h : rewardFor s n = .ok r) : r = rewardOf s n := by
  simp only [rewardFor, bind_eq_ok, checked_eq_ok, checkedDiv_eq_ok] at h
  obtain ⟨_, ⟨-, rfl⟩, -, -, rfl⟩ := h
  rfl

theorem claimRewards_effect {token operator : Address} {n : Int} (htoken : s.token = some token)
    (h : claimRewards T env s operator = .ok (n, t)) :
    Effect T env s token (.claimRewards operator) t := by
  simp only [claimRewards, bind_eq_ok, requireAuth_eq_ok, Storage.getNode, okOr_eq_ok] at h
  obtain ⟨_, hauth, node, hl, h⟩ := h
  split at h
  next hr =>
    simp only [payRewards, bind_eq_ok, checked_eq_ok, transfer_eq_ok, pure_eq_ok,
      Prod.mk.injEq] at h
    obtain ⟨_, ⟨-, rfl⟩, _, ⟨-, rfl⟩, _, ⟨token', ht, w, hw, rfl⟩, -, rfl⟩ := h
    cases htoken.symm.trans ht
    exact .claimRewards operator _ node w (ne_self hauth) hl hr rfl hw
  next hr =>
    simp only [pure_eq_ok, Prod.mk.injEq] at h
    obtain ⟨-, rfl⟩ := h
    exact .noRewards operator node hl (not_lt.mp hr)

theorem invoke_effect {c : Call Address} {token : Address} (htoken : s.token = some token)
    (h : invoke T env s c = .ok t) : Effect T env s token c t := by
  cases c with
  | registerNode operator n =>
    simp only [invoke, registerNode, bind_eq_ok, requireAuth_eq_ok, rejectIf_eq_ok, checked_eq_ok,
      checkedUInt_eq_ok, transfer_eq_ok, pure_eq_ok] at h
    obtain ⟨_, hauth, _, hl, _, hmin, _, hr, _, ⟨-, rfl⟩, h⟩ := h
    obtain ⟨_, ⟨-, rfl⟩, h⟩ := h
    obtain ⟨_, ⟨token', ht, w, hw, rfl⟩, rfl⟩ := h
    cases htoken.symm.trans ht
    cases rewardFor_eq_ok hr
    exact .registerNode operator n w (ne_self hauth) (by simpa using hl) (not_lt.mp hmin) hw
  | addStake operator n =>
    simp only [invoke, addStake, bind_eq_ok, requireAuth_eq_ok, Storage.getNode, okOr_eq_ok,
      rejectIf_eq_ok, checked_eq_ok, transfer_eq_ok] at h
    obtain ⟨_, hauth, node, hl, _, ha, _, ⟨-, rfl⟩, h⟩ := h
    obtain ⟨_, hr, _, ⟨-, rfl⟩, h⟩ := h
    obtain ⟨_, ⟨-, rfl⟩, h⟩ := h
    obtain ⟨token', ht, w, hw, rfl⟩ := h
    cases htoken.symm.trans ht
    cases rewardFor_eq_ok hr
    exact .addStake operator n node w (ne_self hauth) hl (by simpa using ha) hw
  | unstake operator n =>
    simp only [invoke, unstake, bind_eq_ok, requireAuth_eq_ok, Storage.getNode, okOr_eq_ok,
      rejectIf_eq_ok, checked_eq_ok, transfer_eq_ok, pure_eq_ok] at h
    obtain ⟨_, h, rfl⟩ := h
    obtain ⟨_, hauth, node, hl, _, hpos, _, hle, _, ⟨-, rfl⟩, h⟩ := h
    obtain ⟨_, ⟨-, rfl⟩, h⟩ := h
    obtain ⟨_, ⟨-, rfl⟩, h⟩ := h
    obtain ⟨_, ⟨token', ht, w, hw, rfl⟩, rfl⟩ := h
    cases htoken.symm.trans ht
    exact .unstake operator n node w (ne_self hauth) hl (not_le.mp hpos) (not_lt.mp hle) hw
  | claimRewards operator =>
    simp only [invoke, bind_eq_ok, pure_eq_ok] at h
    obtain ⟨⟨_, _⟩, h, rfl⟩ := h
    exact claimRewards_effect htoken h
  | distributeRewards admin n =>
    simp only [invoke, distributeRewards, bind_eq_ok, requireAuth_eq_ok, checked_eq_ok,
      transfer_eq_ok] at h
    obtain ⟨_, -, _, -, _, hauth, _, ⟨-, rfl⟩, token', ht, w, hw, rfl⟩ := h
    cases htoken.symm.trans ht
    exact .distributeRewards admin n w (ne_self hauth) hw
  | slash admin operator amount =>
    simp only [invoke, slash, bind_eq_ok, requireAuth_eq_ok, Storage.getNode, okOr_eq_ok,
      checked_eq_ok, transfer_eq_ok, pure_eq_ok] at h
    obtain ⟨_, -, _, -, _, hauth, node, hl, _, ⟨-, rfl⟩, h⟩ := h
    obtain ⟨_, ⟨-, rfl⟩, h⟩ := h
    obtain ⟨_, ⟨-, rfl⟩, h⟩ := h
    obtain ⟨_, ⟨token', ht, w, hw, rfl⟩, rfl⟩ := h
    cases htoken.symm.trans ht
    exact .slash admin operator amount _ node w (ne_self hauth) hl rfl hw

end Suban.NodeStaking.Steps

import Suban.Basis.Runs
import Suban.NodeStaking.Steps

namespace Suban.NodeStaking.Solvency

open Suban.Basis.Calls Suban.Basis.Tables Suban.Basis.Runs Suban.Soroban.Host
open Suban.NodeStaking.Contract Suban.NodeStaking.Steps

variable {Address W : Type} [DecidableEq Address] {contract token : Address}
variable {T : Sep41 Address W} {env : Env Address contract} {s t : Storage Address W}

/-- The contract holds the stakes and the reward pool. -/
def Solvent (T : Sep41 Address W) (contract token : Address) (s : Storage Address W) : Prop :=
  s.totalStaked + s.rewardPool ≤ T.balance s.world token contract

/-- What the contract holds beyond the stakes and the reward pool. -/
def surplus (T : Sep41 Address W) (contract token : Address) (s : Storage Address W) : Int :=
  T.balance s.world token contract - s.totalStaked - s.rewardPool

def Undrained (T : Sep41 Address W) (token : Address) (s : Storage Address W) :
    Input Address W contract (Call Address) → Prop
  | .call _ _ => True
  | .world w => T.balance s.world token contract ≤ T.balance w token contract

/-- An operator that unstakes has no more rewards accrued than the surplus. -/
def RewardsCovered (T : Sep41 Address W) (token : Address) (s : Storage Address W) :
    Input Address W contract (Call Address) → Prop
  | .call _ (.unstake operator _) => ∀ node, s.node.lookup operator = some node →
      node.rewardsAccrued ≤ surplus T contract token s
  | _ => True

/-- Only an unstake changes the surplus: the rewards it pays are not taken from
the pool. -/
theorem solvent_effect {c : Call Address} (h : Effect T env s token c t)
    (hs : Solvent T contract token s) :
    Solvent T contract token t ↔ RewardsCovered T token s (.call env c) := by
  have hsurplus : s.totalStaked + s.rewardPool ≤ T.balance s.world token contract := hs
  cases h with
  | registerNode operator n w ho hl hmin hw =>
    have hin := T.balance_in hw ho
    refine iff_of_true ?_ trivial
    change s.totalStaked + n + s.rewardPool ≤ T.balance w token contract
    omega
  | addStake operator n node w ho hl ha hw =>
    have hin := T.balance_in hw ho
    refine iff_of_true ?_ trivial
    change s.totalStaked + n + s.rewardPool ≤ T.balance w token contract
    omega
  | unstake operator n node w ho hl hpos hle hw =>
    have hout := T.balance_out hw ho
    have hcovered : RewardsCovered T token s (.call env (.unstake operator n)) ↔
        node.rewardsAccrued ≤ surplus T contract token s := by
      simp only [RewardsCovered, hl, Option.some.injEq, forall_eq']
    rw [hcovered, surplus]
    change s.totalStaked - n + s.rewardPool ≤ T.balance w token contract ↔ _
    omega
  | noRewards operator node hl hr => exact iff_of_true hs trivial
  | claimRewards operator n node w ho hl hr hn hw =>
    have hout := T.balance_out hw ho
    refine iff_of_true ?_ trivial
    change s.totalStaked + (s.rewardPool - n) ≤ T.balance w token contract
    omega
  | distributeRewards admin n w ha hw =>
    have hin := T.balance_in hw ha
    refine iff_of_true ?_ trivial
    change s.totalStaked + (s.rewardPool + n) ≤ T.balance w token contract
    omega
  | slash admin operator amount n node w ha hl hn hw =>
    have hout := T.balance_out hw ha
    refine iff_of_true ?_ trivial
    change s.totalStaked - n + s.rewardPool ≤ T.balance w token contract
    omega

theorem token_effect {c : Call Address} (h : Effect T env s token c t) : t.token = s.token := by
  cases h <;> rfl

theorem solvent_step {i : Input Address W contract (Call Address)} (h : step T s i = .ok t)
    (htoken : s.token = some token) (hs : Solvent T contract token s)
    (hi : Undrained T token s i) :
    (Solvent T contract token t ↔ RewardsCovered T token s i) ∧ t.token = some token := by
  cases i with
  | call env c =>
    have he := invoke_effect htoken h
    exact ⟨solvent_effect he hs, (token_effect he).trans htoken⟩
  | world w =>
    cases pure_eq_ok.mp h
    exact ⟨iff_of_true (le_trans hs hi) trivial, htoken⟩

/-- The contract holds the stakes and the reward pool in every state of a run
exactly when every accepted unstake of the run finds its rewards in the
surplus. -/
theorem solvent_iff_rewardsCovered {env : Env Address contract} {w : W} {admin : Address}
    {minStake : Int} {rewardRateBps : Nat}
    (h : initialise env (.fresh w) admin token minStake rewardRateBps = .ok s)
    (is : List (Input Address W contract (Call Address)))
    (hkeep : Along (step T) (Undrained T token) s is) :
    Throughout (step T) (Solvent T contract token) s is ↔
      Along (step T) (RewardsCovered T token) s is := by
  simp only [initialise, bind_eq_ok, pure_eq_ok] at h
  obtain ⟨_, -, _, -, rfl⟩ := h
  refine throughout_iff_along (J := fun s => s.token = some token) (fun s i t hJ hs hi ht => ?_)
    rfl (T.balance_nonneg _ _ _) hkeep
  obtain ⟨hiff, htoken⟩ := solvent_step ht hJ hs hi
  exact ⟨hiff, fun _ => htoken⟩

def sampleWorld : Nat → Nat → Nat := fun token a =>
  if token = 10 ∧ (a = 1 ∨ a = 2) then 5000 else 0

def sampleStorage : Storage Nat (Nat → Nat → Nat) :=
  { Storage.fresh sampleWorld with admin := some 1, token := some 10, minStake := 1000 }

theorem solvent_iff_rewardsCovered_sample :
    Throughout (step (bookToken Nat)) (Solvent (bookToken Nat) 0 10) sampleStorage
      [.call (Env.signed 0 1) (.registerNode 2 2000),
        .call (Env.signed 0 2) (.distributeRewards 1 100),
        .call (Env.signed 0 3) (.claimRewards 2), .call (Env.signed 0 4) (.unstake 2 500)] := by
  have hopen : initialise (Env.signed 0 0) (.fresh sampleWorld) 1 10 1000 50 =
      .ok sampleStorage := rfl
  refine (solvent_iff_rewardsCovered hopen _ ?_).mpr ?_
  · simp [Along, Undrained]
  · refine ⟨fun _ _ => trivial, fun _ _ => trivial, fun _ _ => trivial, fun _ _ => ?_, trivial⟩
    intro node hl
    cases hl
    decide

/-- An operator takes back half its stake together with rewards that nobody has
funded. -/
theorem unstake_pays_from_principal :
    initialise (Env.signed 0 0) (.fresh sampleWorld) 1 10 1000 50 = .ok sampleStorage ∧
    ¬ Throughout (step (bookToken Nat)) (Solvent (bookToken Nat) 0 10) sampleStorage
      [.call (Env.signed 0 1) (.registerNode 2 2000),
        .call (Env.signed 0 2) (.unstake 2 1000)] := by
  refine ⟨rfl, fun h => ?_⟩
  have hsolvent := throughout_run h
  revert hsolvent
  unfold Solvent
  decide

end Suban.NodeStaking.Solvency

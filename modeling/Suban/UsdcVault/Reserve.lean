import Suban.UsdcVault.Custody

namespace Suban.UsdcVault.Reserve

open Suban.Basis.Calls Suban.Basis.Runs Suban.Soroban.Host Suban.UsdcVault.Contract
open Suban.UsdcVault.Transitions Suban.UsdcVault.Custody

variable {Address W : Type} [DecidableEq Address] {contract : Address}
variable {T : Sep41 Address W} {env : Env Address contract} {s t : Storage Address W}

def Reserved (T : Sep41 Address W) (contract : Address) (s : Storage Address W) : Prop :=
  s.reserveBalance ≤ vaultBalance T s contract

/-- A new minimum is held already, and others leave the vault with its minimum. -/
def Respects (T : Sep41 Address W) (s : Storage Address W) :
    Input Address W contract (Call Address) → Prop
  | .call _ (.setReserveMinimum _ reserveMinimum) => reserveMinimum ≤ vaultBalance T s contract
  | .world w => Reserved T contract { s with world := w }
  | _ => True

theorem reserved_after {recipient : Address} {amount : Int} {usdc : Address} {w : W}
    (h : PaysOut T contract s recipient amount usdc w) :
    s.reserveBalance ≤ T.balance w usdc contract := by
  have hreserve := h.reserved
  have hout : outflow contract recipient amount ≤ amount := outflow_le h.positive.le
  rw [h.balance, vaultBalance_of_token h.token]
  omega

theorem reserved_step_iff {i : Input Address W contract (Call Address)}
    (hs : Reserved T contract s) (h : step T s i = .ok t) :
    Reserved T contract t ↔ Respects T s i := by
  cases i with
  | world w =>
    cases pure_eq_ok.mp h
    exact Iff.rfl
  | call env c =>
    cases invoke_transition h with
    | initialise => exact iff_true_intro (T.balance_nonneg _ _ _)
    | deposit depositor amount usdc w hopen hpos hauth husdc hpay =>
      refine iff_true_intro ?_
      have hin := T.balance_in hpay (ne_self hauth)
      have hheld : s.reserveBalance ≤ T.balance s.world usdc contract := by
        rw [← vaultBalance_of_token husdc]
        exact hs
      simp only [Reserved, vaultBalance, Storage.publish, husdc]
      omega
    | release admin recipient amount usdc w hadmin hopen hpay
    | adminWithdraw admin destination amount usdc w hadmin hpay =>
      refine iff_true_intro ?_
      simpa only [Reserved, vaultBalance, Storage.publish, hpay.token] using reserved_after hpay
    | setReserveMinimum => exact Iff.rfl
    | setPaused | setAdmin => exact iff_true_intro hs

/-- Payments never cost the vault its reserve: it is held in every state of a run
exactly when no minimum is set above the balance and nobody else lowers the
balance below the minimum. -/
theorem reserved_throughout_iff (w : W) (is : List (Input Address W contract (Call Address))) :
    Throughout (step T) (Reserved T contract) (.fresh w) is ↔
      Along (step T) (Respects T) (.fresh w) is := by
  have hfresh : Reserved T contract (Storage.fresh w : Storage Address W) := le_refl (0 : Int)
  exact throughout_iff_along_self (E := fun _ _ => True)
    (fun u i v hu _ h => reserved_step_iff hu h) hfresh (along_true _ is)

def settings (s : Storage Address W) : Option Address × Option Address × Bool × Int :=
  (s.admin, s.usdcToken, s.paused, s.reserveBalance)

/-- A call that takes from the vault is a payment of the amount it names to
somebody else. It leaves the reserve minimum, and a paused vault makes no
release. -/
def Paid (T : Sep41 Address W) (s t : Storage Address W) :
    Input Address W contract (Call Address) → Prop
  | .call _ (.release _ recipient amount) =>
    recipient ≠ contract ∧ vaultBalance T t contract = vaultBalance T s contract - amount ∧
      Reserved T contract t ∧ s.paused = false
  | .call _ (.adminWithdraw _ destination amount) =>
    destination ≠ contract ∧ vaultBalance T t contract = vaultBalance T s contract - amount ∧
      Reserved T contract t
  | _ => False

/-- What the vault has of its own and what it does with it is decided by its
administrator, once it has one. -/
structure Ruled (T : Sep41 Address W) (x : Entry Address W contract) : Prop where
  governed : settings x.2.2 ≠ settings x.1 → x.1.admin = none ∨ ByAdmin x.1.admin x.2.1
  paid : vaultBalance T x.2.2 contract < vaultBalance T x.1 contract →
    (∃ w, x.2.1 = .world w) ∨ ByAdmin x.1.admin x.2.1 ∧ Paid T x.1 x.2.2 x.2.1

theorem byAdmin_of_governs {admin : Address} {c : Call Address} (h : Governs env s admin) :
    ByAdmin s.admin (.call env c : Input Address W contract (Call Address)) :=
  ⟨admin, h.stored, h.authorised⟩

theorem paid_of_lower {recipient : Address} {amount : Int} {usdc : Address} {w : W}
    (h : PaysOut T contract s recipient amount usdc w)
    (hlower : T.balance w usdc contract < vaultBalance T s contract) :
    recipient ≠ contract ∧ T.balance w usdc contract = vaultBalance T s contract - amount ∧
      s.reserveBalance ≤ T.balance w usdc contract := by
  have hout := h.balance
  have hne : recipient ≠ contract := by
    intro heq
    rw [outflow, if_pos heq] at hout
    omega
  rw [outflow, if_neg hne] at hout
  exact ⟨hne, hout, reserved_after h⟩

theorem ruled_step {i : Input Address W contract (Call Address)} (hs : Unopened s)
    (h : step T s i = .ok t) : Ruled T (s, i, t) := by
  cases i with
  | world w =>
    cases pure_eq_ok.mp h
    exact ⟨fun hne => absurd rfl hne, fun _ => .inl ⟨w, rfl⟩⟩
  | call env c =>
    cases invoke_transition h with
    | initialise admin usdcToken hnew hauth =>
      refine ⟨fun _ => .inl hnew, fun hlower => ?_⟩
      simp only [vaultBalance, (hs hnew).1] at hlower
      exact absurd hlower (not_lt.mpr (T.balance_nonneg _ _ _))
    | deposit depositor amount usdc w hopen hpos hauth husdc hpay =>
      refine ⟨fun hne => absurd rfl hne, fun hlower => ?_⟩
      have hin := T.balance_in hpay (ne_self hauth)
      simp only [vaultBalance, Storage.publish, husdc] at hlower
      omega
    | release admin recipient amount usdc w hadmin hopen hpay =>
      refine ⟨fun hne => absurd rfl hne, fun hlower => .inr ⟨byAdmin_of_governs hadmin, ?_⟩⟩
      have hbalance : vaultBalance T s contract = T.balance s.world usdc contract :=
        vaultBalance_of_token hpay.token
      simp only [Paid, Reserved, vaultBalance, Storage.publish, hpay.token] at hlower ⊢
      rw [← hbalance] at hlower ⊢
      obtain ⟨hne, hout, hreserve⟩ := paid_of_lower hpay hlower
      exact ⟨hne, hout, hreserve, hopen⟩
    | adminWithdraw admin destination amount usdc w hadmin hpay =>
      refine ⟨fun hne => absurd rfl hne, fun hlower => .inr ⟨byAdmin_of_governs hadmin, ?_⟩⟩
      have hbalance : vaultBalance T s contract = T.balance s.world usdc contract :=
        vaultBalance_of_token hpay.token
      simp only [Paid, Reserved, vaultBalance, Storage.publish, hpay.token] at hlower ⊢
      rw [← hbalance] at hlower ⊢
      exact paid_of_lower hpay hlower
    | setReserveMinimum _ _ hadmin | setPaused _ _ hadmin | setAdmin _ _ hadmin =>
      exact ⟨fun _ => .inr (byAdmin_of_governs hadmin), fun hlower => absurd hlower (lt_irrefl _)⟩

/-- Nobody but the administrator of the moment changes a setting of the vault,
and no call of anybody else takes from it. -/
theorem calls_ruled (w : W) (is : List (Input Address W contract (Call Address))) :
    (history (step T) (.fresh w) is).Forall (Ruled T) := by
  have hopen : Throughout (step T) Unopened (.fresh w) is :=
    throughout_of_along (fun _ _ _ hs _ h => unopened_step hs h)
      (fun _ => ⟨rfl, rfl, rfl, rfl⟩) (along_true _ is)
  rw [List.forall_iff_forall_mem]
  exact forall_history (fun _ _ _ hs h => ruled_step hs h) hopen

end Suban.UsdcVault.Reserve

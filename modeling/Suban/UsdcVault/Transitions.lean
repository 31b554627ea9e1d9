import Suban.UsdcVault.Contract

namespace Suban.UsdcVault.Transitions

open Suban.Basis.Calls Suban.Basis.Tables Suban.Soroban.Host Suban.UsdcVault.Contract

variable {Address W : Type} [DecidableEq Address] {contract : Address}
variable {T : Sep41 Address W} {env : Env Address contract} {s t : Storage Address W}

structure Governs (env : Env Address contract) (s : Storage Address W) (admin : Address) :
    Prop where
  stored : s.admin = some admin
  authorised : env.auths admin = true

structure PaysOut (T : Sep41 Address W) (contract : Address) (s : Storage Address W)
    (recipient : Address) (amount : Int) (usdc : Address) (w : W) : Prop where
  positive : 0 < amount
  token : s.usdcToken = some usdc
  held : amount ≤ T.balance s.world usdc contract
  reserved : s.reserveBalance ≤ T.balance s.world usdc contract - amount
  paid : T.transfer s.world usdc contract recipient amount = some w

inductive Transition (T : Sep41 Address W) (env : Env Address contract) (s : Storage Address W) :
    Call Address → Storage Address W → Prop where
  | initialise (admin usdcToken : Address) (hnew : s.admin = none)
      (hauth : env.auths admin = true) :
      Transition T env s (.initialise admin usdcToken)
        { s with
          admin := some admin
          usdcToken := some usdcToken
          paused := false
          totalDeposited := 0
          totalReleased := 0
          reserveBalance := 0 }
  | deposit (depositor : Address) (amount : Int) (usdc : Address) (w : W)
      (hopen : s.paused = false) (hpos : 0 < amount) (hauth : env.auths depositor = true)
      (husdc : s.usdcToken = some usdc)
      (hpay : T.transfer s.world usdc depositor contract amount = some w) :
      Transition T env s (.deposit depositor amount)
        ({ s with
          totalDeposited := s.totalDeposited + amount
          deposits := s.deposits.insert depositor (s.readUserDeposit depositor + amount)
          world := w }.publish (.deposit depositor amount))
  | release (admin recipient : Address) (amount : Int) (usdc : Address) (w : W)
      (hadmin : Governs env s admin) (hopen : s.paused = false)
      (hpay : PaysOut T contract s recipient amount usdc w) :
      Transition T env s (.release admin recipient amount)
        ({ s with
          totalReleased := s.totalReleased + amount
          world := w }.publish (.release recipient amount))
  | adminWithdraw (admin destination : Address) (amount : Int) (usdc : Address) (w : W)
      (hadmin : Governs env s admin) (hpay : PaysOut T contract s destination amount usdc w) :
      Transition T env s (.adminWithdraw admin destination amount)
        ({ s with world := w }.publish (.withdraw admin destination amount))
  | setReserveMinimum (admin : Address) (reserveMinimum : Int) (hadmin : Governs env s admin) :
      Transition T env s (.setReserveMinimum admin reserveMinimum)
        { s with reserveBalance := reserveMinimum }
  | setPaused (admin : Address) (paused : Bool) (hadmin : Governs env s admin) :
      Transition T env s (.setPaused admin paused) { s with paused := paused }
  | setAdmin (admin newAdmin : Address) (hadmin : Governs env s admin) :
      Transition T env s (.setAdmin admin newAdmin) { s with admin := some newAdmin }

theorem requireAdmin_eq_ok {admin : Address} {u : Unit} :
    requireAdmin env s admin = .ok u ↔ Governs env s admin := by
  simp only [requireAdmin, Storage.readAdmin, bind_eq_ok, unwrap_eq_ok, rejectIf_eq_ok,
    requireAuth_eq_ok, not_not]
  constructor
  · rintro ⟨_, hs, _, rfl, ha⟩
    exact ⟨hs, ha⟩
  · rintro ⟨hs, ha⟩
    exact ⟨admin, hs, (), rfl, ha⟩

theorem payOut_eq_ok {recipient : Address} {amount : Int} {w : W} :
    payOut T s contract recipient amount = .ok w ↔
      ∃ usdc, PaysOut T contract s recipient amount usdc w := by
  simp only [payOut, bind_eq_ok, rejectIf_eq_ok, okOr_eq_ok, unwrap_eq_ok, not_le, not_lt]
  constructor
  · rintro ⟨_, hpos, usdc, husdc, _, hheld, _, hreserve, hw⟩
    exact ⟨usdc, hpos, husdc, hheld, hreserve, hw⟩
  · rintro ⟨usdc, hpos, husdc, hheld, hreserve, hw⟩
    exact ⟨(), hpos, usdc, husdc, (), hheld, (), hreserve, hw⟩

theorem invoke_transition {c : Call Address} (h : invoke T env s c = .ok t) :
    Transition T env s c t := by
  cases c with
  | initialise admin usdcToken =>
    simp only [invoke, initialise, bind_eq_ok, panicIf_eq_ok, requireAuth_eq_ok, pure_eq_ok] at h
    obtain ⟨_, hnew, _, ha, rfl⟩ := h
    exact .initialise admin usdcToken (by simpa using hnew) ha
  | deposit depositor amount =>
    simp only [invoke, deposit, bind_eq_ok, rejectIf_eq_ok, requireAuth_eq_ok, okOr_eq_ok,
      unwrap_eq_ok, checked_eq_ok, pure_eq_ok, Bool.not_eq_true, not_le] at h
    obtain ⟨_, hopen, _, hpos, _, ha, usdc, husdc, w, hw, _, ⟨-, rfl⟩, _, ⟨-, rfl⟩, rfl⟩ := h
    exact .deposit depositor amount usdc w hopen hpos ha husdc hw
  | release admin recipient amount =>
    simp only [invoke, release, bind_eq_ok, rejectIf_eq_ok, requireAdmin_eq_ok, payOut_eq_ok,
      checked_eq_ok, pure_eq_ok, Bool.not_eq_true] at h
    obtain ⟨_, hadmin, _, hopen, w, ⟨usdc, hpay⟩, _, ⟨-, rfl⟩, rfl⟩ := h
    exact .release admin recipient amount usdc w hadmin hopen hpay
  | adminWithdraw admin destination amount =>
    simp only [invoke, adminWithdraw, bind_eq_ok, requireAdmin_eq_ok, payOut_eq_ok,
      pure_eq_ok] at h
    obtain ⟨_, hadmin, w, ⟨usdc, hpay⟩, rfl⟩ := h
    exact .adminWithdraw admin destination amount usdc w hadmin hpay
  | setReserveMinimum admin reserveMinimum =>
    simp only [invoke, setReserveMinimum, bind_eq_ok, requireAdmin_eq_ok, pure_eq_ok] at h
    obtain ⟨_, hadmin, rfl⟩ := h
    exact .setReserveMinimum admin reserveMinimum hadmin
  | setPaused admin paused =>
    simp only [invoke, setPaused, bind_eq_ok, requireAdmin_eq_ok, pure_eq_ok] at h
    obtain ⟨_, hadmin, rfl⟩ := h
    exact .setPaused admin paused hadmin
  | setAdmin admin newAdmin =>
    simp only [invoke, setAdmin, bind_eq_ok, requireAdmin_eq_ok, pure_eq_ok] at h
    obtain ⟨_, hadmin, rfl⟩ := h
    exact .setAdmin admin newAdmin hadmin

theorem vaultBalance_of_token {usdc : Address} (h : s.usdcToken = some usdc) :
    vaultBalance T s contract = T.balance s.world usdc contract := by
  simp [vaultBalance, h]

/-- What leaves the vault in a payment. A payment to the vault itself leaves it
where it is. -/
def outflow (contract recipient : Address) (amount : Int) : Int :=
  if recipient = contract then 0 else amount

theorem outflow_le {recipient : Address} {amount : Int} (h : 0 ≤ amount) :
    outflow contract recipient amount ≤ amount := by
  unfold outflow
  split
  · exact h
  · exact le_rfl

theorem PaysOut.balance {recipient : Address} {amount : Int} {usdc : Address} {w : W}
    (h : PaysOut T contract s recipient amount usdc w) :
    T.balance w usdc contract =
      vaultBalance T s contract - outflow contract recipient amount := by
  rw [vaultBalance_of_token h.token, T.balance_transfer h.paid, outflow]
  simp only [true_and, if_true]
  by_cases hself : recipient = contract
  · simp [hself]
  · simp [hself, Ne.symm hself]

end Suban.UsdcVault.Transitions

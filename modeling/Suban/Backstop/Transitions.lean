import Suban.Backstop.Contract

namespace Suban.Backstop.Transitions

open Suban.Basis.Calls Suban.Basis.Tables Suban.Soroban.Host Suban.Backstop.Contract

variable {Address W : Type} [DecidableEq Address] {contract : Address}
variable {T : Sep41 Address W} {env : Env Address contract} {s t : Storage Address W}

def ByUser (env : Env Address contract) (s : Storage Address W) (user : Address) : Prop :=
  s.paused = false ∧ env.auths user = true

def Pays (T : Sep41 Address W) (contract : Address) (s : Storage Address W) (src dst : Address)
    (amount : Int) (w : W) : Prop :=
  T.transfer s.world (backstopAsset contract s) src dst amount = some w

def redemption (s : Storage Address W) (shares : Int) : Int :=
  (shares * s.totalDeposits).tdiv s.totalShares

inductive Transition (T : Sep41 Address W) (env : Env Address contract) (s : Storage Address W) :
    Call Address → Storage Address W → Prop where
  | initialise (admin pool asset : Address) (target : Int) (claimDelay : Nat)
      (maxDeposit minDeposit : Int) (htarget : 0 < target) :
      Transition T env s (.initialise admin pool asset target claimDelay maxDeposit minDeposit)
        { s with
          poolAdmin := some admin
          poolAddress := some pool
          backstopAsset := some asset
          backstopTarget := target
          claimDelay := claimDelay
          maxDeposit := maxDeposit
          minDeposit := minDeposit
          backstopBalance := 0
          totalShares := 0
          totalDeposits := 0
          paused := false }
  | deposit (src : Address) (amount shares : Int) (w : W) (hpos : 0 < amount)
      (huser : ByUser env s src) (hmin : s.minDeposit ≤ amount) (hmax : amount ≤ s.maxDeposit)
      (hfirst : s.totalShares = 0 → shares = amount)
      (hlater : s.totalShares ≠ 0 → s.totalDeposits ≠ 0 ∧
        shares = (amount * s.totalShares).tdiv s.totalDeposits)
      (hpay : Pays T contract s src contract amount w) :
      Transition T env s (.deposit src amount)
        { s with
          depositorShares := s.depositorShares.insert src (s.sharesOf src + shares)
          depositors := s.depositors.insert src (s.depositOf src + amount)
          totalShares := s.totalShares + shares
          totalDeposits := s.totalDeposits + amount
          backstopBalance := s.backstopBalance + amount
          world := w }
  | withdraw (src : Address) (shares : Int) (w : W) (hpos : 0 < shares)
      (huser : ByUser env s src) (hshares : shares ≤ s.sharesOf src) (htotal : s.totalShares ≠ 0)
      (hpay : Pays T contract s contract src (redemption s shares) w) :
      Transition T env s (.withdraw src shares)
        { s with
          depositorShares := s.depositorShares.insert src (s.sharesOf src - shares)
          depositors := s.depositors.insert src (s.depositOf src - redemption s shares)
          totalShares := s.totalShares - shares
          totalDeposits := s.totalDeposits - redemption s shares
          world := w }
  | requestClaim (src : Address) (shares : Int) (hpos : 0 < shares) (huser : ByUser env s src) :
      Transition T env s (.requestClaim src shares)
        { s with claimRequests := s.claimRequests.insert src ⟨src, shares, env.sequence⟩ }
  | claim (src : Address) (shares payout : Int) (request : ClaimRequest Address) (w : W)
      (hpos : 0 < shares) (huser : ByUser env s src)
      (hrequest : s.claimRequests.lookup src = some request)
      (hdue : request.requestedAt + s.claimDelay ≤ env.sequence)
      (hshares : shares ≤ s.sharesOf src) (htotal : 0 < s.totalShares)
      (hpayout : payout = (shares * s.backstopBalance).tdiv s.totalShares) (hpaid : 0 < payout)
      (hpay : Pays T contract s contract src payout w) :
      Transition T env s (.claim src shares)
        { s with
          claimRequests := s.claimRequests.erase src
          depositorShares := s.depositorShares.insert src (s.sharesOf src - shares)
          totalShares := s.totalShares - shares
          totalDeposits := s.totalDeposits - payout
          backstopBalance := s.backstopBalance - payout
          world := w }
  | absorbBadDebt (pool : Address) (amount : Int) (w : W) (hpool : s.poolAddress = some pool)
      (hp : ByUser env s pool)
      (hpay : Pays T contract s contract pool (min s.backstopBalance amount) w) :
      Transition T env s (.absorbBadDebt amount)
        { s with
          backstopBalance := s.backstopBalance - min s.backstopBalance amount
          world := w }
  | setPaused (admin : Address) (paused : Bool) (hadmin : s.poolAdmin = some admin)
      (hauth : env.auths admin = true) :
      Transition T env s (.setPaused admin paused) { s with paused := paused }

theorem requireNotPaused_eq_ok {u : Unit} : requireNotPaused s = .ok u ↔ s.paused = false := by
  simp [requireNotPaused]

theorem transfer_eq_ok {src dst : Address} {amount : Int} :
    Contract.transfer T s contract src dst amount = .ok t ↔
      ∃ w, Pays T contract s src dst amount w ∧ { s with world := w } = t := by
  simp only [Contract.transfer, Pays, bind_eq_ok, unwrap_eq_ok, pure_eq_ok]

theorem sharesFor_ok {amount shares : Int} (h : sharesFor s amount = .ok shares) :
    (s.totalShares = 0 → shares = amount) ∧
      (s.totalShares ≠ 0 → s.totalDeposits ≠ 0 ∧
        shares = (amount * s.totalShares).tdiv s.totalDeposits) := by
  by_cases hz : s.totalShares = 0
  · rw [sharesFor, if_pos hz, pure_eq_ok] at h
    exact ⟨fun _ => h.symm, fun hne => absurd hz hne⟩
  · rw [sharesFor, if_neg hz] at h
    simp only [bind_eq_ok, checked_eq_ok, checkedDiv_eq_ok] at h
    obtain ⟨_, ⟨-, rfl⟩, hd, -, rfl⟩ := h
    exact ⟨fun he => absurd he hz, fun _ => ⟨hd, rfl⟩⟩

theorem payoutFor_ok {shares payout : Int} (h : payoutFor s shares = .ok payout)
    (hpaid : 0 < payout) :
    0 < s.totalShares ∧ payout = (shares * s.backstopBalance).tdiv s.totalShares := by
  by_cases hz : 0 < s.totalShares
  · rw [payoutFor, if_pos hz] at h
    simp only [bind_eq_ok, checked_eq_ok, checkedDiv_eq_ok] at h
    obtain ⟨_, ⟨-, rfl⟩, -, -, rfl⟩ := h
    exact ⟨hz, rfl⟩
  · rw [payoutFor, if_neg hz, pure_eq_ok] at h
    exact absurd h hpaid.ne

theorem deposit_transition {src : Address} {amount shares : Int}
    (h : deposit T env s src amount = .ok (shares, t)) :
    Transition T env s (.deposit src amount) t := by
  simp only [deposit, bind_eq_ok, rejectIf_eq_ok, requireNotPaused_eq_ok, requireAuth_eq_ok,
    checked_eq_ok, transfer_eq_ok, pure_eq_ok, Prod.mk.injEq, not_le, not_lt] at h
  obtain ⟨_, hpos, _, hp, _, ha, _, hmin, _, hmax, m, hm, _, ⟨-, rfl⟩, h⟩ := h
  obtain ⟨_, ⟨-, rfl⟩, h⟩ := h
  obtain ⟨_, ⟨-, rfl⟩, h⟩ := h
  obtain ⟨_, ⟨-, rfl⟩, h⟩ := h
  obtain ⟨_, ⟨-, rfl⟩, h⟩ := h
  obtain ⟨_, ⟨w, hw, rfl⟩, -, rfl⟩ := h
  obtain ⟨hfirst, hlater⟩ := sharesFor_ok hm
  exact .deposit src amount m w hpos ⟨hp, ha⟩ hmin hmax hfirst hlater hw

theorem withdraw_transition {src : Address} {shares amount : Int}
    (h : withdraw T env s src shares = .ok (amount, t)) :
    Transition T env s (.withdraw src shares) t := by
  simp only [withdraw, bind_eq_ok, rejectIf_eq_ok, requireNotPaused_eq_ok, requireAuth_eq_ok,
    checked_eq_ok, checkedDiv_eq_ok, transfer_eq_ok, pure_eq_ok, Prod.mk.injEq, not_le,
    not_lt] at h
  obtain ⟨_, hpos, _, hp, _, ha, _, hle, _, ⟨-, rfl⟩, h⟩ := h
  obtain ⟨_, ⟨hz, -, rfl⟩, h⟩ := h
  obtain ⟨_, ⟨-, rfl⟩, h⟩ := h
  obtain ⟨_, ⟨-, rfl⟩, h⟩ := h
  obtain ⟨_, ⟨-, rfl⟩, h⟩ := h
  obtain ⟨_, ⟨-, rfl⟩, h⟩ := h
  obtain ⟨_, ⟨w, hw, rfl⟩, -, rfl⟩ := h
  exact .withdraw src shares w hpos ⟨hp, ha⟩ hle hz hw

theorem claim_transition {src : Address} {shares payout : Int}
    (h : claim T env s src shares = .ok (payout, t)) :
    Transition T env s (.claim src shares) t := by
  simp only [claim, bind_eq_ok, rejectIf_eq_ok, requireNotPaused_eq_ok, requireAuth_eq_ok,
    okOr_eq_ok, checkedUInt_eq_ok, checked_eq_ok, transfer_eq_ok, pure_eq_ok, Prod.mk.injEq,
    not_le, not_lt] at h
  obtain ⟨_, hpos, _, hp, _, ha, request, hr, _, ⟨-, rfl⟩, h⟩ := h
  obtain ⟨_, hdue, _, hle, p, hpay, _, hpaid, _, ⟨-, rfl⟩, h⟩ := h
  obtain ⟨_, ⟨-, rfl⟩, h⟩ := h
  obtain ⟨_, ⟨-, rfl⟩, h⟩ := h
  obtain ⟨_, ⟨-, rfl⟩, h⟩ := h
  obtain ⟨_, ⟨w, hw, rfl⟩, -, rfl⟩ := h
  obtain ⟨htotal, heq⟩ := payoutFor_ok hpay hpaid
  exact .claim src shares p request w hpos ⟨hp, ha⟩ hr hdue hle htotal heq hpaid hw

theorem absorbBadDebt_transition {amount : Int} (h : absorbBadDebt T env s amount = .ok t) :
    Transition T env s (.absorbBadDebt amount) t := by
  have hcovered : (if s.backstopBalance < amount then s.backstopBalance else amount) =
      min s.backstopBalance amount := by
    split <;> omega
  simp only [absorbBadDebt, hcovered, bind_eq_ok, requireNotPaused_eq_ok, unwrap_eq_ok,
    requireAuth_eq_ok, checked_eq_ok, transfer_eq_ok] at h
  obtain ⟨_, hp, pool, hpool, _, ha, _, ⟨-, rfl⟩, w, hw, rfl⟩ := h
  exact .absorbBadDebt pool amount w hpool ⟨hp, ha⟩ hw

theorem invoke_transition {c : Call Address} (h : invoke T env s c = .ok t) :
    Transition T env s c t := by
  cases c with
  | initialise admin pool asset target claimDelay maxDeposit minDeposit =>
    simp only [invoke, initialise, bind_eq_ok, rejectIf_eq_ok, pure_eq_ok, not_le] at h
    obtain ⟨_, htarget, rfl⟩ := h
    exact .initialise admin pool asset target claimDelay maxDeposit minDeposit htarget
  | deposit src amount =>
    obtain ⟨⟨m, u⟩, h, hu⟩ := bind_eq_ok.mp h
    cases pure_eq_ok.mp hu
    exact deposit_transition h
  | withdraw src shares =>
    obtain ⟨⟨m, u⟩, h, hu⟩ := bind_eq_ok.mp h
    cases pure_eq_ok.mp hu
    exact withdraw_transition h
  | requestClaim src shares =>
    simp only [invoke, requestClaim, bind_eq_ok, rejectIf_eq_ok, requireNotPaused_eq_ok,
      requireAuth_eq_ok, pure_eq_ok, not_le] at h
    obtain ⟨_, hpos, _, hp, _, ha, rfl⟩ := h
    exact .requestClaim src shares hpos ⟨hp, ha⟩
  | claim src shares =>
    obtain ⟨⟨m, u⟩, h, hu⟩ := bind_eq_ok.mp h
    cases pure_eq_ok.mp hu
    exact claim_transition h
  | absorbBadDebt amount => exact absorbBadDebt_transition h
  | setPaused admin paused =>
    simp only [invoke, setPaused, bind_eq_ok, unwrap_eq_ok, rejectIf_eq_ok, requireAuth_eq_ok,
      pure_eq_ok, not_not] at h
    obtain ⟨_, hadmin, _, rfl, _, ha, rfl⟩ := h
    exact .setPaused _ paused hadmin ha

end Suban.Backstop.Transitions

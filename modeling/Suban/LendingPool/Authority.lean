import Suban.LendingPool.Steps
import Suban.Soroban.Host

namespace Suban.LendingPool.Authority

open Suban.Basis.Calls Suban.Basis.Runs Suban.Soroban.Host Suban.LendingPool.State
open Suban.LendingPool.Contract Suban.LendingPool.Steps

variable {Address W : Type} [DecidableEq Address] {contract : Address}
variable {M : Market Address W} {env : Env Address contract} {s t : Storage Address W}

structure Settings (Address : Type) where
  poolAdmin : Option Address
  collateralFactor : Int
  liquidationThreshold : Int
  liquidationBonus : Int
  interestRate : Int
  reserveFactor : Int
  poolPaused : Bool
  collateralAsset : Option Address
  collateralToken : Option Address
  priceOracle : Option Address
  oracleMaxAge : Nat

def settings (s : Storage Address W) : Settings Address where
  poolAdmin := s.poolAdmin
  collateralFactor := s.collateralFactor
  liquidationThreshold := s.liquidationThreshold
  liquidationBonus := s.liquidationBonus
  interestRate := s.interestRate
  reserveFactor := s.reserveFactor
  poolPaused := s.poolPaused
  collateralAsset := s.collateralAsset
  collateralToken := s.collateralToken
  priceOracle := s.priceOracle
  oracleMaxAge := s.oracleMaxAge

/-- The totals are set to zero, and no operation of a user is published that
would have brought them there. -/
def Reset (s t : Storage Address W) : Prop :=
  s.readPoolTotals ≠ ⟨0, 0, 0⟩ ∧ t.readPoolTotals = ⟨0, 0, 0⟩ ∧ t.events = s.events

def Governed (s t : Storage Address W) : Prop := settings t ≠ settings s ∨ Reset s t

/-- An initialisation states what is stored already, in a pool that is open and
whose totals are zero. -/
def Restates (s : Storage Address W) (admin : Address) (collateralFactor liquidationThreshold
    liquidationBonus interestRate reserveFactor : Int) : Prop :=
  settings s = { settings s with
    poolAdmin := some admin
    collateralFactor := collateralFactor
    liquidationThreshold := liquidationThreshold
    liquidationBonus := liquidationBonus
    interestRate := interestRate
    reserveFactor := reserveFactor
    poolPaused := false } ∧ s.readPoolTotals = ⟨0, 0, 0⟩

/-- The administrator authorised an initialisation, or it states what is stored
already. -/
def Ruled (s : Storage Address W) : Input Address W contract (Call Address) → Prop
  | .call env (.initialise admin cf lt lb ir rf) =>
    (∃ a, s.poolAdmin = some a ∧ env.auths a = true) ∨ Restates s admin cf lt lb ir rf
  | _ => True

def NeedsAdmin : Call Address → Prop
  | .setPaused _ _ | .updateConfig _ _ _ _ _ _ | .setCollateralAsset _ _
  | .setCollateralToken _ _ | .setPriceOracle _ _ _ | .clearPriceOracle _ => True
  | _ => False

def Initialises : Call Address → Prop
  | .initialise _ _ _ _ _ _ => True
  | _ => False

theorem requireAdmin_ok {admin : Address} {u : Unit} (h : requireAdmin env s admin = .ok u) :
    s.poolAdmin = some admin ∧ env.auths admin = true := by
  simp only [requireAdmin, bind_eq_ok, unwrap_eq_ok, rejectIf_eq_ok, requireAuth_eq_ok,
    not_not] at h
  obtain ⟨_, hadmin, _, rfl, hauth⟩ := h
  exact ⟨hadmin, hauth⟩

theorem authorised_of_needsAdmin {c : Call Address} (hc : NeedsAdmin c)
    (h : invoke M env s c = .ok t) : ∃ a, s.poolAdmin = some a ∧ env.auths a = true := by
  have hrequire : ∃ admin u, requireAdmin env s admin = .ok u := by
    cases c with
    | setPaused admin | updateConfig admin | setCollateralAsset admin | setCollateralToken admin
    | setPriceOracle admin | clearPriceOracle admin =>
      obtain ⟨u, hu, -⟩ := bind_eq_ok.mp h
      exact ⟨admin, u, hu⟩
    | _ => exact hc.elim
  obtain ⟨admin, u, hu⟩ := hrequire
  exact ⟨admin, requireAdmin_ok hu⟩

theorem not_governed_of_publish {e : Event Address} (hsettings : settings t = settings s)
    (hevents : t.events = s.events ++ [e]) : ¬ Governed s t := by
  rintro (hne | ⟨-, -, hsame⟩)
  · exact hne hsettings
  · simp [hevents] at hsame

theorem not_governed_of_same (hsettings : settings t = settings s)
    (htotals : t.readPoolTotals = s.readPoolTotals) : ¬ Governed s t := by
  rintro (hne | ⟨hne, hzero, -⟩)
  · exact hne hsettings
  · exact hne (htotals.symm.trans hzero)

theorem not_governed_of_user {c : Call Address} (h : Effect M env s c t)
    (hadmin : ¬ NeedsAdmin c) (hinit : ¬ Initialises c) : ¬ Governed s t := by
  cases h with
  | initialise => exact absurd trivial hinit
  | configure hc =>
    cases c with
    | setPaused | updateConfig | setPriceOracle | clearPriceOracle => exact absurd trivial hadmin
    | _ => exact hc.elim
  | setCollateralAsset | setCollateralToken => exact absurd trivial hadmin
  | upToDate => exact not_governed_of_same rfl rfl
  | _ => exact not_governed_of_publish rfl rfl

theorem reset_iff (hzero : t.readPoolTotals = ⟨0, 0, 0⟩) (hevents : t.events = s.events) :
    Reset s t ↔ s.readPoolTotals ≠ ⟨0, 0, 0⟩ :=
  ⟨fun h => h.1, fun h => ⟨h, hzero, hevents⟩⟩

theorem governed_initialise_iff {admin : Address} {cf lt lb ir rf : Int}
    (h : Effect M env s (.initialise admin cf lt lb ir rf) t) :
    Governed s t ↔ ¬ Restates s admin cf lt lb ir rf := by
  cases h with
  | configure hc => exact hc.elim
  | initialise =>
    rw [Restates, not_and_or]
    exact or_congr ne_comm (reset_iff rfl rfl)

/-- An accepted call that changes what is governed has the administrator's
authority, unless it is an initialisation that nobody was asked about. -/
theorem ruled_step {i : Input Address W contract (Call Address)} (h : step M s i = .ok t) :
    (Governed s t → ByAdmin s.poolAdmin i) ↔ Ruled s i := by
  cases i with
  | world w =>
    cases pure_eq_ok.mp h
    exact iff_of_true (fun hg => absurd hg (not_governed_of_same rfl rfl)) trivial
  | call env c =>
    have heffect : Effect M env s c t := invoke_effect h
    by_cases hadmin : NeedsAdmin c
    · have hauth := authorised_of_needsAdmin hadmin h
      cases c with
      | initialise => exact hadmin.elim
      | _ => exact iff_of_true (fun _ => hauth) trivial
    · cases c with
      | initialise admin cf lt lb ir rf =>
        rw [governed_initialise_iff heffect]
        exact or_iff_not_imp_right.symm
      | _ =>
        have hkeep := not_governed_of_user heffect hadmin id
        exact iff_of_true (fun hg => absurd hg hkeep) trivial

end Suban.LendingPool.Authority

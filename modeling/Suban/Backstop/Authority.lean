import Suban.Backstop.Transitions
import Suban.LendingPool.Authority

namespace Suban.Backstop.Authority

open Suban.Basis.Calls Suban.Basis.Tables Suban.Basis.Runs Suban.Soroban.Host
open Suban.Backstop.Contract Suban.Backstop.Transitions

variable {Address W : Type} [DecidableEq Address] {contract : Address}
variable {T : Sep41 Address W} {env : Env Address contract} {s t : Storage Address W}

/-- What the administrator of a backstop decides, his own place included. -/
structure Settings (Address : Type) where
  poolAdmin : Option Address
  poolAddress : Option Address
  backstopAsset : Option Address
  backstopTarget : Int
  claimDelay : Nat
  maxDeposit : Int
  minDeposit : Int
  paused : Bool

def settings (s : Storage Address W) : Settings Address where
  poolAdmin := s.poolAdmin
  poolAddress := s.poolAddress
  backstopAsset := s.backstopAsset
  backstopTarget := s.backstopTarget
  claimDelay := s.claimDelay
  maxDeposit := s.maxDeposit
  minDeposit := s.minDeposit
  paused := s.paused

def totals (s : Storage Address W) : Int × Int := (s.totalShares, s.totalDeposits)

/-- The totals are set to zero while all depositors keep their shares. -/
def Reset (s t : Storage Address W) : Prop :=
  totals s ≠ (0, 0) ∧ totals t = (0, 0) ∧ t.depositorShares = s.depositorShares

def Governed (s t : Storage Address W) : Prop := settings t ≠ settings s ∨ Reset s t

/-- An initialisation states what is stored already, in a module that is open
and whose totals are zero. -/
def Restates (s : Storage Address W) (admin pool asset : Address) (target : Int)
    (claimDelay : Nat) (maxDeposit minDeposit : Int) : Prop :=
  settings s = ⟨some admin, some pool, some asset, target, claimDelay, maxDeposit, minDeposit,
    false⟩ ∧ totals s = (0, 0)

/-- The administrator authorised an initialisation, or it states what is stored
already. -/
def Ruled (s : Storage Address W) : Input Address W contract (Call Address) → Prop
  | .call env (.initialise admin pool asset target claimDelay maxDeposit minDeposit) =>
    (∃ a, s.poolAdmin = some a ∧ env.auths a = true) ∨
      Restates s admin pool asset target claimDelay maxDeposit minDeposit
  | _ => True

def UserCall : Call Address → Prop
  | .initialise .. | .setPaused .. => False
  | _ => True

theorem not_governed_of_same (hsettings : settings t = settings s) (htotals : totals t = totals s) :
    ¬ Governed s t := by
  rintro (hne | ⟨hne, hzero, -⟩)
  · exact hne hsettings
  · exact hne (htotals.symm.trans hzero)

theorem not_governed_of_move {src : Address} {shares : Int} (hsettings : settings t = settings s)
    (htable : t.depositorShares = s.depositorShares.insert src (s.sharesOf src + shares))
    (htotal : t.totalShares = s.totalShares + shares)
    (hfirst : s.totalShares = 0 → shares ≠ 0) : ¬ Governed s t := by
  rintro (hne | ⟨-, hzero, hsame⟩)
  · exact hne hsettings
  · have hsrc : s.sharesOf src = s.sharesOf src + shares := by
      have hread := readOr_insert s.depositorShares src src (s.sharesOf src + shares) 0
      rw [← htable, hsame, if_pos rfl] at hread
      exact hread
    have hnone : t.totalShares = 0 := congrArg Prod.fst hzero
    exact hfirst (by omega) (by omega)

theorem reset_iff (hzero : totals t = (0, 0)) (htable : t.depositorShares = s.depositorShares) :
    Reset s t ↔ totals s ≠ (0, 0) :=
  ⟨fun h => h.1, fun h => ⟨h, hzero, htable⟩⟩

theorem governed_initialise_iff {admin pool asset : Address} {target : Int} {claimDelay : Nat}
    {maxDeposit minDeposit : Int}
    (h : Transition T env s
      (.initialise admin pool asset target claimDelay maxDeposit minDeposit) t) :
    Governed s t ↔ ¬ Restates s admin pool asset target claimDelay maxDeposit minDeposit := by
  cases h with
  | initialise =>
    rw [Restates, not_and_or]
    exact or_congr ne_comm (reset_iff rfl rfl)

theorem not_governed_of_user {c : Call Address} (h : Transition T env s c t) (hc : UserCall c) :
    ¬ Governed s t := by
  cases h with
  | deposit src amount shares w hpos huser hmin hmax hfirst =>
    exact not_governed_of_move rfl rfl rfl fun hz => hfirst hz ▸ hpos.ne'
  | withdraw src shares w hpos | claim src shares payout request w hpos =>
    exact not_governed_of_move rfl rfl rfl fun _ => neg_ne_zero.mpr hpos.ne'
  | requestClaim | absorbBadDebt => exact not_governed_of_same rfl rfl
  | initialise | setPaused => exact hc.elim

/-- An accepted call that changes what is governed has the administrator's
authority, unless it is an initialisation that nobody was asked about. -/
theorem ruled_step {i : Input Address W contract (Call Address)} (h : step T s i = .ok t) :
    (Governed s t → ByAdmin s.poolAdmin i) ↔ Ruled s i := by
  cases i with
  | world w =>
    cases pure_eq_ok.mp h
    exact iff_of_true (fun hg => absurd hg (not_governed_of_same rfl rfl)) trivial
  | call env c =>
    have htransition : Transition T env s c t := invoke_transition h
    cases c with
    | initialise =>
      rw [governed_initialise_iff htransition]
      exact or_iff_not_imp_right.symm
    | setPaused =>
      cases htransition with
      | setPaused admin paused hadmin hauth =>
        exact iff_of_true (fun _ => ⟨_, hadmin, hauth⟩) trivial
    | _ =>
      have hkeep := not_governed_of_user htransition trivial
      exact iff_of_true (fun hg => absurd hg hkeep) trivial

section Both

variable {V : Type} {poolContract : Address} {M : LendingPool.State.Market Address V}

/-- In every run of a pool and of a backstop, in particular from the state that
their initialisation leaves, nobody but the administrator changes the settings
or resets the totals exactly when every further initialisation is authorised by
him or states what is stored already. -/
theorem adminObeyed_iff_ruled (p : LendingPool.State.Storage Address V)
    (ps : List (Input Address V poolContract (LendingPool.Contract.Call Address)))
    (s : Storage Address W) (is : List (Input Address W contract (Call Address))) :
    (Along (LendingPool.Contract.step M)
        (Obeyed (LendingPool.Contract.step M) (fun u => u.poolAdmin)
          LendingPool.Authority.Governed) p ps ↔
      Along (LendingPool.Contract.step M) LendingPool.Authority.Ruled p ps) ∧
    (Along (step T) (Obeyed (step T) (fun u => u.poolAdmin) Governed) s is ↔
      Along (step T) Ruled s is) :=
  ⟨along_obeyed_iff (fun _ _ _ => LendingPool.Authority.ruled_step) p ps,
    along_obeyed_iff (fun _ _ _ => ruled_step) s is⟩

end Both

/-- An invocation that only the caller at address 3 has authorised. -/
def byStranger : Env Nat 0 := ⟨0, 0, fun a => decide (a = 3), by decide⟩

/-- Whoever initialises a pool or a backstop again is its administrator. -/
theorem stranger_takes_over :
    (∃ s : LendingPool.State.Storage Nat (Nat → Nat → Nat),
      LendingPool.Contract.initialise (Env.signed 0 0) (.fresh fun _ _ => 0) 1 7500 8500 500 500
        1000 = .ok s ∧
      ¬ Along (LendingPool.Contract.step (LendingPool.State.bookMarket Nat))
        (Obeyed (LendingPool.Contract.step (LendingPool.State.bookMarket Nat))
          (fun u => u.poolAdmin) LendingPool.Authority.Governed) s
        [.call byStranger (.initialise 3 7500 8500 500 500 1000)]) ∧
    ∃ s : Storage Nat (Nat → Nat → Nat),
      initialise (.fresh fun _ _ => 0) 1 2 9 1000000 100 100000 100 = .ok s ∧
      ¬ Along (step (bookToken Nat)) (Obeyed (step (bookToken Nat)) (fun u => u.poolAdmin) Governed)
        s [.call byStranger (.initialise 3 2 9 1000000 100 100000 100)] := by
  refine ⟨⟨_, rfl, fun h => ?_⟩, ⟨_, rfl, fun h => ?_⟩⟩
  · obtain ⟨a, ha, hauth⟩ := h.1 _ rfl _ rfl
      (.inl fun he => absurd (congrArg LendingPool.Authority.Settings.poolAdmin he) (by decide))
    cases ha
    exact absurd hauth (by decide)
  · obtain ⟨a, ha, hauth⟩ := h.1 _ rfl _ rfl
      (.inl fun he => absurd (congrArg Settings.poolAdmin he) (by decide))
    cases ha
    exact absurd hauth (by decide)

end Suban.Backstop.Authority

import Suban.LendingPool.Setup

namespace Suban.LendingPool.Custody

open Suban.Basis.Calls Suban.Basis.Tables Suban.Basis.Runs Suban.Soroban.Host
open Suban.LendingPool.State Suban.LendingPool.Contract Suban.LendingPool.Steps
open Suban.LendingPool.Setup

variable {Address W : Type} [DecidableEq Address] {contract token : Address} {opening : Int}
variable {M : Market Address W} {env : Env Address contract} {s t : Storage Address W}

/-- The collateral tokens that an event reports to have come in, less those it
reports to have gone out. -/
def received : Event Address → Int
  | .depCol _ n _ _ => n
  | .wdCol _ n _ _ => -n
  | .liquidate _ _ _ n _ _ => -n
  | _ => 0

def depositedBy (user : Address) : Event Address → Int
  | .depCol src n _ _ => if src = user then n else 0
  | _ => 0

def withdrawnBy (user : Address) : Event Address → Int
  | .wdCol src n _ _ => if src = user then n else 0
  | _ => 0

def seizedFrom (user : Address) : Event Address → Int
  | .liquidate _ borrower _ n _ _ => if borrower = user then n else 0
  | _ => 0

def flow (f : Event Address → Int) (s : Storage Address W) : Int := (s.events.map f).sum

/-- The recorded collateral is the collateral tokens the pool has taken and not
sent on, which it holds on top of what it started with. No user has withdrawn
more of them than were deposited for that user. -/
structure InCustody (M : Market Address W) (contract token : Address) (opening : Int)
    (s : Storage Address W) : Prop where
  recorded : sum s.userCollateral = flow received s
  held : sum s.userCollateral = M.balance s.world token contract - opening
  own : ∀ user, flow (withdrawnBy user) s ≤ flow (depositedBy user) s

structure Booked (M : Market Address W) (contract token : Address) (opening : Int)
    (s : Storage Address W) : Prop where
  asset : collateralToken contract s = token
  distinct : poolAsset contract s ≠ token
  held : flow received s = M.balance s.world token contract - opening
  credit : ∀ user, s.collateralOf user =
    flow (depositedBy user) s - flow (withdrawnBy user) s - flow (seizedFrom user) s
  seized : ∀ user, 0 ≤ flow (seizedFrom user) s
  nonneg : ∀ user, 0 ≤ s.collateralOf user

/-- The assets stay as they are configured, and nobody but the pool moves its
collateral tokens. -/
def Fixed (M : Market Address W) (token : Address) (s : Storage Address W) :
    Input Address W contract (Call Address) → Prop
  | .call _ (.setCollateralAsset _ _) | .call _ (.setCollateralToken _ _) => False
  | .call _ _ => True
  | .world w => M.balance w token contract = M.balance s.world token contract

/-- A pledge names the amount that is recorded already. -/
def PledgesNothingNew (s : Storage Address W) : Input Address W contract (Call Address) → Prop
  | .call _ (.setCollateral user n) => n = s.collateralOf user
  | _ => True

theorem flow_append {f : Event Address → Int} {e : Event Address}
    (h : t.events = s.events ++ [e]) : flow f t = flow f s + f e := by
  simp [flow, h]

def Silent : Event Address → Prop
  | .depCol _ _ _ _ | .wdCol _ _ _ _ | .liquidate _ _ _ _ _ _ => False
  | _ => True

theorem silent_zero {e : Event Address} (h : Silent e) : received e = 0 ∧
    ∀ v, depositedBy v e = 0 ∧ withdrawnBy v e = 0 ∧ seizedFrom v e = 0 := by
  cases e with
  | depCol | wdCol | liquidate => exact absurd h id
  | _ => exact ⟨rfl, fun _ => ⟨rfl, rfl, rfl⟩⟩

theorem flow_silent (h : t.events = s.events ∨ ∃ e, t.events = s.events ++ [e] ∧ Silent e) :
    flow received t = flow received s ∧ ∀ v, flow (depositedBy v) t = flow (depositedBy v) s ∧
      flow (withdrawnBy v) t = flow (withdrawnBy v) s ∧
      flow (seizedFrom v) t = flow (seizedFrom v) s := by
  obtain h | ⟨e, h, he⟩ := h
  · simp only [flow, h, true_and, implies_true]
  · obtain ⟨hr, hv⟩ := silent_zero he
    simp only [flow_append h, hr, hv, add_zero, and_self, implies_true]

theorem booked_move (user : Address) (d w z : Int) {e : Event Address}
    (h : Booked M contract token opening s) (hs : InCustody M contract token opening s)
    (ha : t.collateralAsset = s.collateralAsset) (ht : t.collateralToken = s.collateralToken)
    (hcol : t.userCollateral =
      s.userCollateral.insert user (s.collateralOf user + (d - w - z)))
    (hbal : M.balance t.world token contract = M.balance s.world token contract + (d - w - z))
    (he : t.events = s.events ++ [e]) (hr : received e = d - w - z)
    (hd : ∀ v, depositedBy v e = if user = v then d else 0)
    (hw : ∀ v, withdrawnBy v e = if user = v then w else 0)
    (hz : ∀ v, seizedFrom v e = if user = v then z else 0)
    (hz0 : 0 ≤ z) (hn : 0 ≤ s.collateralOf user + (d - w - z)) :
    Booked M contract token opening t ∧ InCustody M contract token opening t := by
  have hc (v) : t.collateralOf v = s.collateralOf v + if user = v then d - w - z else 0 := by
    rw [Storage.collateralOf, hcol, readOr_insert]
    by_cases hv : v = user
    · rw [if_pos hv, if_pos hv.symm, hv]
    · rw [if_neg hv, if_neg (Ne.symm hv), add_zero]
      rfl
  have hsum : sum t.userCollateral = sum s.userCollateral + (d - w - z) := by
    rw [hcol, sum_insert, Storage.collateralOf]
    ring
  have hbook : Booked M contract token opening t := by
    constructor
    · rw [← h.asset, collateralToken, collateralToken, poolAsset, poolAsset, ha, ht]
    · rw [poolAsset, ha]
      exact h.distinct
    · rw [flow_append he, hr, hbal, h.held]
      ring
    · intro v
      rw [hc, flow_append he, flow_append he, flow_append he, hd, hw, hz, h.credit]
      split <;> ring
    · intro v
      rw [flow_append he, hz]
      exact add_nonneg (h.seized v) (by split <;> omega)
    · intro v
      rw [hc]
      split
      next hv => rw [← hv]; exact hn
      next => simpa using h.nonneg v
  refine ⟨hbook, ?_, ?_, fun v => ?_⟩
  · rw [hsum, flow_append he, hr, hs.recorded]
  · rw [hsum, hbal, hs.held]
    ring
  · have hcredit := hbook.credit v
    have hpos := hbook.nonneg v
    have hseized := hbook.seized v
    omega

theorem booked_keep (h : Booked M contract token opening s)
    (hs : InCustody M contract token opening s)
    (ha : t.collateralAsset = s.collateralAsset) (ht : t.collateralToken = s.collateralToken)
    (hcol : t.userCollateral = s.userCollateral)
    (hbal : M.balance t.world token contract = M.balance s.world token contract)
    (he : t.events = s.events ∨ ∃ e, t.events = s.events ++ [e] ∧ Silent e) :
    Booked M contract token opening t ∧ InCustody M contract token opening t := by
  obtain ⟨hr, hv⟩ := flow_silent he
  have hd (v) := (hv v).1
  have hw (v) := (hv v).2.1
  have hz (v) := (hv v).2.2
  have hc (v) : t.collateralOf v = s.collateralOf v := by
    rw [Storage.collateralOf, Storage.collateralOf, hcol]
  refine ⟨⟨?_, ?_, ?_, ?_, ?_, ?_⟩, ?_, ?_, ?_⟩
  · rw [← h.asset, collateralToken, collateralToken, poolAsset, poolAsset, ha, ht]
  · rw [poolAsset, ha]
    exact h.distinct
  · rw [hr, hbal, h.held]
  · intro v; rw [hc, hd, hw, hz, h.credit]
  · intro v; rw [hz]; exact h.seized v
  · intro v; rw [hc]; exact h.nonneg v
  · rw [hcol, hr, hs.recorded]
  · rw [hcol, hbal, hs.held]
  · intro v; rw [hd, hw]; exact hs.own v

theorem booked_effect {c : Call Address} (h : Effect M env s c t)
    (hb : Booked M contract token opening s) (hs : InCustody M contract token opening s)
    (hf : Fixed M token s (.call env c)) (hc : PledgesNothingNew s (.call env c)) :
    Booked M contract token opening t ∧ InCustody M contract token opening t := by
  have hpool {w src dst n} (hw : M.transfer s.world (poolAsset contract s) src dst n = some w) :
      M.balance w token contract = M.balance s.world token contract :=
    M.balance_other hw hb.distinct.symm
  cases h with
  | initialise admin cf lt lb ir rf => exact booked_keep hb hs rfl rfl rfl rfl (.inl rfl)
  | deposit src n b w hpos hsrc hbt hw =>
    exact booked_keep hb hs rfl rfl rfl (hpool hw) (.inr ⟨_, rfl, trivial⟩)
  | withdraw src n u w hpos hsrc hz hu hle hh hw =>
    exact booked_keep hb hs rfl rfl rfl (hpool hw) (.inr ⟨_, rfl, trivial⟩)
  | borrow src n w hpos hsrc hle hh hw =>
    exact booked_keep hb hs rfl rfl rfl (hpool hw) (.inr ⟨_, rfl, trivial⟩)
  | repay src amount n w hpos hsrc hn hw =>
    exact booked_keep hb hs rfl rfl rfl (hpool hw) (.inr ⟨_, rfl, trivial⟩)
  | upToDate hz => exact ⟨hb, hs⟩
  | accrue n hn => exact booked_keep hb hs rfl rfl rfl rfl (.inr ⟨_, rfl, trivial⟩)
  | configure hconf ht =>
    exact booked_keep hb hs ht.collateralAsset ht.collateralToken ht.userCollateral
      (by rw [ht.world]) (.inl ht.events)
  | setCollateralAsset admin asset => exact absurd hf id
  | setCollateralToken admin asset => exact absurd hf id
  | setCollateral user n hle hh =>
    cases show n = s.collateralOf user from hc
    have hnew : s.collateralOf user = s.collateralOf user + (0 - 0 - 0) := by ring
    have hcol := congrArg (s.userCollateral.insert user) hnew
    have hbal : M.balance s.world token contract =
        M.balance s.world token contract + (0 - 0 - 0) := by ring
    refine booked_move user 0 0 0 hb hs rfl rfl hcol hbal rfl rfl ?_ ?_ ?_ ?_ ?_
    · simp [depositedBy]
    · simp [withdrawnBy]
    · simp [seizedFrom]
    · exact le_rfl
    · rw [← hnew]
      exact hb.nonneg user
  | liquidate liquidator borrower amount least n z v w hpos hsrc hn hz hle hv hw =>
    rw [hb.asset] at hw
    have hseize := (M.transfer_covered hw).1
    have hout := M.balance_out hw hsrc
    rw [hpool hv] at hout
    have hcol := congrArg (s.userCollateral.insert borrower)
      (show s.collateralOf borrower - z = s.collateralOf borrower + (0 - 0 - z) by ring)
    refine booked_move borrower 0 0 z hb hs rfl rfl hcol (hout.trans (by ring)) rfl
      ?_ ?_ ?_ ?_ ?_ ?_
    · simp [received]
    · simp [depositedBy]
    · simp [withdrawnBy]
    · exact fun _ => rfl
    · exact hseize
    · omega
  | depositCollateral src n w hpos hsrc hw =>
    rw [hb.asset] at hw
    have hin := M.balance_in hw hsrc
    have hnonneg := hb.nonneg src
    have hcol := congrArg (s.userCollateral.insert src)
      (show s.collateralOf src + n = s.collateralOf src + (n - 0 - 0) by ring)
    refine booked_move src n 0 0 hb hs rfl rfl hcol (hin.trans (by ring)) rfl
      ?_ ?_ ?_ ?_ ?_ ?_
    · simp [received]
    · exact fun _ => rfl
    · simp [withdrawnBy]
    · simp [seizedFrom]
    · exact le_rfl
    · omega
  | withdrawCollateral src n w hpos hsrc hle hh hw =>
    rw [hb.asset] at hw
    have hout := M.balance_out hw hsrc
    have hcol := congrArg (s.userCollateral.insert src)
      (show s.collateralOf src - n = s.collateralOf src + (0 - n - 0) by ring)
    refine booked_move src 0 n 0 hb hs rfl rfl hcol (hout.trans (by ring)) rfl
      ?_ ?_ ?_ ?_ ?_ ?_
    · simp [received]
    · simp [depositedBy]
    · exact fun _ => rfl
    · simp [seizedFrom]
    · exact le_rfl
    · omega

/-- A pledge of another amount changes the record while no tokens move. -/
theorem pledgesNothingNew_of_inCustody {c : Call Address} (h : Effect M env s c t)
    (hs : InCustody M contract token opening s) (ht : InCustody M contract token opening t) :
    PledgesNothingNew s (.call env c) := by
  cases h with
  | setCollateral user n hle hh =>
    have hsum := ht.held
    have hsame := hs.held
    have hrec : sum ((s.setCollateral user n).report user (.setCol user n)).userCollateral =
        sum s.userCollateral - s.collateralOf user + n := s.sum_setCollateral user n
    rw [hrec] at hsum
    have hworld : ((s.setCollateral user n).report user (.setCol user n)).world = s.world := rfl
    rw [hworld] at hsum
    show n = s.collateralOf user
    omega
  | @configure c _ hc _ =>
    cases c with
    | setCollateral => exact absurd hc id
    | _ => trivial
  | _ => trivial

theorem inCustody_step {i : Input Address W contract (Call Address)}
    (h : step M s i = .ok t) (hb : Booked M contract token opening s)
    (hs : InCustody M contract token opening s) (hf : Fixed M token s i) :
    (InCustody M contract token opening t ↔ PledgesNothingNew s i) ∧
      (InCustody M contract token opening t → Booked M contract token opening t) := by
  cases i with
  | call env c =>
    have he := invoke_effect h
    have hpledge : InCustody M contract token opening t → PledgesNothingNew s (.call env c) :=
      pledgesNothingNew_of_inCustody he hs
    exact ⟨⟨hpledge, fun hc => (booked_effect he hb hs hf hc).2⟩,
      fun ht => (booked_effect he hb hs hf (hpledge ht)).1⟩
  | world w =>
    cases pure_eq_ok.mp h
    obtain ⟨hb, hs⟩ := booked_keep (t := { s with world := w }) hb hs rfl rfl rfl hf (.inl rfl)
    exact ⟨iff_of_true hs trivial, fun _ => hb⟩

/-- After the pool is set up with a collateral token of its own, the recorded
collateral is in its custody in every state of a run exactly when no accepted
pledge of the run changes the amount that is recorded. -/
theorem inCustody_iff_pledgesNothingNew (w : W)
    {setup : List (Input Address W contract (Call Address))} (hsetup : ∀ i ∈ setup, IsSetup i)
    {s : Storage Address W} (hs : s = run (step M) (.fresh w) setup)
    (htoken : s.collateralToken = some token) (hne : token ≠ poolAsset contract s)
    (is : List (Input Address W contract (Call Address)))
    (hfixed : Along (step M) (Fixed M token) s is) :
    Throughout (step M) (InCustody M contract token (M.balance s.world token contract)) s is ↔
      Along (step M) PledgesNothingNew s is := by
  have hu : Unused s := hs ▸ unused_run hsetup (unused_fresh w)
  have hflow (f : Event Address → Int) : flow f s = 0 := by simp [flow, hu.events]
  have hcol (v : Address) : s.collateralOf v = 0 := by
    simp [Storage.collateralOf, hu.userCollateral]
  have hb : Booked M contract token (M.balance s.world token contract) s := by
    refine ⟨?_, hne.symm, ?_, fun v => ?_, fun v => ?_, fun v => ?_⟩
    · rw [collateralToken, htoken]; rfl
    · rw [hflow, sub_self]
    · simp [hflow, hcol]
    · rw [hflow]
    · rw [hcol]
  have hin : InCustody M contract token (M.balance s.world token contract) s := by
    refine ⟨?_, ?_, fun v => ?_⟩
    · rw [hflow, hu.userCollateral]; rfl
    · rw [sub_self, hu.userCollateral]; rfl
    · rw [hflow, hflow]
  exact throughout_iff_along (fun _ _ _ hb hs hf h => inCustody_step h hb hs hf) hb hin hfixed

theorem inCustody_iff_pledgesNothingNew_sample :
    Throughout (step (bookMarket Nat)) (InCustody (bookMarket Nat) 0 11 0)
      (run (step (bookMarket Nat)) (.fresh sampleWorld) samplePair)
      [.call (Env.signed 0 1) (.depositCollateral 2 300),
        .call (Env.signed 0 1) (.withdrawCollateral 2 100)] := by
  have hsetup : ∀ i ∈ samplePair, IsSetup i := by simp [samplePair, samplePool, IsSetup]
  refine (inCustody_iff_pledgesNothingNew sampleWorld hsetup rfl rfl (by decide) _ ?_).mpr ?_
  · simp [Along, Fixed]
  · simp [Along, PledgesNothingNew]

/-- A user who pledges its deposit is recorded as owning collateral tokens that
the pool does not hold. -/
theorem pledge_is_not_in_custody :
    (∀ i ∈ samplePair, IsSetup i) ∧
    (run (step (bookMarket Nat)) (.fresh sampleWorld) samplePair).collateralToken = some 11 ∧
    ¬ Throughout (step (bookMarket Nat)) (InCustody (bookMarket Nat) 0 11 0)
      (run (step (bookMarket Nat)) (.fresh sampleWorld) samplePair)
      [.call (Env.signed 0 1) (.deposit 2 1000),
        .call (Env.signed 0 1) (.setCollateral 2 1000)] := by
  refine ⟨by simp [samplePair, samplePool, IsSetup], rfl, fun h => ?_⟩
  have hheld := (throughout_run h).held
  revert hheld
  decide

end Suban.LendingPool.Custody

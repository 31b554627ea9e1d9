import Suban.Backstop.Transitions
import Suban.Basis.Division
import Suban.Basis.Runs

namespace Suban.Backstop.Accounting

open Suban.Basis.Calls Suban.Basis.Tables Suban.Basis.Runs Suban.Basis.Division Suban.Soroban.Host
open Suban.Backstop.Contract Suban.Backstop.Transitions

variable {Address W : Type} [DecidableEq Address] {contract : Address}
variable {T : Sep41 Address W} {env : Env Address contract} {s t : Storage Address W}

def held (T : Sep41 Address W) (contract : Address) (s : Storage Address W) : Int :=
  T.balance s.world (backstopAsset contract s) contract

def withdrawals (ws : List (Env Address contract × Address × Int)) :
    List (Input Address W contract (Call Address)) :=
  ws.map fun (env, src, shares) => .call env (.withdraw src shares)

/-- The module holds the balance on top of what it held when it was opened, the
deposits are within the balance, nobody's shares are worth more than their part
of it, and after any withdrawals what they are worth is there to be paid. -/
structure Accounted (T : Sep41 Address W) (contract : Address) (opening : Int)
    (s : Storage Address W) : Prop where
  balance : held T contract s = opening + s.backstopBalance
  deposits : s.totalDeposits ≤ s.backstopBalance
  proRata : ∀ a, redemption s (s.sharesOf a) ≤
    (s.sharesOf a * s.backstopBalance).tdiv s.totalShares
  redeemable : ∀ (ws : List (Env Address contract × Address × Int)) (a : Address),
    let u := run (step T) s (withdrawals ws)
    0 ≤ redemption u (u.sharesOf a) ∧ redemption u (u.sharesOf a) ≤ held T contract u

/-- The shares are those of the depositors, and the deposits are not negative. -/
structure Shared (s : Storage Address W) : Prop where
  nonneg : ∀ a, 0 ≤ s.sharesOf a
  sum : sum s.depositorShares = s.totalShares
  deposits : 0 ≤ s.totalDeposits

/-- The books before any loss: the deposits are the balance. -/
structure Sound (T : Sep41 Address W) (contract : Address) (opening : Int)
    (s : Storage Address W) : Prop where
  shared : Shared s
  balance : held T contract s = opening + s.backstopBalance
  deposits : s.totalDeposits = s.backstopBalance

/-- The module is initialised once, and nobody else moves its holding. -/
def Undisturbed (T : Sep41 Address W) (s : Storage Address W) :
    Input Address W contract (Call Address) → Prop
  | .call _ (.initialise ..) => False
  | .call _ _ => True
  | .world w => T.balance w (backstopAsset contract s) contract = held T contract s

/-- A withdrawal rounds down to nothing, and no bad debt is covered. -/
def Lossless (s : Storage Address W) : Input Address W contract (Call Address) → Prop
  | .call _ (.withdraw _ shares) => shares * s.totalDeposits < s.totalShares
  | .call _ (.absorbBadDebt amount) => amount = 0 ∨ s.backstopBalance = 0
  | _ => True

theorem Shared.le_total (h : Shared s) (a : Address) : s.sharesOf a ≤ s.totalShares :=
  h.sum ▸ le_sum s.depositorShares h.nonneg a

theorem Shared.total_nonneg (h : Shared s) : 0 ≤ s.totalShares :=
  h.sum ▸ sum_nonneg s.depositorShares h.nonneg

theorem Shared.redemption_bounds (h : Shared s) {shares : Int} (h0 : 0 ≤ shares)
    (hle : shares ≤ s.totalShares) :
    0 ≤ redemption s shares ∧ redemption s shares ≤ s.totalDeposits :=
  ⟨Int.tdiv_nonneg (mul_nonneg h0 h.deposits) h.total_nonneg,
    part_le h.total_nonneg h.deposits hle⟩

theorem Shared.move (h : Shared s) {src : Address} {shares : Int} (h0 : 0 ≤ s.sharesOf src + shares)
    (htable : t.depositorShares = s.depositorShares.insert src (s.sharesOf src + shares))
    (htotal : t.totalShares = s.totalShares + shares) (hd : 0 ≤ t.totalDeposits) : Shared t := by
  refine ⟨fun a => ?_, ?_, hd⟩
  · rw [Storage.sharesOf, htable]
    exact forall_readOr_insert h.nonneg src h0 a
  · rw [htable, sum_insert, h.sum, htotal, Storage.sharesOf]
    ring

theorem shares_nonneg (h : Shared s) {amount shares : Int} (hpos : 0 < amount)
    (hfirst : s.totalShares = 0 → shares = amount)
    (hlater : s.totalShares ≠ 0 → s.totalDeposits ≠ 0 ∧
      shares = (amount * s.totalShares).tdiv s.totalDeposits) : 0 ≤ shares := by
  by_cases hz : s.totalShares = 0
  · rw [hfirst hz]
    exact hpos.le
  · rw [(hlater hz).2]
    exact Int.tdiv_nonneg (mul_nonneg hpos.le h.total_nonneg) h.deposits

theorem Shared.redeem (h : Shared s) {src : Address} {shares paid : Int}
    (hle : shares ≤ s.sharesOf src) (hpaid : paid ≤ s.totalDeposits)
    (htable : t.depositorShares = s.depositorShares.insert src (s.sharesOf src - shares))
    (htotal : t.totalShares = s.totalShares - shares)
    (hd : t.totalDeposits = s.totalDeposits - paid) : Shared t := by
  rw [sub_eq_add_neg] at htable htotal
  exact h.move (by omega) htable htotal (by omega)

theorem Sound.move {opening : Int} (hs : Sound T contract opening s) (hshared : Shared t)
    (amount : Int) (hheld : held T contract t = held T contract s + amount)
    (hbalance : t.backstopBalance = s.backstopBalance + amount)
    (hdeposits : t.totalDeposits = s.totalDeposits + amount) : Sound T contract opening t := by
  refine ⟨hshared, ?_, ?_⟩
  · rw [hheld, hbalance, hs.balance, add_assoc]
  · rw [hdeposits, hbalance, hs.deposits]

theorem held_in {src : Address} {amount : Int} {w : W}
    (h : Pays T contract s src contract amount w) (ha : env.auths src = true) :
    T.balance w (backstopAsset contract s) contract = held T contract s + amount :=
  T.balance_in h (ne_self ha)

theorem held_out {dst : Address} {amount : Int} {w : W}
    (h : Pays T contract s contract dst amount w) (ha : env.auths dst = true) :
    T.balance w (backstopAsset contract s) contract = held T contract s - amount :=
  T.balance_out h (ne_self ha)

theorem sound_step {opening : Int} {i : Input Address W contract (Call Address)}
    (h : step T s i = .ok t) (hs : Sound T contract opening s) (hE : Undisturbed T s i)
    (hC : Lossless s i) : Sound T contract opening t := by
  have hshared := hs.shared
  cases i with
  | world w =>
    cases pure_eq_ok.mp h
    exact ⟨⟨hshared.nonneg, hshared.sum, hshared.deposits⟩, hE.trans hs.balance, hs.deposits⟩
  | call env c =>
    cases invoke_transition h with
    | initialise => exact hE.elim
    | deposit src amount shares w hpos huser hmin hmax hfirst hlater hpay =>
      have hshares := shares_nonneg hshared hpos hfirst hlater
      refine hs.move ?_ amount (held_in hpay huser.2) rfl rfl
      exact hshared.move (add_nonneg (hshared.nonneg src) hshares) rfl rfl
        (add_nonneg hshared.deposits hpos.le)
    | withdraw src shares w hpos huser hle htotal hpay =>
      have hall := hle.trans (hshared.le_total src)
      have hzero : redemption s shares = 0 :=
        (part_eq_zero_iff (hpos.trans_le hall) hpos.le hshared.deposits).mpr hC
      have hworth := (hshared.redemption_bounds hpos.le hall).2
      rw [hzero] at hpay hworth ⊢
      refine hs.move ?_ 0 (held_out hpay huser.2) (add_zero _).symm rfl
      exact hshared.redeem hle hworth rfl rfl rfl
    | claim src shares payout request w hpos huser hrequest hdue hle htotal hpayout hpaid hpay =>
      have hwhole : payout ≤ s.totalDeposits := by
        rw [hpayout, ← hs.deposits]
        exact part_le htotal.le hshared.deposits (hle.trans (hshared.le_total src))
      refine hs.move ?_ (-payout) (held_out hpay huser.2) rfl rfl
      exact hshared.redeem hle hwhole rfl rfl rfl
    | absorbBadDebt pool amount w hpool hp hpay =>
      have hcovered := (T.transfer_covered hpay).1
      have hbalance : 0 ≤ s.backstopBalance := hs.deposits ▸ hshared.deposits
      have hnone : min s.backstopBalance amount = 0 := by
        obtain hC | hC := hC <;> omega
      rw [hnone] at hpay ⊢
      exact hs.move ⟨hshared.nonneg, hshared.sum, hshared.deposits⟩ 0 (held_out hpay hp.2) rfl
        (add_zero _).symm
    | requestClaim | setPaused =>
      exact ⟨⟨hshared.nonneg, hshared.sum, hshared.deposits⟩, hs.balance, hs.deposits⟩

/-- A loss leaves the books unaccounted for: a withdrawal that pays is missing
from the balance, and a debt that is covered from the deposits. -/
theorem lossless_of_accounted {opening : Int} {i : Input Address W contract (Call Address)}
    (h : step T s i = .ok t) (hs : Sound T contract opening s)
    (ht : Accounted T contract opening t) : Lossless s i := by
  obtain ⟨hshared, hbalance, hdeposits⟩ := hs
  cases i with
  | world w => trivial
  | call env c =>
    cases invoke_transition h with
    | withdraw src shares w hpos huser hle htotal hpay =>
      have hleft := (held_out hpay huser.2).symm.trans ht.balance
      have hzero : redemption s shares = 0 := by
        simp only at hleft
        omega
      exact (part_eq_zero_iff (hpos.trans_le (hle.trans (hshared.le_total src))) hpos.le
        hshared.deposits).mp hzero
    | absorbBadDebt pool amount w hpool hp hpay =>
      have hcovered := (T.transfer_covered hpay).1
      have hleft := ht.deposits
      simp only [Lossless] at hleft ⊢
      omega
    | _ => trivial

/-- The shares can be paid for: they are those of the depositors, and the
deposits are held. -/
structure Funded (T : Sep41 Address W) (contract : Address) (s : Storage Address W) : Prop where
  shared : Shared s
  held : s.totalDeposits ≤ held T contract s

theorem funded_withdraw {src : Address} {shares : Int}
    (h : step T s (.call env (.withdraw src shares)) = .ok t) (hs : Funded T contract s) :
    Funded T contract t := by
  have hinvoke : invoke T env s (.withdraw src shares) = .ok t := h
  cases invoke_transition hinvoke with
  | withdraw src shares w hpos huser hle htotal hpay =>
    have hworth := hs.shared.redemption_bounds hpos.le (hle.trans (hs.shared.le_total src))
    refine ⟨hs.shared.redeem hle hworth.2 rfl rfl rfl, ?_⟩
    have hleft := held_out hpay huser.2
    exact (sub_le_sub_right hs.held _).trans_eq hleft.symm

theorem funded_withdrawals (ws : List (Env Address contract × Address × Int))
    (hs : Funded T contract s) : Funded T contract (run (step T) s (withdrawals ws)) := by
  induction ws generalizing s with
  | nil => exact hs
  | cons v ws ih =>
    obtain ⟨env, src, shares⟩ := v
    apply ih (s := next (step T) s (.call env (.withdraw src shares)))
    cases h : step T s (.call env (.withdraw src shares)) with
    | ok t =>
      rw [next_ok h]
      exact funded_withdraw h hs
    | error e =>
      rw [next_error h]
      exact hs

theorem Funded.redeemable (h : Funded T contract s) (a : Address) :
    0 ≤ redemption s (s.sharesOf a) ∧
      redemption s (s.sharesOf a) ≤ Accounting.held T contract s := by
  obtain ⟨hlow, hhigh⟩ := h.shared.redemption_bounds (h.shared.nonneg a) (h.shared.le_total a)
  exact ⟨hlow, hhigh.trans h.held⟩

theorem accounted_of_sound {opening : Int} (h0 : 0 ≤ opening) (hs : Sound T contract opening s) :
    Accounted T contract opening s := by
  obtain ⟨hshared, hbalance, hdeposits⟩ := hs
  refine ⟨hbalance, hdeposits.le, fun a => ?_, fun ws a => ?_⟩
  · rw [redemption, hdeposits]
  · have hfunded : Funded T contract s := ⟨hshared, by omega⟩
    exact (funded_withdrawals ws hfunded).redeemable a

section Opened

variable {admin pool asset : Address} {target : Int} {claimDelay : Nat}
variable {maxDeposit minDeposit : Int} {w : W}

theorem sound_initialise
    (h : initialise (.fresh w) admin pool asset target claimDelay maxDeposit minDeposit = .ok s) :
    Sound T contract (held T contract s) s := by
  simp only [initialise, bind_eq_ok, rejectIf_eq_ok, pure_eq_ok] at h
  obtain ⟨_, -, rfl⟩ := h
  exact ⟨⟨fun _ => le_rfl, rfl, le_rfl⟩, (add_zero _).symm, rfl⟩

/-- The books account for the holding in every state of a run exactly when no
withdrawal of the run pays anything and no bad debt is covered in it. -/
theorem accounted_iff_lossless
    (h : initialise (.fresh w) admin pool asset target claimDelay maxDeposit minDeposit = .ok s)
    {is : List (Input Address W contract (Call Address))}
    (hE : Along (step T) (Undisturbed T) s is) :
    Throughout (step T) (Accounted T contract (held T contract s)) s is ↔
      Along (step T) Lossless s is := by
  have hsound : Sound T contract (held T contract s) s := sound_initialise h
  have h0 : 0 ≤ held T contract s := T.balance_nonneg _ _ _
  refine throughout_iff_along (J := Sound T contract (held T contract s)) ?_ hsound
    (accounted_of_sound h0 hsound) hE
  intro u i t hu _ hi ht
  refine ⟨⟨lossless_of_accounted ht hu, fun hC => ?_⟩, fun hA => ?_⟩
  · exact accounted_of_sound h0 (sound_step ht hu hi hC)
  · exact sound_step ht hu hi (lossless_of_accounted ht hu hA)

end Opened

/-- A depositor at address 3 with a thousand units of the asset at address 9. -/
def sample : Storage Nat (Nat → Nat → Nat) where
  poolAdmin := some 1
  poolAddress := some 2
  backstopAsset := some 9
  claimRequests := ∅
  backstopBalance := 0
  backstopTarget := 1000000
  depositors := ∅
  depositorShares := ∅
  totalShares := 0
  totalDeposits := 0
  paused := false
  claimDelay := 100
  maxDeposit := 100000
  minDeposit := 100
  world := fun token a => if token = 9 ∧ a = 3 then 1000 else 0

theorem initialise_sample :
    initialise (.fresh sample.world) 1 2 9 1000000 100 100000 100 = .ok sample := rfl

def sampleDeposit : Input Nat (Nat → Nat → Nat) 0 (Call Nat) :=
  .call (Env.signed 0 1) (.deposit 3 1000)

def sampleClaim : List (Input Nat (Nat → Nat → Nat) 0 (Call Nat)) :=
  [sampleDeposit, .call (Env.signed 0 2) (.requestClaim 3 400),
    .call (Env.signed 0 102) (.claim 3 400)]

theorem accounted_iff_lossless_sample :
    Throughout (step (bookToken Nat)) (Accounted (bookToken Nat) 0 0) sample sampleClaim := by
  have hE : Along (step (bookToken Nat)) (Undisturbed (bookToken Nat)) sample sampleClaim :=
    ⟨fun _ _ => trivial, fun _ _ => trivial, fun _ _ => trivial, trivial⟩
  apply (accounted_iff_lossless initialise_sample hE).mpr
  exact ⟨fun _ _ => trivial, fun _ _ => trivial, fun _ _ => trivial, trivial⟩

/-- The module keeps counting what it has paid back to its depositor, and
its depositor keeps counting on what it has paid to the pool. -/
theorem losses_unaccounted :
    ∃ s : Storage Nat (Nat → Nat → Nat),
      initialise (.fresh sample.world) 1 2 9 1000000 100 100000 100 = .ok s ∧
      ¬ Throughout (step (bookToken Nat)) (Accounted (bookToken Nat) 0 0) s
        [sampleDeposit, .call (Env.signed 0 2) (.withdraw 3 1000)] ∧
      ¬ Throughout (step (bookToken Nat)) (Accounted (bookToken Nat) 0 0) s
        [sampleDeposit, .call (Env.signed 0 2) (.absorbBadDebt 1000)] := by
  refine ⟨sample, rfl, fun h => ?_, fun h => ?_⟩
  · exact absurd (throughout_run h).balance (by decide)
  · exact absurd (throughout_run h).deposits (by decide)

end Suban.Backstop.Accounting

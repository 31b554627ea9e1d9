import Suban.Basis.Runs
import Suban.StrategyVault.Contract

namespace Suban.StrategyVault.Shares

open Suban.Basis.Calls Suban.Basis.Tables Suban.Basis.Runs Suban.Soroban.Host
open Suban.StrategyVault.Contract

variable {Address W : Type} [DecidableEq Address] {contract asset : Address}
variable {T : Sep41 Address W} {env : Env Address contract} {s t : Storage Address W}

structure Deposited (T : Sep41 Address W) (contract asset : Address) (s : Storage Address W)
    (src : Address) (amount shares : Int) (w : W) : Prop where
  other : src ≠ contract
  positive : 0 < amount
  capped : s.totalAssets + amount ≤ s.depositCap
  first : s.totalShares = 0 → shares = amount
  later : s.totalShares ≠ 0 → shares = (amount * s.totalShares).tdiv s.totalAssets
  paid : T.transfer s.world asset src contract amount = some w

def afterDeposit (s : Storage Address W) (src : Address) (amount shares : Int) (w : W) :
    Storage Address W :=
  { s.writeShares src (s.readShares src + shares) with
    totalAssets := s.totalAssets + amount
    totalShares := s.totalShares + shares
    events := s.events ++
      [.deposit src amount shares (s.totalAssets + amount) (s.totalShares + shares)]
    world := w }

structure Withdrawn (T : Sep41 Address W) (contract asset : Address) (s : Storage Address W)
    (src : Address) (shares assets : Int) (w : W) : Prop where
  other : src ≠ contract
  positive : 0 < shares
  held : shares ≤ s.readShares src
  worth : assets = (shares * s.totalAssets).tdiv s.totalShares
  paid : T.transfer s.world asset contract src assets = some w

def afterWithdraw (s : Storage Address W) (src : Address) (shares assets : Int) (w : W) :
    Storage Address W :=
  { s.writeShares src (s.readShares src - shares) with
    totalAssets := s.totalAssets - assets
    totalShares := s.totalShares - shares
    events := s.events ++
      [.withdraw src shares assets (s.totalAssets - assets) (s.totalShares - shares)]
    world := w }

/-- Everything that an accepted call can do. -/
inductive Transition (T : Sep41 Address W) (contract asset : Address) (s : Storage Address W) :
    Call Address → Storage Address W → Prop where
  | setStrategy (admin strategy : Address) (hempty : s.totalAssets = 0)
      (hnew : s.strategy = none) :
      Transition T contract asset s (.setStrategy admin strategy)
        ({ s with strategy := some strategy }.publish (.strategy admin strategy))
  | setDepositCap (admin : Address) (depositCap : Int) (hpos : 0 < depositCap)
      (hcap : s.totalAssets ≤ depositCap) :
      Transition T contract asset s (.setDepositCap admin depositCap)
        ({ s with depositCap := depositCap }.publish (.cap admin depositCap))
  | setPaused (admin : Address) (paused : Bool) :
      Transition T contract asset s (.setPaused admin paused)
        ({ s with paused := paused }.publish (.pause admin paused))
  | deposit (src : Address) (amount shares : Int) (w : W)
      (h : Deposited T contract asset s src amount shares w) :
      Transition T contract asset s (.deposit src amount) (afterDeposit s src amount shares w)
  | withdraw (src : Address) (shares assets : Int) (w : W)
      (h : Withdrawn T contract asset s src shares assets w) :
      Transition T contract asset s (.withdraw src shares) (afterWithdraw s src shares assets w)

theorem sharesFor_ok {amount shares : Int} (h : sharesFor s amount = .ok shares) :
    (s.totalShares = 0 → shares = amount) ∧
      (s.totalShares ≠ 0 → shares = (amount * s.totalShares).tdiv s.totalAssets) := by
  by_cases hz : s.totalShares = 0
  · rw [sharesFor, if_pos hz, pure_eq_ok] at h
    exact ⟨fun _ => h.symm, fun hne => absurd hz hne⟩
  · rw [sharesFor, if_neg hz] at h
    simp only [bind_eq_ok, checked_eq_ok, checkedDiv_eq_ok] at h
    obtain ⟨_, ⟨-, rfl⟩, -, -, rfl⟩ := h
    exact ⟨fun he => absurd he hz, fun _ => rfl⟩

theorem transfer_eq_ok {src dst : Address} {n : Int} :
    transfer T s src dst n = .ok t ↔ ∃ asset, s.asset = some asset ∧
      ∃ w, T.transfer s.world asset src dst n = some w ∧ { s with world := w } = t := by
  simp only [transfer, Storage.readAsset, bind_eq_ok, unwrap_eq_ok, pure_eq_ok]

theorem deposit_ok {src : Address} {amount shares : Int} (hasset : s.asset = some asset)
    (h : deposit T env s src amount = .ok (shares, t)) :
    ∃ w, Deposited T contract asset s src amount shares w ∧
      t = afterDeposit s src amount shares w := by
  simp only [deposit, requireNotPaused, bind_eq_ok, rejectIf_eq_ok, requireAuth_eq_ok,
    checked_eq_ok, transfer_eq_ok, pure_eq_ok, Prod.mk.injEq, not_le, not_lt] at h
  obtain ⟨_, -, _, ha, _, hpos, _, ⟨-, rfl⟩, _, hcap, m, hm, _, -, h⟩ := h
  obtain ⟨_, ⟨asset', ha', w, hw, rfl⟩, h⟩ := h
  obtain ⟨_, ⟨-, rfl⟩, _, ⟨-, rfl⟩, rfl, rfl⟩ := h
  cases hasset.symm.trans ha'
  obtain ⟨hfirst, hlater⟩ := sharesFor_ok hm
  exact ⟨w, ⟨ne_self ha, hpos, hcap, hfirst, hlater, hw⟩, rfl⟩

theorem withdraw_ok {src : Address} {shares assets : Int} (hasset : s.asset = some asset)
    (h : withdraw T env s src shares = .ok (assets, t)) :
    ∃ w, Withdrawn T contract asset s src shares assets w ∧
      t = afterWithdraw s src shares assets w := by
  simp only [withdraw, bind_eq_ok, rejectIf_eq_ok, requireAuth_eq_ok, checked_eq_ok,
    checkedDiv_eq_ok, transfer_eq_ok, pure_eq_ok, Prod.mk.injEq, not_le, not_lt] at h
  obtain ⟨_, ha, _, hpos, _, hheld, _, ⟨-, rfl⟩, h⟩ := h
  obtain ⟨_, ⟨-, -, rfl⟩, _, -, h⟩ := h
  obtain ⟨_, ⟨-, rfl⟩, _, ⟨-, rfl⟩, _, ⟨-, rfl⟩, h⟩ := h
  obtain ⟨_, ⟨asset', ha', w, hw, rfl⟩, rfl, rfl⟩ := h
  cases hasset.symm.trans ha'
  exact ⟨w, ⟨ne_self ha, hpos, hheld, rfl, hw⟩, rfl⟩

theorem invoke_transition {c : Call Address} (hasset : s.asset = some asset)
    (h : invoke T env s c = .ok t) : Transition T contract asset s c t := by
  cases c with
  | setStrategy admin strategy =>
    simp only [invoke, setStrategy, requireNotPaused, bind_eq_ok, rejectIf_eq_ok, pure_eq_ok,
      not_not] at h
    obtain ⟨_, -, _, -, _, hempty, _, hnew, rfl⟩ := h
    exact .setStrategy admin strategy hempty (by simpa using hnew)
  | setDepositCap admin depositCap =>
    simp only [invoke, setDepositCap, bind_eq_ok, rejectIf_eq_ok, pure_eq_ok, not_or, not_le,
      not_lt] at h
    obtain ⟨_, -, _, ⟨hpos, hcap⟩, rfl⟩ := h
    exact .setDepositCap admin depositCap hpos hcap
  | setPaused admin paused =>
    simp only [invoke, setPaused, bind_eq_ok, pure_eq_ok] at h
    obtain ⟨_, -, rfl⟩ := h
    exact .setPaused admin paused
  | deposit src amount =>
    obtain ⟨⟨m, u⟩, h, hu⟩ := bind_eq_ok.mp h
    cases pure_eq_ok.mp hu
    obtain ⟨w, hd, rfl⟩ := deposit_ok hasset h
    exact .deposit src amount m w hd
  | withdraw src shares =>
    obtain ⟨⟨m, u⟩, h, hu⟩ := bind_eq_ok.mp h
    cases pure_eq_ok.mp hu
    obtain ⟨w, hd, rfl⟩ := withdraw_ok hasset h
    exact .withdraw src shares m w hd

/-- The vault's books agree, stay under the cap and are covered by what the
vault holds. -/
structure Accounted (T : Sep41 Address W) (contract asset : Address) (s : Storage Address W) :
    Prop where
  asset_eq : s.asset = some asset
  totals_eq : s.totalAssets = s.totalShares
  totalShares_eq : s.totalShares = sum s.shares
  shares_nonneg : ∀ user, 0 ≤ s.readShares user
  capped : s.totalAssets ≤ s.depositCap
  covered : s.totalAssets ≤ T.balance s.world asset contract

def redemption (s : Storage Address W) (user : Address) : Int :=
  (s.readShares user * s.totalAssets).tdiv s.totalShares

/-- The price of a share stays one: the two totals are equal, so that no
division rounds. -/
theorem Accounted.deposited (hs : Accounted T contract asset s) {src : Address}
    {amount shares : Int} {w : W} (h : Deposited T contract asset s src amount shares w) :
    shares = amount := by
  by_cases hz : s.totalShares = 0
  · exact h.first hz
  · rw [h.later hz, hs.totals_eq, Int.mul_tdiv_cancel _ hz]

theorem Accounted.shares_le (hs : Accounted T contract asset s) (user : Address) :
    s.readShares user ≤ s.totalShares := by
  rw [hs.totalShares_eq]
  exact le_sum s.shares hs.shares_nonneg user

theorem Accounted.withdrawn (hs : Accounted T contract asset s) {src : Address}
    {shares assets : Int} {w : W} (h : Withdrawn T contract asset s src shares assets w) :
    assets = shares := by
  have hz : s.totalShares ≠ 0 := by
    have hpos := h.positive.trans_le (h.held.trans (hs.shares_le src))
    exact hpos.ne'
  rw [h.worth, hs.totals_eq, Int.mul_tdiv_cancel _ hz]

theorem Accounted.redemption_eq (hs : Accounted T contract asset s) (user : Address) :
    redemption s user = s.readShares user := by
  unfold redemption
  rw [hs.totals_eq]
  by_cases hz : s.totalShares = 0
  · have hle := hs.shares_le user
    have h0 := hs.shares_nonneg user
    rw [hz, Int.tdiv_zero]
    omega
  · exact Int.mul_tdiv_cancel _ hz

theorem accounted_deposit (hs : Accounted T contract asset s) {src : Address}
    {amount shares : Int} {w : W} (h : Deposited T contract asset s src amount shares w) :
    Accounted T contract asset (afterDeposit s src amount shares w) := by
  obtain rfl := hs.deposited h
  have hin := T.balance_in h.paid h.other
  have hheld := hs.shares_nonneg src
  have hpos := h.positive
  refine ⟨hs.asset_eq, ?_, ?_, ?_, h.capped, ?_⟩
  · exact congrArg (· + shares) hs.totals_eq
  · change s.totalShares + shares = sum (s.shares.insert src _)
    rw [sum_insert, hs.totalShares_eq, Storage.readShares]
    ring
  · exact forall_readOr_insert (P := (0 ≤ ·)) hs.shares_nonneg src (by omega)
  · change s.totalAssets + shares ≤ T.balance w asset contract
    rw [hin]
    exact add_le_add_left hs.covered shares

theorem accounted_withdraw (hs : Accounted T contract asset s) {src : Address}
    {shares assets : Int} {w : W} (h : Withdrawn T contract asset s src shares assets w) :
    Accounted T contract asset (afterWithdraw s src shares assets w) := by
  obtain rfl := hs.withdrawn h
  have hout := T.balance_out h.paid h.other
  have hpos := h.positive
  have hcap := hs.capped
  refine ⟨hs.asset_eq, ?_, ?_, ?_, ?_, ?_⟩
  · exact congrArg (· - assets) hs.totals_eq
  · change s.totalShares - assets = sum (s.shares.insert src _)
    rw [sum_insert, hs.totalShares_eq, Storage.readShares]
    ring
  · exact forall_readOr_insert (P := (0 ≤ ·)) hs.shares_nonneg src (sub_nonneg.mpr h.held)
  · change s.totalAssets - assets ≤ s.depositCap
    omega
  · change s.totalAssets - assets ≤ T.balance w asset contract
    rw [hout]
    exact sub_le_sub_right hs.covered assets

theorem accounted_transition {c : Call Address} (h : Transition T contract asset s c t)
    (hs : Accounted T contract asset s) : Accounted T contract asset t := by
  cases h with
  | setStrategy | setPaused =>
    exact ⟨hs.asset_eq, hs.totals_eq, hs.totalShares_eq, hs.shares_nonneg, hs.capped, hs.covered⟩
  | setDepositCap admin depositCap hpos hcap =>
    exact ⟨hs.asset_eq, hs.totals_eq, hs.totalShares_eq, hs.shares_nonneg, hcap, hs.covered⟩
  | deposit src amount shares w h => exact accounted_deposit hs h
  | withdraw src shares assets w h => exact accounted_withdraw hs h

/-- Nobody but the vault takes its tokens; anyone may send it some. -/
def Undisturbed (T : Sep41 Address W) (asset : Address) (s : Storage Address W) :
    Input Address W contract (Call Address) → Prop
  | .call _ _ => True
  | .world w => T.balance s.world asset contract ≤ T.balance w asset contract

theorem accounted_step {i : Input Address W contract (Call Address)}
    (hs : Accounted T contract asset s) (hi : Undisturbed T asset s i) (h : step T s i = .ok t) :
    Accounted T contract asset t := by
  cases i with
  | call env c => exact accounted_transition (invoke_transition hs.asset_eq h) hs
  | world w =>
    cases pure_eq_ok.mp h
    exact ⟨hs.asset_eq, hs.totals_eq, hs.totalShares_eq, hs.shares_nonneg, hs.capped,
      hs.covered.trans hi⟩

theorem accounted_initialise {w : W} {admin : Address} {depositCap : Int}
    (h : initialise env (.fresh w) admin asset depositCap = .ok s) :
    Accounted T contract asset s := by
  simp only [initialise, bind_eq_ok, panicIf_eq_ok, pure_eq_ok, not_le] at h
  obtain ⟨_, -, _, -, _, hpos, rfl⟩ := h
  exact ⟨rfl, rfl, rfl, fun _ => le_rfl, hpos.le, T.balance_nonneg w asset contract⟩

def MintsExactly (T : Sep41 Address W) (contract : Address) (s : Storage Address W) : Prop :=
  ∀ (env : Env Address contract) src amount shares t,
    deposit T env s src amount = .ok (shares, t) →
    shares = amount ∧ t.readShares src = s.readShares src + amount

def PaysExactly (T : Sep41 Address W) (contract asset : Address) (s : Storage Address W) : Prop :=
  ∀ (env : Env Address contract) src shares assets t,
    withdraw T env s src shares = .ok (assets, t) →
    assets = shares ∧ t.readShares src = s.readShares src - shares ∧
      T.balance t.world asset src = T.balance s.world asset src + shares

/-- All of a user's shares are worth their number, and stay so when the vault is
sent tokens directly. -/
def RedeemsExactly (T : Sep41 Address W) (contract asset : Address) (s : Storage Address W) :
    Prop :=
  ∀ user, redemption s user = s.readShares user ∧
    ∀ src n w, T.transfer s.world asset src contract n = some w →
      redemption { s with world := w } user = redemption s user

theorem Accounted.mintsExactly (hs : Accounted T contract asset s) :
    MintsExactly T contract s := by
  intro env src amount shares t h
  obtain ⟨w, hd, rfl⟩ := deposit_ok hs.asset_eq h
  obtain rfl := hs.deposited hd
  refine ⟨rfl, ?_⟩
  simp [afterDeposit, Storage.readShares, Storage.writeShares, readOr_insert]

theorem Accounted.paysExactly (hs : Accounted T contract asset s) :
    PaysExactly T contract asset s := by
  intro env src shares assets t h
  obtain ⟨w, hd, rfl⟩ := withdraw_ok hs.asset_eq h
  obtain rfl := hs.withdrawn hd
  refine ⟨rfl, ?_, T.balance_in hd.paid hd.other.symm⟩
  simp [afterWithdraw, Storage.readShares, Storage.writeShares, readOr_insert]

/-- In every state of a run the books agree, and shares are minted and redeemed
one to one. -/
theorem one_to_one {w : W} {admin : Address} {depositCap : Int}
    (h : initialise env (.fresh w) admin asset depositCap = .ok s)
    (is : List (Input Address W contract (Call Address)))
    (hkeep : Along (step T) (Undisturbed T asset) s is) :
    Throughout (step T) (fun s => Accounted T contract asset s ∧ MintsExactly T contract s ∧
      PaysExactly T contract asset s ∧ RedeemsExactly T contract asset s) s is := by
  have hall : Throughout (step T) (Accounted T contract asset) s is :=
    throughout_of_along (fun _ _ _ hs hi ht => accounted_step hs hi ht)
      (accounted_initialise h) hkeep
  exact throughout_mono (fun _ hs => ⟨hs, hs.mintsExactly, hs.paysExactly,
    fun user => ⟨hs.redemption_eq user, fun _ _ _ _ => rfl⟩⟩) hall

def sampleWorld : Nat → Nat → Nat := fun token a => if token = 10 ∧ a = 2 then 5000 else 0

def sampleStorage : Storage Nat (Nat → Nat → Nat) :=
  { Storage.fresh sampleWorld with admin := some 1, asset := some 10, depositCap := 3000 }

/-- The vault is sent seven hundred tokens between a deposit and a withdrawal. -/
def sampleGift : Nat → Nat → Nat := fun token a =>
  if token = 10 then (if a = 2 then 3300 else if a = 0 then 1700 else 0) else 0

theorem one_to_one_sample :
    Throughout (step (bookToken Nat)) (fun s => Accounted (bookToken Nat) 0 10 s ∧
      MintsExactly (bookToken Nat) 0 s ∧ PaysExactly (bookToken Nat) 0 10 s ∧
      RedeemsExactly (bookToken Nat) 0 10 s) sampleStorage
      [.call (Env.signed 0 1) (.deposit 2 1000), .world sampleGift,
        .call (Env.signed 0 2) (.withdraw 2 1000), .call (Env.signed 0 3) (.deposit 2 3000)] := by
  have hopen : initialise (Env.signed 0 0) (.fresh sampleWorld) 1 10 3000 =
      .ok sampleStorage := rfl
  refine one_to_one hopen _ ⟨fun _ _ => trivial, fun _ _ => ?_, fun _ _ => trivial,
    fun _ _ => trivial, trivial⟩
  unfold Undisturbed
  decide

end Suban.StrategyVault.Shares

import Suban.Basis.Runs
import Suban.Oracle.Lending

namespace Suban.Oracle.Breaker

open Suban.Basis.Calls Suban.Basis.Tables Suban.Basis.Runs Suban.Soroban.Host Suban.Hub.Types
open Suban.LendingPool.State Suban.Oracle.Contract Suban.Oracle.Lending

variable {Address B : Type} [DecidableEq Address] {oracle contract : Address}
variable {T : Sep41 Address B} {elsewhere : B → Address → Address → Reply} {s t : Desk Address B}

/-- The price differs from the last one by no more than the threshold, which is
in parts of ten thousand. -/
def Within (thresholdBps : Nat) (last price : Int) : Prop :=
  |price - last| * 10000 ≤ thresholdBps * last

instance (thresholdBps : Nat) (last price : Int) : Decidable (Within thresholdBps last price) :=
  inferInstanceAs (Decidable (|price - last| * 10000 ≤ thresholdBps * last))

/-- The price of the asset is within the bounds that it was pushed under. The
first price of an asset has none. -/
def InBounds (s : Desk Address B) (asset : Address) (price : Int) : Prop :=
  ∃ bounds, s.pushed.lookup asset = some bounds ∧
    ∀ last, bounds.last = some last → Within bounds.thresholdBps last.price price

/-- Every price that is served is within its bounds, to the pool as well. -/
structure Bounded (T : Sep41 Address B) (oracle contract : Address)
    (elsewhere : B → Address → Address → Reply) (s : Desk Address B) : Prop where
  served : ∀ asset p, getPrice s.oracle asset = .ok p → InBounds s asset p.price
  read : ∀ (env : Env Address contract) (pool : LendingPool.State.Storage Address (World Address B))
    asset p, pool.world = s.pool.world →
      LendingPool.Contract.readOraclePrice (oracleMarket T oracle elsewhere) env pool oracle asset =
        .ok p →
      InBounds s asset p.price

/-- A price that is pushed is within the threshold of the last price in force. -/
def PushesWithin (s : Desk Address B) : Lending.Input Address B oracle contract → Prop
  | .oracle _ (.setPrice _ asset price _ _) => ∀ last, getLastPrice s.oracle asset = some last →
      Within s.oracle.circuitBreakerThresholdBps last.price price
  | _ => True

def Served (s : Desk Address B) : Prop :=
  ∀ asset p, s.oracle.price.lookup asset = some p → InBounds s asset p.price

theorem read_eq_ok {env : Env Address contract}
    {pool : LendingPool.State.Storage Address (World Address B)} {asset : Address}
    {p : LendingPool.State.Price}
    (h : LendingPool.Contract.readOraclePrice (oracleMarket T oracle elsewhere) env pool oracle
      asset = .ok p) :
    ∃ q, pool.world.oracle.price.lookup asset = some q ∧ p.price = q.price := by
  simp only [LendingPool.Contract.readOraclePrice, bind_eq_ok, pure_eq_ok] at h
  obtain ⟨p', hp, _, -, _, -, _, -, rfl⟩ := h
  simp only [LendingPool.Contract.getPrice, oracleMarket, if_true, Oracle.Contract.getPrice] at hp
  cases hq : pool.world.oracle.price.lookup asset with
  | none => simp [hq, okOr, reply] at hp
  | some q =>
    simp only [hq, okOr, reply, Except.ok.injEq] at hp
    exact ⟨q, rfl, by rw [← hp]⟩

theorem bounded_iff : Bounded T oracle contract elsewhere s ↔ Served s := by
  refine ⟨?_, ?_⟩
  · intro h asset p hp
    exact h.served asset p (okOr_eq_ok.mpr hp)
  · intro h
    refine ⟨fun asset p hp => h asset p (okOr_eq_ok.mp hp), ?_⟩
    intro env pool asset p hworld hread
    obtain ⟨q, hq, hprice⟩ := read_eq_ok hread
    rw [hworld] at hq
    rw [hprice]
    exact h asset q hq

theorem served_keep (hs : Served s) (hprice : t.oracle.price = s.oracle.price)
    (hpushed : t.pushed = s.pushed) : Served t := by
  intro asset p hp
  rw [hprice] at hp
  rw [InBounds, hpushed]
  exact hs asset p hp

theorem inBounds_insert {asset other : Address} {bounds : Bounds Address} {price : Int}
    (hpushed : t.pushed = s.pushed.insert asset bounds) :
    InBounds t other price ↔ if other = asset then
      ∀ last, bounds.last = some last → Within bounds.thresholdBps last.price price
      else InBounds s other price := by
  by_cases h : other = asset
  · subst h
    simp [InBounds, hpushed]
  · simp [InBounds, hpushed, h, AList.lookup_insert_ne h]

theorem served_setPrice {env : Env Address oracle} {o : Oracle.Contract.Storage Address}
    {admin asset : Address} {price : Int} {decimals confidence : Nat} (hs : Served s)
    (h : setPrice env s.oracle admin asset price decimals confidence = .ok o) :
    Served (s.after (.setPrice admin asset price decimals confidence) o) ↔
      PushesWithin s (.oracle env (.setPrice admin asset price decimals confidence) :
        Lending.Input Address B oracle contract) := by
  simp only [setPrice, bind_eq_ok, pure_eq_ok] at h
  obtain ⟨_, -, _, -, rfl⟩ := h
  simp only [Served, Desk.oracle, Desk.after, lookup_insert_eq_some]
  refine ⟨?_, ?_⟩
  · intro hserved
    have hnew := hserved asset _ (.inl ⟨rfl, rfl⟩)
    rw [inBounds_insert rfl, if_pos rfl] at hnew
    exact hnew
  · rintro hwithin other p (⟨rfl, rfl⟩ | ⟨hne, hp⟩)
    · rw [inBounds_insert rfl, if_pos rfl]
      exact hwithin
    · rw [inBounds_insert rfl, if_neg hne]
      exact hs other p hp

theorem served_oracle {env : Env Address oracle} {o : Oracle.Contract.Storage Address}
    {c : Oracle.Contract.Call Address} (hs : Served s) (h : invoke env s.oracle c = .ok o) :
    Served (s.after c o) ↔
      PushesWithin s (.oracle env c : Lending.Input Address B oracle contract) := by
  cases c with
  | setPrice admin asset price decimals confidence => exact served_setPrice hs h
  | commitPrice admin asset =>
    simp only [invoke, commitPrice, bind_eq_ok, pure_eq_ok] at h
    obtain ⟨_, -, _, -, rfl⟩ := h
    exact iff_of_true (served_keep hs rfl rfl) trivial
  | setMaxAge admin maxAgeLedgers =>
    simp only [invoke, setMaxAge, bind_eq_ok, pure_eq_ok] at h
    obtain ⟨_, -, rfl⟩ := h
    exact iff_of_true (served_keep hs rfl rfl) trivial
  | setBreakerThreshold admin thresholdBps =>
    simp only [invoke, setBreakerThreshold, bind_eq_ok, pure_eq_ok] at h
    obtain ⟨_, -, _, -, rfl⟩ := h
    exact iff_of_true (served_keep hs rfl rfl) trivial
  | setAdmin admin newAdmin =>
    simp only [invoke, setAdmin, bind_eq_ok, pure_eq_ok] at h
    obtain ⟨_, -, rfl⟩ := h
    exact iff_of_true (served_keep hs rfl rfl) trivial

theorem served_step {i : Lending.Input Address B oracle contract} (hs : Served s)
    (h : Lending.step T elsewhere s i = .ok t) : Served t ↔ PushesWithin s i := by
  cases i with
  | oracle env c =>
    simp only [Lending.step] at h
    split at h
    next o ho =>
      cases h
      exact served_oracle hs ho
    next => cases h
  | pool env c =>
    simp only [Lending.step] at h
    split at h
    next pool hpool =>
      cases h
      have hworld := oracle_effect (LendingPool.Steps.invoke_effect hpool)
      exact iff_of_true (served_keep hs (congrArg _ hworld) rfl) trivial
    next => cases h
  | books books =>
    cases h
    exact iff_of_true (served_keep hs rfl rfl) trivial

def opening (pool : LendingPool.State.Storage Address (World Address B)) : Desk Address B where
  pool := pool
  pushed := ∅

theorem served_opening {env : Env Address oracle} {admin : Address}
    {maxAgeLedgers thresholdBps : Nat}
    {pool : LendingPool.State.Storage Address (World Address B)}
    (h : initialise env .fresh admin maxAgeLedgers thresholdBps = .ok pool.world.oracle) :
    Served (opening pool) := by
  simp only [initialise, bind_eq_ok, pure_eq_ok] at h
  obtain ⟨_, -, _, -, _, -, ho⟩ := h
  intro asset p hp
  rw [Desk.oracle, opening, ← ho] at hp
  cases hp

/-- In a run of the oracle and a pool that reads it every price is served
within the bounds it was pushed under exactly when every push is within those
in force. -/
theorem bounded_iff_pushesWithin (T : Sep41 Address B)
    (elsewhere : B → Address → Address → Reply) {env : Env Address oracle} {admin : Address}
    {maxAgeLedgers thresholdBps : Nat}
    {pool : LendingPool.State.Storage Address (World Address B)}
    (h : initialise env .fresh admin maxAgeLedgers thresholdBps = .ok pool.world.oracle)
    (is : List (Lending.Input Address B oracle contract)) :
    Throughout (Lending.step T elsewhere) (Bounded T oracle contract elsewhere) (opening pool) is ↔
      Along (Lending.step T elsewhere) PushesWithin (opening pool) is :=
  throughout_iff_along_self (E := fun _ _ => True)
    (fun u i v hu _ hv => by
      rw [bounded_iff] at hu ⊢
      exact served_step hu hv)
    (bounded_iff.mpr (served_opening h)) (along_true _ is)

def sampleOracle : Oracle.Contract.Storage Nat :=
  { Oracle.Contract.Storage.fresh with admin := some 1 }

/-- A pool for the token at address 8, against collateral in the one at address
9, of which the account 3 has pledged a hundred. -/
def samplePool : LendingPool.State.Storage Nat (World Nat (Nat → Nat → Nat)) :=
  { LendingPool.State.Storage.fresh ⟨sampleOracle, fun token a =>
      if token = 8 ∧ a = 0 then 1000 else 0⟩ with
    totalSupplies := 1000
    userCollateral := AList.insert 3 100 ∅
    collateralAsset := some 8
    collateralToken := some 9
    priceOracle := some 7 }

theorem initialise_sample :
    initialise (Env.signed 7 0) .fresh 1 10 500 = .ok samplePool.world.oracle := rfl

def samplePush (asset : Nat) (price : Int) : Lending.Input Nat (Nat → Nat → Nat) 7 0 :=
  .oracle (Env.signed 7 5) (.setPrice 1 asset price 7 95)

def sampleStep : Desk Nat (Nat → Nat → Nat) → Lending.Input Nat (Nat → Nat → Nat) 7 0 →
    Except Unit (Desk Nat (Nat → Nat → Nat)) :=
  Lending.step (bookToken Nat) (fun _ _ _ => .trap)

theorem bounded_iff_pushesWithin_sample :
    Throughout sampleStep (Bounded (bookToken Nat) 7 0 fun _ _ _ => .trap) (opening samplePool)
      [samplePush 9 100, samplePush 9 105] := by
  refine (bounded_iff_pushesWithin (bookToken Nat) _ initialise_sample _).mpr ⟨?_, ?_, trivial⟩
  · intro _ _ last hlast
    cases hlast
  · intro _ _ last hlast
    have hprice : last = ⟨9, 100, 7, 5, 95⟩ := (Option.some.inj hlast).symm
    rw [hprice]
    decide

/-- The price of the collateral doubles in one push, and a debt is taken up on
it. -/
def sampleJump : List (Lending.Input Nat (Nat → Nat → Nat) 7 0) :=
  [samplePush 8 100, samplePush 9 100, samplePush 9 200,
    .pool (Env.signed 0 5) (.borrow 3 150)]

/-- Nothing keeps the oracle from a push out of bounds, nor the pool from a
loan at that price. -/
theorem jump_is_served :
    ∃ pool : LendingPool.State.Storage Nat (World Nat (Nat → Nat → Nat)),
      initialise (Env.signed 7 0) .fresh 1 10 500 = .ok pool.world.oracle ∧
      ¬ Throughout sampleStep (Bounded (bookToken Nat) 7 0 fun _ _ _ => .trap) (opening pool)
        sampleJump ∧
      (run sampleStep (opening pool) sampleJump).pool.borrowOf 3 = 150 := by
  refine ⟨samplePool, rfl, ?_, by decide +kernel⟩
  intro h
  obtain ⟨bounds, hpushed, hwithin⟩ := (throughout_run h).served 9 ⟨9, 200, 7, 5, 95⟩ rfl
  cases hpushed
  exact absurd (hwithin ⟨9, 100, 7, 5, 95⟩ rfl) (by decide)

end Suban.Oracle.Breaker

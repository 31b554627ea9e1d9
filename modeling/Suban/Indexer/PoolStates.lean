import Suban.Basis.Timestamps
import Suban.Indexer.Payloads

namespace Suban.Indexer.PoolStates

open Suban.Basis.Numbers Suban.Basis.Timestamps
open Suban.Indexer.Database Suban.Indexer.Values Suban.Indexer.StoredJson Suban.Indexer.Financial
open Suban.Indexer.Payloads

structure PoolState where
  reserveARaw : String
  reserveBRaw : String
  totalSharesRaw : String
  tokenA : Option String
  tokenB : Option String
  observedAt : String
  ledger : Nat
  feeBps : Option Int
  amplification : Option String

variable {X : Type}

/-- The state that an event has left, if it tells all of it. There is no date for
a timestamp that is out of range. -/
def observe (event : PoolEvent X) : Option (Option PoolState) :=
  match event.reserveAAfter, event.reserveBAfter, event.totalSharesAfter with
  | some reserveA, some reserveB, some totalShares =>
    (timeClip (event.timestamp * 1000)).map fun time => some
      { reserveARaw := reserveA
        reserveBRaw := reserveB
        totalSharesRaw := totalShares
        tokenA := event.tokenA.orElse fun _ => event.tokenIn
        tokenB := event.tokenB.orElse fun _ => event.tokenOut
        observedAt := toISOString time
        ledger := event.ledger
        feeBps := none
        amplification := none }
  | _, _, _ => some none

structure Known where
  latest : Option PoolState
  feeBps : Option Int
  amplification : Option String

/-- The newest state counts, and the newest fee and amplification, which not all
events repeat. -/
def learn (known : Known) (event : PoolEvent X) : Option Known := do
  let latest ← match known.latest with
    | some state => some (some state)
    | none => observe event
  pure
    { latest := latest
      feeBps := known.feeBps.orElse fun _ => event.feeBps
      amplification := known.amplification.orElse fun _ => event.amplification }

def latestPoolState (events : List (PoolEvent X)) : Option (Option PoolState) := do
  let known ← events.foldlM learn ⟨none, none, none⟩
  pure (known.latest.map fun state =>
    { state with feeBps := known.feeBps, amplification := known.amplification })

def complete (event : PoolEvent X) : Bool :=
  event.reserveAAfter.isSome && event.reserveBAfter.isSome && event.totalSharesAfter.isSome

theorem observe_incomplete {event : PoolEvent X} (h : complete event = false) :
    observe event = some none := by
  unfold observe
  split
  next hA hB hS => simp [complete, hA, hB, hS] at h
  next => rfl

theorem observe_complete {event : PoolEvent X} {latest : Option PoolState}
    (h : complete event = true) (hobserve : observe event = some latest) :
    ∃ state, latest = some state := by
  unfold observe at hobserve
  split at hobserve
  next =>
    obtain ⟨time, -, rfl⟩ := Option.map_eq_some_iff.mp hobserve
    exact ⟨_, rfl⟩
  next hnone =>
    simp only [complete, Bool.and_eq_true, Option.isSome_iff_exists] at h
    obtain ⟨⟨⟨reserveA, hA⟩, reserveB, hB⟩, totalShares, hS⟩ := h
    exact absurd hS (hnone _ _ _ hA hB)

theorem latest_of_known {events : List (PoolEvent X)} {known out : Known} {state : PoolState}
    (hknown : known.latest = some state) (h : events.foldlM learn known = some out) :
    out.latest = some state := by
  induction events generalizing known with
  | nil =>
    rw [List.foldlM_nil, Option.pure_def, Option.some.injEq] at h
    exact h ▸ hknown
  | cons event events ih =>
    rw [List.foldlM_cons, Option.bind_eq_bind, Option.bind_eq_some_iff] at h
    obtain ⟨next, hnext, h⟩ := h
    refine ih ?_ h
    simp only [learn, hknown, Option.bind_eq_bind, Option.bind_some, Option.pure_def,
      Option.some.injEq] at hnext
    exact hnext ▸ rfl

theorem latest_eq {events : List (PoolEvent X)} {known out : Known}
    (hknown : known.latest = none) (h : events.foldlM learn known = some out) :
    (events.find? complete).elim (some none) observe = some out.latest := by
  induction events generalizing known with
  | nil =>
    rw [List.foldlM_nil, Option.pure_def, Option.some.injEq] at h
    subst h
    rw [hknown]
    rfl
  | cons event events ih =>
    rw [List.foldlM_cons, Option.bind_eq_bind, Option.bind_eq_some_iff] at h
    obtain ⟨next, hnext, h⟩ := h
    simp only [learn, hknown, Option.bind_eq_bind, Option.bind_eq_some_iff, Option.pure_def,
      Option.some.injEq] at hnext
    obtain ⟨latest, hobserve, rfl⟩ := hnext
    rw [List.find?_cons]
    cases hcomplete : complete event with
    | true =>
      obtain ⟨state, rfl⟩ := observe_complete hcomplete hobserve
      rw [latest_of_known rfl h]
      exact hobserve
    | false =>
      rw [observe_incomplete hcomplete, Option.some.injEq] at hobserve
      exact ih hobserve.symm h

theorem observe_of_latest {events : List (PoolEvent X)} {state : PoolState}
    (h : latestPoolState events = some (some state)) :
    ∃ event observed, events.find? complete = some event ∧ observe event = some (some observed) ∧
      state.reserveARaw = observed.reserveARaw ∧ state.reserveBRaw = observed.reserveBRaw ∧
      state.tokenA = observed.tokenA ∧ state.tokenB = observed.tokenB := by
  simp only [latestPoolState, Option.bind_eq_bind, Option.bind_eq_some_iff, Option.pure_def,
    Option.some.injEq, Option.map_eq_some_iff] at h
  obtain ⟨out, hout, observed, hlatest, rfl⟩ := h
  have hfirst := latest_eq rfl hout
  cases hfind : events.find? complete with
  | none =>
    rw [hfind, hlatest] at hfirst
    cases hfirst
  | some event =>
    rw [hfind, hlatest] at hfirst
    exact ⟨event, observed, rfl, hfirst, rfl, rfl, rfl, rfl⟩

structure Pool {Address : Type} (S : Strkeys Address) where
  tokenA : Address
  tokenB : Address
  distinct : S.text tokenA ≠ S.text tokenB

inductive Direction where
  | aToB
  | bToA

/-- What an event of a pool tells, in one of the versions of its payload. The
older swaps do not name the tokens of the pool. -/
inductive Payload where
  | legacy (kind : PoolEventType) (amountA amountB : Int) (shares : Option Int)
  | swap (direction : Direction) (amountIn amountOut reserveA reserveB : Int) (feeBps : Nat)
      (totalShares : Int) (named : Bool) (amplification : Option Nat)
  | liquidity (removed : Bool) (amountA amountB shares reserveA reserveB totalShares : Int)
      (amplification : Option Nat)

namespace Payload

variable {Address : Type} {S : Strkeys Address} (pool : Pool S)

def kind : Payload → PoolEventType
  | .legacy kind _ _ _ => kind
  | .swap .. => .swap
  | .liquidity removed .. => if removed then .removeLiquidity else .addLiquidity

def reserves : Payload → Option (Int × Int)
  | .legacy .. => none
  | .swap _ _ _ reserveA reserveB _ _ _ _ => some (reserveA, reserveB)
  | .liquidity _ _ _ _ reserveA reserveB _ _ => some (reserveA, reserveB)

def tokenIn (direction : Direction) : Address :=
  match direction with
  | .aToB => pool.tokenA
  | .bToA => pool.tokenB

def tokenOut (direction : Direction) : Address :=
  match direction with
  | .aToB => pool.tokenB
  | .bToA => pool.tokenA

def fields : Payload → List (Payloads.Field Address)
  | .legacy _ amountA amountB shares =>
    [.int amountA, .int amountB] ++ shares.toList.map .int
  | .swap direction amountIn amountOut reserveA reserveB feeBps totalShares named amplification =>
    [.int amountIn, .int amountOut, .address (tokenIn pool direction),
      .address (tokenOut pool direction), .int reserveA, .int reserveB, .int feeBps,
      .int totalShares] ++ (if named then [.address pool.tokenA, .address pool.tokenB] else []) ++
      amplification.toList.map fun n : Nat => .int n
  | .liquidity _ amountA amountB shares reserveA reserveB totalShares amplification =>
    [.int amountA, .int amountB, .int shares, .address pool.tokenA, .address pool.tokenB,
      .int reserveA, .int reserveB, .int totalShares] ++
      amplification.toList.map fun n : Nat => .int n

end Payload

def symbol (stable : Bool) : PoolEventType → String
  | .swap => if stable then "ss_swap" else "swap"
  | .addLiquidity => if stable then "ss_add" else "add_liq"
  | .removeLiquidity => if stable then "ss_rm" else "rm_liq"

theorem classify_symbol (stable : Bool) (kind : PoolEventType) :
    classifyFinancialEvent (symbol stable kind) = some kind := by
  cases stable <;> cases kind <;> decide

structure Record (Address : Type) where
  stable : Bool
  account : Address
  payload : Payload

section History

variable {Address : Type} {S : Strkeys Address} {pool : Pool S} {sdk : ScValSdk X}
variable {records : List (Record Address)} {rows : List EventRow} {r : Record Address}

def Record.published (pool : Pool S) (r : Record Address) : Published Address :=
  ⟨symbol r.stable r.payload.kind, [r.account], r.payload.fields pool⟩

/-- The rows that hold a history, in its order. -/
def Holds (X : Type) (pool : Pool S) : List (Record Address) → List EventRow → Prop :=
  List.Forall₂ fun r row => StoredData X S (r.published pool) row

def newest (records : List (Record Address)) : Option (Record Address) :=
  records.find? fun r => r.payload.reserves.isSome

theorem complete_poolEvent (payload : Payload) (row : EventRow) (account : Option String) :
    complete (poolEvent S row account payload.kind (payload.fields pool) : PoolEvent X) =
      payload.reserves.isSome := by
  cases payload with
  | legacy kind amountA amountB shares =>
    cases kind <;> cases shares <;> rfl
  | swap direction amountIn amountOut reserveA reserveB feeBps totalShares named amplification =>
    rfl
  | liquidity removed amountA amountB shares reserveA reserveB totalShares amplification =>
    cases removed <;> rfl

theorem newest_of_find {event : PoolEvent X} (h : Holds X pool records rows)
    (hfind : (rows.filterMap (parseFinancialEvent sdk)).find? complete = some event) :
    ∃ r row account, newest records = some r ∧
      event = poolEvent S row account r.payload.kind (r.payload.fields pool) := by
  unfold newest
  induction h with
  | nil => cases hfind
  | @cons r row records rows hrow _ ih =>
    rw [List.filterMap_cons,
      parseFinancialEvent_data hrow (classify_symbol r.stable r.payload.kind), List.find?_cons,
      Record.published, complete_poolEvent] at hfind
    rw [List.find?_cons]
    cases hreserves : r.payload.reserves.isSome with
    | true =>
      rw [hreserves] at hfind
      exact ⟨r, row, _, rfl, (Option.some.inj hfind).symm⟩
    | false =>
      rw [hreserves] at hfind
      exact ih hfind

def Payload.firstToken (pool : Pool S) : Payload → Address
  | .swap direction _ _ _ _ _ _ false _ => tokenIn pool direction
  | _ => pool.tokenA

def Payload.secondToken (pool : Pool S) : Payload → Address
  | .swap direction _ _ _ _ _ _ false _ => tokenOut pool direction
  | _ => pool.tokenB

theorem observed_poolEvent {payload : Payload} {row : EventRow} {account : Option String}
    {observed : PoolState}
    (h : observe (poolEvent S row account payload.kind (payload.fields pool) : PoolEvent X) =
      some (some observed)) :
    payload.reserves.map (fun reserves => (toString reserves.1, toString reserves.2)) =
        some (observed.reserveARaw, observed.reserveBRaw) ∧
      observed.tokenA = some (S.text (payload.firstToken pool)) ∧
      observed.tokenB = some (S.text (payload.secondToken pool)) := by
  cases payload with
  | legacy kind amountA amountB shares =>
    rw [observe_incomplete (complete_poolEvent _ row account)] at h
    cases h
  | swap direction amountIn amountOut reserveA reserveB feeBps totalShares named amplification =>
    obtain ⟨time, -, h⟩ := Option.map_eq_some_iff.mp h
    cases Option.some.inj h
    cases named <;> cases amplification <;> exact ⟨rfl, rfl, rfl⟩
  | liquidity removed amountA amountB shares reserveA reserveB totalShares amplification =>
    cases removed <;>
    · obtain ⟨time, -, h⟩ := Option.map_eq_some_iff.mp h
      cases Option.some.inj h
      exact ⟨rfl, rfl, rfl⟩

/-- What a token of the pool is left with after an event. -/
def IsReserve (pool : Pool S) (payload : Payload) (token raw : String) : Prop :=
  ∃ reserveA reserveB, payload.reserves = some (reserveA, reserveB) ∧
    (token = S.text pool.tokenA ∧ raw = toString reserveA ∨
      token = S.text pool.tokenB ∧ raw = toString reserveB)

/-- The reserves of a state that names two tokens are those of the two, as the
newest event tells them. -/
def OwnReserves (pool : Pool S) (records : List (Record Address)) (state : PoolState) : Prop :=
  ∀ r ∈ newest records, ∀ tokenA ∈ state.tokenA, ∀ tokenB ∈ state.tokenB,
    IsReserve pool r.payload tokenA state.reserveARaw ∧
      IsReserve pool r.payload tokenB state.reserveBRaw

/-- A swap of the second token for the first that does not name them in their
order. -/
def Payload.Reversed : Payload → Prop
  | .swap .bToA _ _ reserveA reserveB _ _ false _ => reserveA ≠ reserveB
  | _ => False

theorem isReserve_tokens (pool : Pool S) {payload : Payload} {reserveA reserveB : Int}
    (h : payload.reserves = some (reserveA, reserveB)) :
    (IsReserve pool payload (S.text pool.tokenA) (toString reserveA) ∧
        IsReserve pool payload (S.text pool.tokenB) (toString reserveB)) ∧
      (IsReserve pool payload (S.text pool.tokenB) (toString reserveA) ∧
        IsReserve pool payload (S.text pool.tokenA) (toString reserveB) ↔ reserveA = reserveB) := by
  refine ⟨⟨⟨_, _, h, .inl ⟨rfl, rfl⟩⟩, ⟨_, _, h, .inr ⟨rfl, rfl⟩⟩⟩, ?_, ?_⟩
  · rintro ⟨⟨reserveA', reserveB', h', ⟨heq, -⟩ | ⟨-, heq⟩⟩, -⟩
    · exact absurd heq.symm pool.distinct
    · cases h.symm.trans h'
      exact toString_inj heq
  · rintro rfl
    exact ⟨⟨_, _, h, .inr ⟨rfl, rfl⟩⟩, ⟨_, _, h, .inl ⟨rfl, rfl⟩⟩⟩

/-- Only a swap that does not name the tokens of the pool may have them the other
way round. -/
theorem isReserve_iff {payload : Payload} {reserveA reserveB : Int}
    (h : payload.reserves = some (reserveA, reserveB)) :
    IsReserve pool payload (S.text (payload.firstToken pool)) (toString reserveA) ∧
        IsReserve pool payload (S.text (payload.secondToken pool)) (toString reserveB) ↔
      ¬ payload.Reversed := by
  obtain ⟨hown, hother⟩ := isReserve_tokens pool h
  cases payload with
  | legacy => cases h
  | liquidity => exact iff_of_true hown not_false
  | swap direction _ _ _ _ _ _ named _ =>
    cases h
    cases named with
    | true => exact iff_of_true hown (by cases direction <;> exact not_false)
    | false =>
      cases direction with
      | aToB => exact iff_of_true hown not_false
      | bToA => exact hother.trans not_not.symm

/-- The reserves are reported with their own tokens exactly where the newest event
that tells them is no such swap. -/
theorem own_reserves_iff {state : PoolState} (h : Holds X pool records rows)
    (hstate : latestPoolState (rows.filterMap (parseFinancialEvent sdk)) = some (some state)) :
    OwnReserves pool records state ↔ ∀ r ∈ newest records, ¬ r.payload.Reversed := by
  obtain ⟨event, observed, hfind, hobserve, hA, hB, htokenA, htokenB⟩ := observe_of_latest hstate
  obtain ⟨r, row, account, hnewest, rfl⟩ := newest_of_find h hfind
  obtain ⟨hreserves, hfirst, hsecond⟩ := observed_poolEvent hobserve
  simp only [OwnReserves, hnewest, htokenA, htokenB, hA, hB, hfirst, hsecond, Option.mem_def,
    Option.some.injEq, forall_eq']
  obtain ⟨⟨reserveA, reserveB⟩, htold, hraw⟩ := Option.map_eq_some_iff.mp hreserves
  obtain ⟨hrawA, hrawB⟩ := Prod.mk.inj hraw
  rw [← hrawA, ← hrawB]
  exact isReserve_iff htold

end History

section Sample

def samplePool : Pool sampleStrkeys := ⟨sampleTokenA, sampleTokenB, by decide +kernel⟩

/-- A swap of the older version, against reserves of 2000 and 500 after it. -/
def olderSwap (direction : Direction) : Record (Fin 3) :=
  ⟨false, sampleTrader, .swap direction 10 9 2000 500 30 1000 false none⟩

def olderRow (tokenIn tokenOut : Fin 3) : EventRow where
  eventId := "e1"
  contractId := "C1"
  contractName := "cpmm-pool"
  eventType := "swap"
  txHash := "t1"
  ledger := 7
  timestamp := 1700000000
  data := some (stringify samplePlatform.toScValSdk (ofJson (.arr [.str "10", .str "9",
    .str (sampleStrkeys.text tokenIn), .str (sampleStrkeys.text tokenOut), .str "2000", .str "500",
    .num 30, .str "1000"])))
  ledgerClosedAt := none
  raw := ""

theorem storedData_older (direction : Direction) {tokenIn tokenOut : Fin 3}
    (hin : Payload.tokenIn samplePool direction = tokenIn)
    (hout : Payload.tokenOut samplePool direction = tokenOut) :
    StoredData Empty sampleStrkeys ((olderSwap direction).published samplePool)
      (olderRow tokenIn tokenOut) where
  eventType := rfl
  data := by
    subst hin hout
    exact ⟨_, parseJson_stringify _ _ _, .cons (.text 10) (.cons (.text 9) (.cons (.strkey _)
      (.cons (.strkey _) (.cons (.text 2000) (.cons (.text 500) (.cons (.number 30 (by decide))
        (.cons (.text 1000) .nil)))))))⟩

theorem latestPoolState_older (direction : Direction) {tokenIn tokenOut : Fin 3}
    (hin : Payload.tokenIn samplePool direction = tokenIn)
    (hout : Payload.tokenOut samplePool direction = tokenOut) :
    latestPoolState ([olderRow tokenIn tokenOut].filterMap
      (parseFinancialEvent samplePlatform.toScValSdk)) = some (some
        { reserveARaw := toString (2000 : Int)
          reserveBRaw := toString (500 : Int)
          totalSharesRaw := toString (1000 : Int)
          tokenA := some (sampleStrkeys.text tokenIn)
          tokenB := some (sampleStrkeys.text tokenOut)
          observedAt := toISOString ⟨1700000000000, by decide⟩
          ledger := 7
          feeBps := some 30
          amplification := none }) := by
  rw [List.filterMap_cons, parseFinancialEvent_data (storedData_older direction hin hout)
    (classify_symbol false .swap), List.filterMap_nil]
  subst hin hout
  rfl

theorem holds_older (direction : Direction) {tokenIn tokenOut : Fin 3}
    (hin : Payload.tokenIn samplePool direction = tokenIn)
    (hout : Payload.tokenOut samplePool direction = tokenOut) :
    Holds Empty samplePool [olderSwap direction] [olderRow tokenIn tokenOut] :=
  .cons (storedData_older direction hin hout) .nil

theorem own_reserves_iff_sample : ∃ state,
    Holds Empty samplePool [olderSwap .aToB] [olderRow 1 2] ∧
      latestPoolState ([olderRow 1 2].filterMap
        (parseFinancialEvent samplePlatform.toScValSdk)) = some (some state) ∧
      OwnReserves samplePool [olderSwap .aToB] state := by
  have hstate := latestPoolState_older .aToB rfl rfl
  have hrows := holds_older .aToB rfl rfl
  refine ⟨_, hrows, hstate, (own_reserves_iff hrows hstate).mpr ?_⟩
  intro r hr
  cases hr
  exact not_false

/-- After a swap of the second token for the first the reserve of the first is
reported as one of the second. -/
theorem reversed_swap_mispairs : ∃ state,
    Holds Empty samplePool [olderSwap .bToA] [olderRow 2 1] ∧
      latestPoolState ([olderRow 2 1].filterMap
        (parseFinancialEvent samplePlatform.toScValSdk)) = some (some state) ∧
      ¬ OwnReserves samplePool [olderSwap .bToA] state := by
  refine ⟨_, holds_older .bToA rfl rfl, latestPoolState_older .bToA rfl rfl, fun hown => ?_⟩
  have htokens := hown _ rfl _ rfl _ rfl
  exact (isReserve_iff rfl).mp htokens (by decide : (2000 : Int) ≠ 500)

end Sample

end Suban.Indexer.PoolStates

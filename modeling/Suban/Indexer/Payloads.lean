import Suban.CpmmPool.Contract
import Suban.Indexer.Wire
import Suban.LendingPool.State
import Suban.Stableswap.Contract

namespace Suban.Indexer.Payloads

open Suban.Basis.JsonText (Json)
open Suban.Basis.Numbers Suban.Indexer.Database Suban.Indexer.Values Suban.Indexer.Events
open Suban.Indexer.StoredJson Suban.Indexer.Financial Suban.Indexer.Wire

inductive Field (Address : Type) where
  | int (n : Int)
  | address (a : Address)

/-- An event as a contract publishes it: the symbol and the addresses among its
topics, and its data. -/
structure Published (Address : Type) where
  symbol : String
  accounts : List Address
  payload : List (Field Address)

variable {Address X : Type}

def publishedCpmm : CpmmPool.Contract.Event Address → Published Address
  | .addLiq provider amountA amountB shares tokenA tokenB reserveA reserveB totalShares =>
    ⟨"add_liq", [provider], [.int amountA, .int amountB, .int shares, .address tokenA,
      .address tokenB, .int reserveA, .int reserveB, .int totalShares]⟩
  | .rmLiq provider amountA amountB sharesIn tokenA tokenB reserveA reserveB totalShares =>
    ⟨"rm_liq", [provider], [.int amountA, .int amountB, .int sharesIn, .address tokenA,
      .address tokenB, .int reserveA, .int reserveB, .int totalShares]⟩
  | .swap trader amountIn amountOut tokenIn tokenOut reserveA reserveB feeBps totalShares tokenA
      tokenB =>
    ⟨"swap", [trader], [.int amountIn, .int amountOut, .address tokenIn, .address tokenOut,
      .int reserveA, .int reserveB, .int feeBps, .int totalShares, .address tokenA,
      .address tokenB]⟩

def publishedStableswap : Stableswap.Contract.Event Address → Published Address
  | .ssAdd provider amountA amountB shares tokenA tokenB reserveA reserveB totalShares amp =>
    ⟨"ss_add", [provider], [.int amountA, .int amountB, .int shares, .address tokenA,
      .address tokenB, .int reserveA, .int reserveB, .int totalShares, .int amp]⟩
  | .ssRm provider amountA amountB sharesIn tokenA tokenB reserveA reserveB totalShares amp =>
    ⟨"ss_rm", [provider], [.int amountA, .int amountB, .int sharesIn, .address tokenA,
      .address tokenB, .int reserveA, .int reserveB, .int totalShares, .int amp]⟩
  | .ssSwap trader amountIn amountOutNet tokenIn tokenOut reserveA reserveB feeBps totalShares
      tokenA tokenB amp =>
    ⟨"ss_swap", [trader], [.int amountIn, .int amountOutNet, .address tokenIn,
      .address tokenOut, .int reserveA, .int reserveB, .int feeBps, .int totalShares,
      .address tokenA, .address tokenB, .int amp]⟩

open LendingPool.State (UserPosition PoolTotals)

/-- A position and the totals close most events of the lending pool. -/
def closing (p : UserPosition) (t : PoolTotals) : List (Field Address) :=
  [.int p.deposit, .int p.borrow, .int p.collateral, .int t.supplies, .int t.borrows,
    .int t.reserves]

def publishedLending : LendingPool.State.Event Address → Published Address
  | .deposit src amount bTokens p t =>
    ⟨"deposit", [src], [.int amount, .int bTokens] ++ closing p t⟩
  | .withdraw src bTokenAmount underlying p t =>
    ⟨"withdraw", [src], [.int bTokenAmount, .int underlying] ++ closing p t⟩
  | .borrow src amount p t => ⟨"borrow", [src], .int amount :: closing p t⟩
  | .repay src repayAmount p t => ⟨"repay", [src], .int repayAmount :: closing p t⟩
  | .setCol user amount p t => ⟨"set_col", [user], .int amount :: closing p t⟩
  | .liquidate liquidator borrower actualRepay collateralSeize p t =>
    ⟨"liquidate", [liquidator, borrower],
      [.int actualRepay, .int collateralSeize] ++ closing p t⟩
  | .accrue interest reserveShare totalBorrows totalReserves ledger =>
    ⟨"accrue", [], [.int interest, .int reserveShare, .int totalBorrows, .int totalReserves,
      .int ledger]⟩
  | .depCol src amount p t => ⟨"dep_col", [src], .int amount :: closing p t⟩
  | .wdCol src amount p t => ⟨"wd_col", [src], .int amount :: closing p t⟩

/-- How addresses are written. -/
structure Strkeys (Address : Type) where
  text : Address → String
  valid : ∀ a, (isAccount (text a) || isContract (text a)) = true

/-- What an entry may be decoded to. A number may stay one where a double holds
it. -/
inductive Decodes (S : Strkeys Address) : Field Address → Json → Prop where
  | text (n : Int) : Decodes S (.int n) (.str (toString n))
  | number (n : Int) (h : n.natAbs ≤ 2 ^ 53) : Decodes S (.int n) (.num n)
  | strkey (a : Address) : Decodes S (.address a) (.str (S.text a))

def Published.topics (S : Strkeys Address) (p : Published Address) : List (Value X) :=
  .str p.symbol :: p.accounts.map fun a => .str (S.text a)

/-- The indexer's event is the one that was published, in any encoding that is
decoded to texts, numbers and strkeys. Its topics are decoded again when they
are read from its JSON. -/
structure Carries (sdk : ScValSdk X) (S : Strkeys Address) (e : SorobanEvent X)
    (p : Published Address) : Prop where
  topics : e.allTopics.map (decodeScVal sdk) = p.topics S
  stored : ∃ w : WireEvent, stringify sdk e.object = stringify sdk (w.event (X := X)).object ∧
    (ofJsonAll w.allTopics).map (decodeScVal sdk) = p.topics S
  data : ∃ v js, e.value = some v ∧ decodeScVal sdk v = .arr (ofJsonAll js) ∧
    List.Forall₂ (Decodes S) p.payload js

theorem carries_wire {sdk : ScValSdk X} {S : Strkeys Address} {w : WireEvent}
    {p : Published Address} {v : Json} (js : List Json)
    (htopics : (ofJsonAll w.allTopics).map (decodeScVal sdk) = p.topics S)
    (hv : w.value = some v) (hdecoded : decodeScVal sdk (ofJson v) = .arr (ofJsonAll js))
    (hpayload : List.Forall₂ (Decodes S) p.payload js) : Carries sdk S w.event p where
  topics := (congrArg _ (event_allTopics w)).trans htopics
  stored := ⟨w, rfl, htopics⟩
  data := ⟨ofJson v, js, by simp only [WireEvent.event, hv, Option.map_some], hdecoded, hpayload⟩

namespace Field

def raw : Field Address → Option String
  | .int n => some (toString n)
  | .address _ => none

def strkey (S : Strkeys Address) : Field Address → Option String
  | .int _ => none
  | .address a => some (S.text a)

def number : Field Address → Option Int
  | .int n => some n
  | .address _ => none

end Field

theorem head_strkey {kind : Char} {text : String} (h : isStrkey kind text = true) :
    ∃ cs, text.toList = kind :: cs := by
  unfold isStrkey at h
  split at h
  next => cases h
  next c cs heq =>
    simp only [Bool.and_eq_true, decide_eq_true_eq] at h
    exact ⟨cs, h.1.1 ▸ heq⟩

theorem Strkeys.head (S : Strkeys Address) (a : Address) :
    ∃ c cs, (S.text a).toList = c :: cs ∧ c ≠ '-' ∧ c.isDigit = false := by
  obtain h | h := Bool.or_eq_true_iff.mp (S.valid a)
  · obtain ⟨cs, hcs⟩ := head_strkey h
    exact ⟨_, cs, hcs, by decide, rfl⟩
  · obtain ⟨cs, hcs⟩ := head_strkey h
    exact ⟨_, cs, hcs, by decide, rfl⟩

theorem bigInt_strkey (S : Strkeys Address) (a : Address) : bigInt (S.text a) = none := by
  obtain ⟨c, cs, htext, hminus, hdigit⟩ := S.head a
  have hnone : numeral (c :: cs) = none := by simp [numeral, hdigit]
  rw [bigInt, htext]
  split
  next heq => exact absurd (List.cons.inj heq).1 hminus
  next => rw [hnone, Option.map_none]

theorem isStrkey_number (kind : Char) (n : Int) (hkind : kind ≠ '-')
    (hdigit : kind.isDigit = false) :
    isStrkey kind (toString n) = false := by
  obtain ⟨c, cs, htext, hc⟩ := Basis.JsonText.head_number n
  have hne : c ≠ kind := Basis.JsonText.ne_of_number hc hkind hdigit
  simp only [isStrkey, htext, hne, decide_false, Bool.false_and]

section Decoding

variable {S : Strkeys Address} {f : Field Address} {j : Json}

theorem rawAmount_decoded (h : Decodes S f j) : rawAmount (ofJson j : Value X) = f.raw := by
  cases h with
  | text n => simp only [ofJson, rawAmount, Field.raw, bigInt_toString, Option.isSome_some, if_true]
  | number n => rfl
  | strkey a => simp [ofJson, rawAmount, Field.raw, bigInt_strkey]

theorem addressOf_decoded (h : Decodes S f j) :
    addressOf (ofJson j : Value X) = f.strkey S := by
  cases h with
  | text n =>
    have hg : isAccount (toString n) = false := isStrkey_number 'G' n (by decide) rfl
    have hc : isContract (toString n) = false := isStrkey_number 'C' n (by decide) rfl
    simp only [ofJson, addressOf, Field.strkey, hg, hc, Bool.or_false, Bool.false_eq_true, if_false]
  | number n => rfl
  | strkey a => simp only [ofJson, addressOf, Field.strkey, S.valid a, if_true]

theorem numeric_decoded (h : Decodes S f j) : numeric (ofJson j : Value X) = f.number := by
  cases h with
  | text n => simp only [ofJson, numeric, Field.number, bigInt_toString]
  | number n => rfl
  | strkey a => simp [ofJson, numeric, Field.number, bigInt_strkey]

theorem entry_decoded {β : Type} {read : Value X → Option β} {own : Field Address → Option β}
    (hread : ∀ f j, Decodes S f j → read (ofJson j) = own f) {payload : List (Field Address)}
    {js : List Json} (h : List.Forall₂ (Decodes S) payload js) (i : Nat) :
    (ofJsonAll js)[i]?.bind read = payload[i]?.bind own := by
  induction h generalizing i with
  | nil => simp [ofJsonAll]
  | cons hj _ ih =>
    cases i with
    | zero => simpa [ofJsonAll] using hread _ _ hj
    | succ i => simpa [ofJsonAll] using ih i

end Decoding

structure Stored (sdk : ScValSdk X) (S : Strkeys Address) (p : Published Address)
    (row : EventRow) : Prop where
  eventType : row.eventType = p.symbol
  topics : topicsOf sdk row = p.topics S
  data : ∃ js, parseJson row.data (.null : Value X) = .arr (ofJsonAll js) ∧
    List.Forall₂ (Decodes S) p.payload js

structure StoredData (X : Type) (S : Strkeys Address) (p : Published Address) (row : EventRow) :
    Prop where
  eventType : row.eventType = p.symbol
  data : ∃ js, parseJson row.data (.null : Value X) = .arr (ofJsonAll js) ∧
    List.Forall₂ (Decodes S) p.payload js

theorem stored_eventRow {P : Platform X} {S : Strkeys Address} {p : Published Address}
    {e : SorobanEvent X} (h : Carries P.toScValSdk S e p) (contract : ContractConfig)
    (index now : Nat) : Stored P.toScValSdk S p (eventRow P contract e index now) := by
  obtain ⟨w, hraw, htopics⟩ := h.stored
  obtain ⟨v, js, hv, hdecoded, hpayload⟩ := h.data
  exact ⟨eventType_stored h.topics, (topicsOf_stored w hraw).trans htopics,
    js, data_stored hv hdecoded, hpayload⟩

/-- No type of an event can be taken for an account. -/
theorem not_isAccount_of_pool {symbol : String} {kind : PoolEventType}
    (h : classifyFinancialEvent symbol = some kind) : isAccount symbol = false := by
  unfold classifyFinancialEvent at h
  split_ifs at h with hswap hadd hremove
  · obtain rfl | rfl := hswap <;> decide
  · obtain rfl | rfl := hadd <;> decide
  · obtain rfl | rfl := hremove <;> decide

theorem not_isAccount_of_lending {symbol : String} {kind : LendingEventType}
    (h : classifyLendingEvent symbol = some kind) : isAccount symbol = false := by
  have hsome : (classifyLendingEvent symbol).isSome = true := by
    rw [h]
    rfl
  rw [classifyLendingEvent, List.lookup_isSome_iff] at hsome
  obtain ⟨e, he, hsame⟩ := hsome
  rw [eq_of_beq hsame]
  clear hsame
  revert e
  decide

section Stored

variable {sdk : ScValSdk X} {S : Strkeys Address} {p : Published Address} {row : EventRow}

theorem accountsOf_filter (h : Stored sdk S p row) (hsymbol : isAccount p.symbol = false) :
    accountsOf sdk row = (p.accounts.map S.text).filter isAccount := by
  rw [accountsOf, h.topics, Published.topics, List.filterMap_cons, accountText, hsymbol]
  simp only [Bool.false_eq_true, if_false]
  rw [List.filterMap_map, List.filter_map, ← List.filterMap_eq_filter, List.map_filterMap]
  refine List.filterMap_congr fun a _ => ?_
  cases hacc : isAccount (S.text a) <;> simp [accountText, Option.guard, hacc]

theorem accountsOf_stored (h : Stored sdk S p row) (hsymbol : isAccount p.symbol = false)
    (haccounts : ∀ a ∈ p.accounts, isAccount (S.text a) = true) :
    accountsOf sdk row = p.accounts.map S.text := by
  rw [accountsOf_filter h hsymbol, List.filter_eq_self]
  intro text htext
  obtain ⟨a, ha, rfl⟩ := List.mem_map.mp htext
  exact haccounts a ha

variable {data : Value X}

def liquidityEvent (row : EventRow) (data : Value X) (kind : PoolEventType) (provider : String)
    (amountA amountB shares : Int) (tokenA tokenB : String)
    (reserveA reserveB totalShares : Int) (amplification : Option Nat) : PoolEvent X where
  id := row.eventId
  contractId := row.contractId
  contractName := row.contractName
  poolKind := poolKind row.contractName row.eventType
  eventType := kind
  account := some provider
  txHash := row.txHash
  ledger := row.ledger
  timestamp := row.timestamp
  amountARaw := some (toString amountA)
  amountBRaw := some (toString amountB)
  sharesRaw := some (toString shares)
  tokenIn := none
  tokenOut := none
  tokenA := some tokenA
  tokenB := some tokenB
  reserveAAfter := some (toString reserveA)
  reserveBAfter := some (toString reserveB)
  totalSharesAfter := some (toString totalShares)
  feeBps := none
  amplification := amplification.map fun n => toString (n : Int)
  data := data

def swapEvent (row : EventRow) (data : Value X) (trader : String) (amountIn amountOut : Int)
    (tokenIn tokenOut : String) (reserveA reserveB : Int) (feeBps : Nat) (totalShares : Int)
    (tokenA tokenB : String) (amplification : Option Nat) : PoolEvent X where
  id := row.eventId
  contractId := row.contractId
  contractName := row.contractName
  poolKind := poolKind row.contractName row.eventType
  eventType := .swap
  account := some trader
  txHash := row.txHash
  ledger := row.ledger
  timestamp := row.timestamp
  amountARaw := some (toString amountIn)
  amountBRaw := some (toString amountOut)
  sharesRaw := none
  tokenIn := some tokenIn
  tokenOut := some tokenOut
  tokenA := some tokenA
  tokenB := some tokenB
  reserveAAfter := some (toString reserveA)
  reserveBAfter := some (toString reserveB)
  totalSharesAfter := some (toString totalShares)
  feeBps := some feeBps
  amplification := amplification.map fun n => toString (n : Int)
  data := data

def recoveredCpmm (S : Strkeys Address) (row : EventRow) (data : Value X) :
    CpmmPool.Contract.Event Address → PoolEvent X
  | .addLiq provider amountA amountB shares tokenA tokenB reserveA reserveB totalShares =>
    liquidityEvent row data .addLiquidity (S.text provider) amountA amountB shares
      (S.text tokenA) (S.text tokenB) reserveA reserveB totalShares none
  | .rmLiq provider amountA amountB sharesIn tokenA tokenB reserveA reserveB totalShares =>
    liquidityEvent row data .removeLiquidity (S.text provider) amountA amountB sharesIn
      (S.text tokenA) (S.text tokenB) reserveA reserveB totalShares none
  | .swap trader amountIn amountOut tokenIn tokenOut reserveA reserveB feeBps totalShares tokenA
      tokenB =>
    swapEvent row data (S.text trader) amountIn amountOut (S.text tokenIn) (S.text tokenOut)
      reserveA reserveB feeBps totalShares (S.text tokenA) (S.text tokenB) none

def recoveredStableswap (S : Strkeys Address) (row : EventRow) (data : Value X) :
    Stableswap.Contract.Event Address → PoolEvent X
  | .ssAdd provider amountA amountB shares tokenA tokenB reserveA reserveB totalShares amp =>
    liquidityEvent row data .addLiquidity (S.text provider) amountA amountB shares
      (S.text tokenA) (S.text tokenB) reserveA reserveB totalShares (some amp)
  | .ssRm provider amountA amountB sharesIn tokenA tokenB reserveA reserveB totalShares amp =>
    liquidityEvent row data .removeLiquidity (S.text provider) amountA amountB sharesIn
      (S.text tokenA) (S.text tokenB) reserveA reserveB totalShares (some amp)
  | .ssSwap trader amountIn amountOutNet tokenIn tokenOut reserveA reserveB feeBps totalShares
      tokenA tokenB amp =>
    swapEvent row data (S.text trader) amountIn amountOutNet (S.text tokenIn) (S.text tokenOut)
      reserveA reserveB feeBps totalShares (S.text tokenA) (S.text tokenB) (some amp)

def poolEvent (S : Strkeys Address) (row : EventRow) (account : Option String)
    (kind : PoolEventType) (payload : List (Field Address)) : PoolEvent X where
  id := row.eventId
  contractId := row.contractId
  contractName := row.contractName
  poolKind := poolKind row.contractName row.eventType
  eventType := kind
  account := account
  txHash := row.txHash
  ledger := row.ledger
  timestamp := row.timestamp
  amountARaw := payload[0]?.bind Field.raw
  amountBRaw := payload[1]?.bind Field.raw
  sharesRaw := if kind = .swap then none else payload[2]?.bind Field.raw
  tokenIn := if kind = .swap then payload[2]?.bind (Field.strkey S) else none
  tokenOut := if kind = .swap then payload[3]?.bind (Field.strkey S) else none
  tokenA := if kind = .swap then payload[8]?.bind (Field.strkey S)
    else payload[3]?.bind (Field.strkey S)
  tokenB := if kind = .swap then payload[9]?.bind (Field.strkey S)
    else payload[4]?.bind (Field.strkey S)
  reserveAAfter := payload[if kind = .swap then 4 else 5]?.bind Field.raw
  reserveBAfter := payload[if kind = .swap then 5 else 6]?.bind Field.raw
  totalSharesAfter := payload[7]?.bind Field.raw
  feeBps := if kind = .swap then payload[6]?.bind Field.number else none
  amplification := if kind = .swap then payload[10]?.bind Field.raw
    else payload[8]?.bind Field.raw
  data := parseJson row.data .null

theorem parseFinancialEvent_data {kind : PoolEventType} (h : StoredData X S p row)
    (hkind : classifyFinancialEvent p.symbol = some kind) :
    parseFinancialEvent sdk row = some (poolEvent S row (accountOf sdk row) kind p.payload) := by
  obtain ⟨js, hdata, hpayload⟩ := h.data
  have hraw := entry_decoded (X := X) (fun _ _ => rawAmount_decoded) hpayload
  have haddress := entry_decoded (X := X) (fun _ _ => addressOf_decoded) hpayload
  have hnumber := entry_decoded (X := X) (fun _ _ => numeric_decoded) hpayload
  simp only [parseFinancialEvent, poolEvent, h.eventType, hkind, hdata, valuesOf,
    Value.entries?, Option.getD_some, hraw, haddress, hnumber, bind, Option.bind_some, pure]

theorem parseFinancialEvent_stored {kind : PoolEventType} (h : Stored sdk S p row)
    (hkind : classifyFinancialEvent p.symbol = some kind)
    (haccounts : ∀ a ∈ p.accounts, isAccount (S.text a) = true) :
    parseFinancialEvent sdk row =
      some (poolEvent S row (p.accounts.map S.text).head? kind p.payload) := by
  rw [parseFinancialEvent_data ⟨h.eventType, h.data⟩ hkind, accountOf,
    accountsOf_stored h (not_isAccount_of_pool hkind) haccounts]

theorem cpmm_recovered {event : CpmmPool.Contract.Event Address}
    (h : Stored sdk S (publishedCpmm event) row)
    (haccounts : ∀ a ∈ (publishedCpmm event).accounts, isAccount (S.text a) = true) :
    parseFinancialEvent sdk row =
      some (recoveredCpmm S row (parseJson row.data .null) event) := by
  cases event with
  | addLiq =>
    have hkind : classifyFinancialEvent "add_liq" = some .addLiquidity := by decide
    exact parseFinancialEvent_stored h hkind haccounts
  | rmLiq =>
    have hkind : classifyFinancialEvent "rm_liq" = some .removeLiquidity := by decide
    exact parseFinancialEvent_stored h hkind haccounts
  | swap =>
    have hkind : classifyFinancialEvent "swap" = some .swap := by decide
    exact parseFinancialEvent_stored h hkind haccounts

theorem stableswap_recovered {event : Stableswap.Contract.Event Address}
    (h : Stored sdk S (publishedStableswap event) row)
    (haccounts : ∀ a ∈ (publishedStableswap event).accounts, isAccount (S.text a) = true) :
    parseFinancialEvent sdk row =
      some (recoveredStableswap S row (parseJson row.data .null) event) := by
  cases event with
  | ssAdd =>
    have hkind : classifyFinancialEvent "ss_add" = some .addLiquidity := by decide
    exact parseFinancialEvent_stored h hkind haccounts
  | ssRm =>
    have hkind : classifyFinancialEvent "ss_rm" = some .removeLiquidity := by decide
    exact parseFinancialEvent_stored h hkind haccounts
  | ssSwap =>
    have hkind : classifyFinancialEvent "ss_swap" = some .swap := by decide
    exact parseFinancialEvent_stored h hkind haccounts

def positionEvent (row : EventRow) (data : Value X) (kind : LendingEventType)
    (account : String) (counterparty : Option String) (accounts : List String) (amount : Int)
    (secondary : Option Int) (p : UserPosition) (t : PoolTotals) : LendingEvent X where
  id := row.eventId
  contractId := row.contractId
  contractName := row.contractName
  eventType := kind
  account := some account
  counterparty := counterparty
  accounts := accounts
  txHash := row.txHash
  ledger := row.ledger
  timestamp := row.timestamp
  amountRaw := some (toString amount)
  secondaryAmountRaw := secondary.map toString
  position := some ⟨toString p.deposit, toString p.borrow, toString p.collateral⟩
  totals := ⟨some (toString t.supplies), some (toString t.borrows), some (toString t.reserves)⟩
  data := data

def accrualEvent (row : EventRow) (data : Value X)
    (interest reserveShare totalBorrows totalReserves : Int) : LendingEvent X where
  id := row.eventId
  contractId := row.contractId
  contractName := row.contractName
  eventType := .accrue
  account := none
  counterparty := none
  accounts := []
  txHash := row.txHash
  ledger := row.ledger
  timestamp := row.timestamp
  amountRaw := some (toString interest)
  secondaryAmountRaw := some (toString reserveShare)
  position := none
  totals := ⟨none, some (toString totalBorrows), some (toString totalReserves)⟩
  data := data

def recoveredLending (S : Strkeys Address) (row : EventRow) (data : Value X) :
    LendingPool.State.Event Address → LendingEvent X
  | .deposit src amount bTokens p t =>
    positionEvent row data .deposit (S.text src) none [S.text src] amount (some bTokens) p t
  | .withdraw src bTokenAmount underlying p t =>
    positionEvent row data .withdraw (S.text src) none [S.text src] bTokenAmount
      (some underlying) p t
  | .borrow src amount p t =>
    positionEvent row data .borrow (S.text src) none [S.text src] amount none p t
  | .repay src repayAmount p t =>
    positionEvent row data .repay (S.text src) none [S.text src] repayAmount none p t
  | .setCol user amount p t =>
    positionEvent row data .setCollateral (S.text user) none [S.text user] amount none p t
  | .liquidate liquidator borrower actualRepay collateralSeize p t =>
    positionEvent row data .liquidate (S.text borrower) (some (S.text liquidator))
      [S.text liquidator, S.text borrower] actualRepay (some collateralSeize) p t
  | .accrue interest reserveShare totalBorrows totalReserves _ =>
    accrualEvent row data interest reserveShare totalBorrows totalReserves
  | .depCol src amount p t =>
    positionEvent row data .depositCollateral (S.text src) none [S.text src] amount none p t
  | .wdCol src amount p t =>
    positionEvent row data .withdrawCollateral (S.text src) none [S.text src] amount none p t

/-- The fields of a lending event, read off the published data. -/
theorem parseLendingEvent_stored {kind : LendingEventType} (h : Stored sdk S p row)
    (hkind : classifyLendingEvent p.symbol = some kind)
    (haccounts : ∀ a ∈ p.accounts, isAccount (S.text a) = true) :
    ∃ values : List (Value X), (∀ i, rawAt values i = p.payload[i]?.bind Field.raw) ∧
      parseLendingEvent sdk row = some {
        id := row.eventId
        contractId := row.contractId
        contractName := row.contractName
        eventType := kind
        account := if kind = .liquidate then (p.accounts.map S.text)[1]?
          else (p.accounts.map S.text)[0]?
        counterparty := if kind = .liquidate then (p.accounts.map S.text)[0]? else none
        accounts := p.accounts.map S.text
        txHash := row.txHash
        ledger := row.ledger
        timestamp := row.timestamp
        amountRaw := rawAt values 0
        secondaryAmountRaw := (lendingFields values kind).1
        position := (lendingFields values kind).2.1
        totals := (lendingFields values kind).2.2
        data := parseJson row.data .null } := by
  obtain ⟨js, hdata, hpayload⟩ := h.data
  refine ⟨ofJsonAll js, entry_decoded (fun _ _ => rawAmount_decoded) hpayload, ?_⟩
  simp only [parseLendingEvent, h.eventType, hkind, hdata, valuesOf, Value.entries?,
    Option.getD_some, accountsOf_stored h (not_isAccount_of_lending hkind) haccounts, bind,
    Option.bind_some, pure]

theorem lending_recovered {event : LendingPool.State.Event Address}
    (h : Stored sdk S (publishedLending event) row)
    (haccounts : ∀ a ∈ (publishedLending event).accounts, isAccount (S.text a) = true) :
    parseLendingEvent sdk row =
      some (recoveredLending S row (parseJson row.data .null) event) := by
  cases event with
  | deposit =>
    have hkind : classifyLendingEvent "deposit" = some .deposit := by decide
    obtain ⟨values, hraw, hparse⟩ := parseLendingEvent_stored h hkind haccounts
    rw [hparse]
    simp only [lendingFields, positionAt, totalsAt, hraw]
    rfl
  | withdraw =>
    have hkind : classifyLendingEvent "withdraw" = some .withdraw := by decide
    obtain ⟨values, hraw, hparse⟩ := parseLendingEvent_stored h hkind haccounts
    rw [hparse]
    simp only [lendingFields, positionAt, totalsAt, hraw]
    rfl
  | borrow =>
    have hkind : classifyLendingEvent "borrow" = some .borrow := by decide
    obtain ⟨values, hraw, hparse⟩ := parseLendingEvent_stored h hkind haccounts
    rw [hparse]
    simp only [lendingFields, positionAt, totalsAt, hraw]
    rfl
  | repay =>
    have hkind : classifyLendingEvent "repay" = some .repay := by decide
    obtain ⟨values, hraw, hparse⟩ := parseLendingEvent_stored h hkind haccounts
    rw [hparse]
    simp only [lendingFields, positionAt, totalsAt, hraw]
    rfl
  | setCol =>
    have hkind : classifyLendingEvent "set_col" = some .setCollateral := by decide
    obtain ⟨values, hraw, hparse⟩ := parseLendingEvent_stored h hkind haccounts
    rw [hparse]
    simp only [lendingFields, positionAt, totalsAt, hraw]
    rfl
  | liquidate =>
    have hkind : classifyLendingEvent "liquidate" = some .liquidate := by decide
    obtain ⟨values, hraw, hparse⟩ := parseLendingEvent_stored h hkind haccounts
    rw [hparse]
    simp only [lendingFields, positionAt, totalsAt, hraw]
    rfl
  | accrue =>
    have hkind : classifyLendingEvent "accrue" = some .accrue := by decide
    obtain ⟨values, hraw, hparse⟩ := parseLendingEvent_stored h hkind haccounts
    rw [hparse]
    simp only [lendingFields, hraw]
    rfl
  | depCol =>
    have hkind : classifyLendingEvent "dep_col" = some .depositCollateral := by decide
    obtain ⟨values, hraw, hparse⟩ := parseLendingEvent_stored h hkind haccounts
    rw [hparse]
    simp only [lendingFields, positionAt, totalsAt, hraw]
    rfl
  | wdCol =>
    have hkind : classifyLendingEvent "wd_col" = some .withdrawCollateral := by decide
    obtain ⟨values, hraw, hparse⟩ := parseLendingEvent_stored h hkind haccounts
    rw [hparse]
    simp only [lendingFields, positionAt, totalsAt, hraw]
    rfl

end Stored

inductive Emitted (Address : Type) where
  | cpmm (event : CpmmPool.Contract.Event Address)
  | stableswap (event : Stableswap.Contract.Event Address)
  | lending (event : LendingPool.State.Event Address)

def published : Emitted Address → Published Address
  | .cpmm event => publishedCpmm event
  | .stableswap event => publishedStableswap event
  | .lending event => publishedLending event

/-- Every field is found in its own place. -/
def Recovered (sdk : ScValSdk X) (S : Strkeys Address) (row : EventRow) :
    Emitted Address → Prop
  | .cpmm event => parseFinancialEvent sdk row =
      some (recoveredCpmm S row (parseJson row.data .null) event)
  | .stableswap event => parseFinancialEvent sdk row =
      some (recoveredStableswap S row (parseJson row.data .null) event)
  | .lending event => parseLendingEvent sdk row =
      some (recoveredLending S row (parseJson row.data .null) event)

theorem payload_recovered {P : Platform X} {S : Strkeys Address} {e : SorobanEvent X}
    {event : Emitted Address} (h : Carries P.toScValSdk S e (published event))
    (haccounts : ∀ a ∈ (published event).accounts, isAccount (S.text a) = true)
    (contract : ContractConfig) (index now : Nat) :
    Recovered P.toScValSdk S (eventRow P contract e index now) event := by
  have hstored := stored_eventRow h contract index now
  cases event with
  | cpmm event => exact cpmm_recovered hstored haccounts
  | stableswap event => exact stableswap_recovered hstored haccounts
  | lending event => exact lending_recovered hstored haccounts

section Sample

def samplePlatform : Platform Empty where
  scValToNative x := nomatch x
  nativeOfXdr _ := none
  ownFields x := nomatch x
  toJson x := nomatch x
  sha256 := id
  dateParse _ := none

def sampleStrkeys : Strkeys (Fin 3) where
  text a := String.ofList ((if a = 0 then 'G' else 'C') ::
    List.replicate 55 (if a = 2 then 'B' else 'A'))
  valid := by decide +kernel

def sampleTrader : Fin 3 := 0

def sampleTokenA : Fin 3 := 1

def sampleTokenB : Fin 3 := 2

def sampleSwap : Emitted (Fin 3) :=
  .cpmm (.swap 0 1000 996 1 2 11000 9004 30 10000 1 2)

def sampleEvent : WireEvent where
  id := none
  ledger := some 7
  txHash := some "t1"
  transactionHash := none
  ledgerClosedAt := none
  topic := some [.obj [("symbol", .str "swap")], .obj [("address", .str (sampleStrkeys.text 0))]]
  topics := none
  value := some (.obj [("vec", .arr [.obj [("i128", .str "1000")], .obj [("i128", .str "996")],
    .obj [("address", .str (sampleStrkeys.text 1))],
    .obj [("address", .str (sampleStrkeys.text 2))], .obj [("i128", .str "11000")],
    .obj [("i128", .str "9004")], .obj [("u32", .num 30)], .obj [("i128", .str "10000")],
    .obj [("address", .str (sampleStrkeys.text 1))],
    .obj [("address", .str (sampleStrkeys.text 2))]])])

theorem carries_sample :
    Carries samplePlatform.toScValSdk sampleStrkeys sampleEvent.event (published sampleSwap) :=
  carries_wire [.str "1000", .str "996", .str (sampleStrkeys.text 1),
      .str (sampleStrkeys.text 2), .str "11000", .str "9004", .num 30, .str "10000",
      .str (sampleStrkeys.text 1), .str (sampleStrkeys.text 2)]
    rfl rfl rfl
    (.cons (.text 1000) (.cons (.text 996) (.cons (.strkey 1) (.cons (.strkey 2)
      (.cons (.text 11000) (.cons (.text 9004) (.cons (.number 30 (by decide))
        (.cons (.text 10000) (.cons (.strkey 1) (.cons (.strkey 2) .nil))))))))))

theorem payload_recovered_sample :
    Recovered samplePlatform.toScValSdk sampleStrkeys
      (eventRow samplePlatform ⟨"cpmm-pool", "C1"⟩ sampleEvent.event 0 0) sampleSwap :=
  payload_recovered carries_sample (by decide +kernel) ⟨"cpmm-pool", "C1"⟩ 0 0

end Sample

end Suban.Indexer.Payloads

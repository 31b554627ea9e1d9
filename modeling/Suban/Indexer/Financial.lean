import Mathlib.Data.List.Infix
import Mathlib.Data.List.Sort
import Suban.Basis.Numbers
import Suban.Indexer.Database
import Suban.Indexer.StoredJson

namespace Suban.Indexer.Financial

open Suban.Basis.Numbers Suban.Indexer.Database Suban.Indexer.Values Suban.Indexer.StoredJson

inductive PoolKind where
  | cpmm
  | stableswap
  | unknown
  deriving DecidableEq

inductive PoolEventType where
  | swap
  | addLiquidity
  | removeLiquidity
  deriving DecidableEq

inductive LendingEventType where
  | deposit
  | withdraw
  | borrow
  | repay
  | setCollateral
  | depositCollateral
  | withdrawCollateral
  | liquidate
  | accrue
  deriving DecidableEq

structure PoolEvent (X : Type) where
  id : String
  contractId : String
  contractName : String
  poolKind : PoolKind
  eventType : PoolEventType
  account : Option String
  txHash : String
  ledger : Nat
  timestamp : Int
  amountARaw : Option String
  amountBRaw : Option String
  sharesRaw : Option String
  tokenIn : Option String
  tokenOut : Option String
  tokenA : Option String
  tokenB : Option String
  reserveAAfter : Option String
  reserveBAfter : Option String
  totalSharesAfter : Option String
  feeBps : Option Int
  amplification : Option String
  data : Value X

structure PositionSnapshot where
  depositRaw : String
  borrowRaw : String
  collateralRaw : String
  deriving DecidableEq

structure Totals where
  totalSupplyRaw : Option String
  totalBorrowsRaw : Option String
  totalReservesRaw : Option String
  deriving DecidableEq

structure LendingEvent (X : Type) where
  id : String
  contractId : String
  contractName : String
  eventType : LendingEventType
  account : Option String
  counterparty : Option String
  accounts : List String
  txHash : String
  ledger : Nat
  timestamp : Int
  amountRaw : Option String
  secondaryAmountRaw : Option String
  position : Option PositionSnapshot
  totals : Totals
  data : Value X

variable {X : Type}

def isBase32 (c : Char) : Bool := decide ('A' ≤ c ∧ c ≤ 'Z' ∨ '2' ≤ c ∧ c ≤ '7')

/-- A letter and 55 digits in base 32. -/
def isStrkey (kind : Char) (text : String) : Bool :=
  match text.toList with
  | [] => false
  | c :: cs => c = kind && cs.length = 55 && cs.all isBase32

def isAccount (text : String) : Bool := isStrkey 'G' text

def isContract (text : String) : Bool := isStrkey 'C' text

def accountText : Value X → Option String
  | .str s => if isAccount s then some s else none
  | _ => none

def addressOf : Value X → Option String
  | .str s => if isAccount s || isContract s then some s else none
  | _ => none

def rawAmount : Value X → Option String
  | .bigint n => some (toString n)
  | .num n => some (toString n)
  | .str s => if (bigInt s).isSome then some s else none
  | _ => none

/-- Texts count as far as they are decimal. -/
def numeric : Value X → Option Int
  | .num n => some n
  | .bigint n => some n
  | .str s => bigInt s
  | _ => none

def includes (text part : String) : Bool := decide (part.toList <:+: text.toList)

def poolKind (contractName eventType : String) : PoolKind :=
  if includes contractName.toLower "stable" || "ss_".toList.isPrefixOf eventType.toList then
    .stableswap
  else if includes contractName.toLower "cpmm" || eventType = "swap" || eventType = "add_liq" ||
      eventType = "rm_liq" then
    .cpmm
  else .unknown

def classifyFinancialEvent (eventType : String) : Option PoolEventType :=
  if eventType = "swap" ∨ eventType = "ss_swap" then some .swap
  else if eventType = "add_liq" ∨ eventType = "ss_add" then some .addLiquidity
  else if eventType = "rm_liq" ∨ eventType = "ss_rm" then some .removeLiquidity
  else none

def classifyLendingEvent (eventType : String) : Option LendingEventType :=
  [("deposit", .deposit), ("withdraw", .withdraw), ("borrow", .borrow), ("repay", .repay),
    ("liquidate", .liquidate), ("accrue", .accrue), ("set_col", .setCollateral),
    ("dep_col", .depositCollateral), ("wd_col", .withdrawCollateral)].lookup eventType

def present (fields : List (String × Value X)) (key : String) : Option (Value X) :=
  match Value.field fields key with
  | none | some .null => none
  | some value => some value

section Projection

variable (sdk : ScValSdk X)

def topicsOf (row : EventRow) : List (Value X) :=
  match parseJson (some row.raw) .null with
  | .obj fields =>
    match (present fields "topic").orElse fun _ => Value.field fields "topics" with
    | some (.arr topics) => topics.map (decodeScVal sdk)
    | _ => []
  | _ => []

def accountsOf (row : EventRow) : List String := (topicsOf sdk row).filterMap accountText

def accountOf (row : EventRow) : Option String := (accountsOf sdk row).head?

def valuesOf (data : Value X) : List (Value X) := (Value.entries? data).getD []

def parseFinancialEvent (row : EventRow) : Option (PoolEvent X) := do
  let normalized ← classifyFinancialEvent row.eventType
  let data := parseJson row.data .null
  let values := valuesOf data
  let raw (i : Nat) := values[i]?.bind rawAmount
  let address (i : Nat) := values[i]?.bind addressOf
  let isSwap := normalized = .swap
  pure {
    id := row.eventId
    contractId := row.contractId
    contractName := row.contractName
    poolKind := poolKind row.contractName row.eventType
    eventType := normalized
    account := accountOf sdk row
    txHash := row.txHash
    ledger := row.ledger
    timestamp := row.timestamp
    amountARaw := raw 0
    amountBRaw := raw 1
    sharesRaw := if isSwap then none else raw 2
    tokenIn := if isSwap then address 2 else none
    tokenOut := if isSwap then address 3 else none
    tokenA := if isSwap then address 8 else address 3
    tokenB := if isSwap then address 9 else address 4
    reserveAAfter := raw (if isSwap then 4 else 5)
    reserveBAfter := raw (if isSwap then 5 else 6)
    totalSharesAfter := raw 7
    feeBps := if isSwap then values[6]?.bind numeric else none
    amplification := if isSwap then raw 10 else raw 8
    data := data }

def rawAt (values : List (Value X)) (i : Nat) : Option String := values[i]?.bind rawAmount

def positionAt (values : List (Value X)) (depositIndex : Nat) : Option PositionSnapshot := do
  let deposit ← rawAt values depositIndex
  let borrow ← rawAt values (depositIndex + 1)
  let collateral ← rawAt values (depositIndex + 2)
  pure ⟨deposit, borrow, collateral⟩

def totalsAt (values : List (Value X)) (supplyIndex : Nat) : Totals where
  totalSupplyRaw := rawAt values supplyIndex
  totalBorrowsRaw := rawAt values (supplyIndex + 1)
  totalReservesRaw := rawAt values (supplyIndex + 2)

def lendingFields (values : List (Value X)) :
    LendingEventType → Option String × Option PositionSnapshot × Totals
  | .deposit | .withdraw | .liquidate =>
    (rawAt values 1, positionAt values 2, totalsAt values 5)
  | .borrow | .repay | .setCollateral | .depositCollateral | .withdrawCollateral =>
    (none, positionAt values 1, totalsAt values 4)
  | .accrue => (rawAt values 1, none, ⟨none, rawAt values 2, rawAt values 3⟩)

/-- The position belongs to the account. In a liquidation that is the borrower,
whom the event names after the liquidator. -/
def parseLendingEvent (row : EventRow) : Option (LendingEvent X) := do
  let normalized ← classifyLendingEvent row.eventType
  let data := parseJson row.data .null
  let values := valuesOf data
  let accounts := accountsOf sdk row
  let (secondary, position, totals) := lendingFields values normalized
  pure {
    id := row.eventId
    contractId := row.contractId
    contractName := row.contractName
    eventType := normalized
    account := if normalized = .liquidate then accounts[1]? else accounts[0]?
    counterparty := if normalized = .liquidate then accounts[0]? else none
    accounts := accounts
    txHash := row.txHash
    ledger := row.ledger
    timestamp := row.timestamp
    amountRaw := rawAt values 0
    secondaryAmountRaw := secondary
    position := position
    totals := totals
    data := data }

end Projection

/-- The newest row first; of rows with one timestamp the one that was stored
last. -/
def newestFirst (rows : List EventRow) : List EventRow :=
  rows.reverse.insertionSort fun a b => b.timestamp ≤ a.timestamp

def eventRows (rows : List EventRow) (clause : EventRow → Bool) (limit offset : Nat) :
    List EventRow :=
  ((newestFirst (rows.filter clause)).drop offset).take limit

/-- Vaults emit events of the same types. -/
def isLending (row : EventRow) : Bool :=
  includes row.contractName.toLower "lending" && (classifyLendingEvent row.eventType).isSome

def textOrNull : Option String → Value X
  | some text => .str text
  | none => .null

def LendingEventType.name : LendingEventType → String
  | .deposit => "deposit"
  | .withdraw => "withdraw"
  | .borrow => "borrow"
  | .repay => "repay"
  | .setCollateral => "set_collateral"
  | .depositCollateral => "deposit_collateral"
  | .withdrawCollateral => "withdraw_collateral"
  | .liquidate => "liquidate"
  | .accrue => "accrue"

def servedPosition : Option PositionSnapshot → Value X
  | some p => .obj [("deposit_raw", .str p.depositRaw), ("borrow_raw", .str p.borrowRaw),
      ("collateral_raw", .str p.collateralRaw)]
  | none => .null

def servedTotals (t : Totals) : Value X :=
  .obj [("total_supply_raw", textOrNull t.totalSupplyRaw),
    ("total_borrows_raw", textOrNull t.totalBorrowsRaw),
    ("total_reserves_raw", textOrNull t.totalReservesRaw)]

def served (e : LendingEvent X) : Value X :=
  .obj [("id", .str e.id), ("contract_id", .str e.contractId),
    ("contract_name", .str e.contractName),
    ("event_type", .str (LendingEventType.name e.eventType)),
    ("account", textOrNull e.account), ("counterparty", textOrNull e.counterparty),
    ("accounts", .arr (e.accounts.map .str)), ("tx_hash", .str e.txHash),
    ("ledger", .num e.ledger), ("timestamp", .num e.timestamp),
    ("amount_raw", textOrNull e.amountRaw),
    ("secondary_amount_raw", textOrNull e.secondaryAmountRaw),
    ("position", servedPosition e.position), ("totals", servedTotals e.totals),
    ("data", e.data)]

end Suban.Indexer.Financial

import Mathlib.Data.List.Sort
import Mathlib.Data.Rat.Floor
import Suban.Basis.Numbers
import Suban.Basis.Timestamps
import Suban.Indexer.Database

namespace Suban.Indexer.TimeFilters

open Suban.Basis.Numbers Suban.Basis.Timestamps Suban.Indexer.Database

/-- What a client asks for by name. -/
abbrev Query := String → Option String

/-- The rows that are read for the lists of transactions and operations. Which
accounts took part is kept next to them. -/
structure History where
  transactions : List TransactionRow
  operations : List OperationRow
  transactionAccounts : List (String × String)
  operationAccounts : List (String × String)

structure QueryPage (α : Type) where
  rows : List α
  total : Nat
  limit : Nat
  offset : Nat

def isWhitespace (c : Char) : Bool :=
  decide (c.toNat ∈ [9, 10, 11, 12, 13, 32, 160, 5760, 8232, 8233, 8239, 8287, 12288, 65279] ∨
    8192 ≤ c.toNat ∧ c.toNat ≤ 8202)

def leadingNumber (cs : List Char) : Option Nat :=
  let digits := cs.takeWhile Char.isDigit
  if digits = [] then none
  else
    let n := nearest (Nat.ofDigitChars 10 digits 0)
    if n < 2 ^ 1024 then some n else none

def parseFinite (text : String) : Option Int :=
  match text.toList.dropWhile isWhitespace with
  | '-' :: cs => (leadingNumber cs).map fun n => -(n : Int)
  | '+' :: cs => (leadingNumber cs).map Int.ofNat
  | cs => (leadingNumber cs).map Int.ofNat

def maxLimit : Int := 1000

/-- A text that is empty counts as missing. -/
def textOr (value : Option String) (fallback : String) : String :=
  match value with
  | none | some "" => fallback
  | some text => text

def limitOf (query : Query) : Nat :=
  (min maxLimit (max 1 ((parseFinite (textOr (query "limit") "100")).getD 100))).toNat

def offsetOf (query : Query) : Nat :=
  (max 0 ((parseFinite (textOr (query "offset") "0")).getD 0)).toNat

section Filters

variable (dateParse : String → Option TimeValue)

def isoOf (value : Option String) : Option String :=
  match value with
  | none | some "" => none
  | some text => (dateParse text).map toISOString

variable {α : Type}

/-- The filters that stand for `from` and `to`. Texts are compared by their bytes. -/
def timeFilters (createdAt : α → String) (query : Query) : List (α → Bool) :=
  (isoOf dateParse (query "from")).toList.map (fun start row => decide (start ≤ createdAt row)) ++
    (isoOf dateParse (query "to")).toList.map (fun stop row => decide (createdAt row ≤ stop))

def accountFilter (accounts : List (String × String)) (key : α → String) (account : String) :
    List (α → Bool) :=
  if account = "" then [] else [fun row => (key row, account) ∈ accounts]

def ledgerFilter (ledger : α → Nat) (query : Query) : List (α → Bool) :=
  (parseFinite (textOr (query "ledger") "")).toList.map fun n row => decide ((ledger row : Int) = n)

def textFilter (field : α → String) (value : Option String) : List (α → Bool) :=
  match textOr value "" with
  | "" => []
  | text => [fun row => field row = text]

def select (rows : List α) (filters : List (α → Bool)) : List α :=
  rows.filter fun row => filters.all fun filter => filter row

/-- The newest ledgers first, and within a ledger the last of the keys. -/
def newestFirst (ledger : α → Nat) (key : α → String) (rows : List α) : List α :=
  rows.insertionSort fun a b => ledger b < ledger a ∨ ledger a = ledger b ∧ key b ≤ key a

def page (rows : List α) (limit offset : Nat) : QueryPage α where
  rows := (rows.drop offset).take limit
  total := rows.length
  limit := limit
  offset := offset

def transactionFilters (h : History) (query : Query) (accountId : Option String) :
    List (TransactionRow → Bool) :=
  accountFilter h.transactionAccounts TransactionRow.hash
      (textOr accountId (textOr (query "account") "")) ++
    ledgerFilter TransactionRow.ledger query ++
    (query "successful").toList.map
      fun text (row : TransactionRow) => decide (row.successful = (text == "true"))

def operationFilters (h : History) (query : Query) (accountId : Option String) :
    List (OperationRow → Bool) :=
  accountFilter h.operationAccounts OperationRow.id
      (textOr accountId (textOr (query "account") "")) ++
    textFilter OperationRow.txHash (query "tx_hash") ++ ledgerFilter OperationRow.ledger query ++
    textFilter OperationRow.type (query "type")

def selectTransactions (h : History) (query : Query) (accountId : Option String) :
    List TransactionRow :=
  newestFirst TransactionRow.ledger TransactionRow.hash
    (select h.transactions (transactionFilters h query accountId ++
      timeFilters dateParse TransactionRow.createdAt query))

def selectOperations (h : History) (query : Query) (accountId : Option String) :
    List OperationRow :=
  newestFirst OperationRow.ledger OperationRow.id
    (select h.operations (operationFilters h query accountId ++
      timeFilters dateParse OperationRow.createdAt query))

def queryTransactions (h : History) (query : Query) (accountId : Option String) :
    QueryPage TransactionRow :=
  page (selectTransactions dateParse h query accountId) (limitOf query) (offsetOf query)

def queryOperations (h : History) (query : Query) (accountId : Option String) :
    QueryPage OperationRow :=
  page (selectOperations dateParse h query accountId) (limitOf query) (offsetOf query)

end Filters

end Suban.Indexer.TimeFilters

import Suban.Basis.Pages
import Suban.Indexer.Financial
import Suban.Indexer.TimeFilters

namespace Suban.Indexer.Paging

open Suban.Basis.Pages Suban.Basis.Rows Suban.Basis.Timestamps Suban.Indexer.Database
open Suban.Indexer.Financial (PoolEvent LendingEvent classifyFinancialEvent classifyLendingEvent
  parseFinancialEvent parseLendingEvent eventRows isLending)
open Suban.Indexer.TimeFilters (Query History textOr textFilter parseFinite limitOf maxLimit select
  selectTransactions selectOperations)
open Suban.Indexer.Values

/-- The tables that lists are read from. -/
structure Data where
  host : Host
  transactionAccounts : List (String × String)
  operationAccounts : List (String × String)

def Data.history (d : Data) : History where
  transactions := d.host.transactions
  operations := d.host.operations
  transactionAccounts := d.transactionAccounts
  operationAccounts := d.operationAccounts

inductive Write where
  | statement (c : Statement)
  | transactionAccount (txHash accountId : String)
  | operationAccount (operationId accountId : String)

def write (d : Data) : Write → Data
  | .statement c => { d with host := (exec c d.host).2 }
  | .transactionAccount txHash accountId =>
    { d with transactionAccounts := insertOrIgnore id (txHash, accountId) d.transactionAccounts }
  | .operationAccount operationId accountId =>
    { d with operationAccounts := insertOrIgnore id (operationId, accountId) d.operationAccounts }

/-- The tables at each request of a client, with what is written in between. -/
def states (d : Data) : List (List Write) → List Data
  | [] => [d]
  | ws :: rest => d :: states (ws.foldl write d) rest

/-- How JavaScript reads a text as a number, where it is finite, and as a date. -/
structure Reading where
  number : String → Option ℚ
  dateParse : String → Option TimeValue

variable {X : Type} (sdk : ScValSdk X) (R : Reading) (query : Query)

def epochOf (value : Option String) : Option Int :=
  match value with
  | none | some "" => none
  | some text =>
    match R.number text with
    | some x =>
      if '-' ∈ text.toList then (R.dateParse text).map fun t => t.1 / 1000 else some ⌊x⌋
    | none => (R.dateParse text).map fun t => t.1 / 1000

/-- What the path of a request for events says already. -/
structure Overrides where
  contractId : Option String
  eventType : Option String
  ledger : Option Int

def eventFilters (overrides : Overrides) : List (EventRow → Bool) :=
  textFilter EventRow.contractId
      (textOr overrides.contractId (textOr (query "contract") (textOr (query "contract_id") ""))) ++
    textFilter EventRow.eventType
      (textOr overrides.eventType (textOr (query "type") (textOr (query "event_type") ""))) ++
    overrides.ledger.toList.map (fun n row => decide ((row.ledger : Int) = n)) ++
    (parseFinite (textOr (query "ledger_from") "")).toList.map
      (fun n row => decide (n ≤ row.ledger)) ++
    (parseFinite (textOr (query "ledger_to") "")).toList.map
      (fun n row => decide ((row.ledger : Int) ≤ n)) ++
    (epochOf R (query "from")).toList.map (fun n row => decide (n ≤ row.timestamp)) ++
    (epochOf R (query "to")).toList.map (fun n row => decide (row.timestamp ≤ n))

/-- The newest ledgers first, and within a ledger the row that was stored last. -/
def byLedger (rows : List EventRow) : List EventRow :=
  rows.reverse.insertionSort fun a b => b.ledger ≤ a.ledger

def selectEvents (rows : List EventRow) (overrides : Overrides) : List EventRow :=
  byLedger (select rows (eventFilters R query overrides))

def selectLedgers (rows : List LedgerRow) : List LedgerRow :=
  rows.insertionSort fun a b => b.sequence ≤ a.sequence

/-- The lists that are served page by page. -/
inductive Route where
  | trades (contractId : String)
  | liquidity (contractId : String)
  | lendingEvents
  | events (overrides : Overrides)
  | transactions (accountId : Option String)
  | operations (accountId : Option String)
  | ledgers

inductive Item (X : Type) where
  | pool (event : PoolEvent X)
  | lending (event : LendingEvent X)
  | event (row : EventRow)
  | transaction (row : TransactionRow)
  | operation (row : OperationRow)
  | ledger (row : LedgerRow)

def isTrade (contractId : String) (row : EventRow) : Bool :=
  row.contractId = contractId && (row.eventType = "swap" || row.eventType = "ss_swap")

def isLiquidity (contractId : String) (row : EventRow) : Bool :=
  row.contractId = contractId && (row.eventType = "add_liq" || row.eventType = "ss_add" ||
    row.eventType = "rm_liq" || row.eventType = "ss_rm")

/-- The financial lists take the end of the page from its limit. -/
def financialPage (parse : EventRow → Option (Item X)) (clause : EventRow → Bool) (limit : Nat)
    (rows : List EventRow) (offset : Nat) : List (Item X) × Bool :=
  ((eventRows rows clause limit offset).filterMap parse,
    decide (offset + limit < (rows.filter clause).length))

/-- The other lists take it from the rows that are on it. -/
def listPage {α : Type} (item : α → Item X) (limit : Nat) (rows : List α) (offset : Nat) :
    List (Item X) × Bool :=
  let result := TimeFilters.page rows limit offset
  (result.rows.map item, decide (result.offset + result.rows.length < result.total))

def parsePool (row : EventRow) : Option (Item X) := (parseFinancialEvent sdk row).map .pool

def parseLending (row : EventRow) : Option (Item X) := (parseLendingEvent sdk row).map .lending

def serve (route : Route) (d : Data) : Nat → List (Item X) × Bool :=
  let limit := limitOf query
  match route with
  | .trades contractId =>
    financialPage (parsePool sdk) (isTrade contractId) limit d.host.events
  | .liquidity contractId =>
    financialPage (parsePool sdk) (isLiquidity contractId) limit d.host.events
  | .lendingEvents => financialPage (parseLending sdk) isLending limit d.host.events
  | .events overrides => listPage .event limit (selectEvents R query d.host.events overrides)
  | .transactions accountId =>
    listPage .transaction limit (selectTransactions R.dateParse d.history query accountId)
  | .operations accountId =>
    listPage .operation limit (selectOperations R.dateParse d.history query accountId)
  | .ledgers => listPage .ledger limit (selectLedgers d.host.ledgers)

def financialList (parse : EventRow → Option (Item X)) (clause : EventRow → Bool)
    (rows : List EventRow) : List (Item X) :=
  (Financial.newestFirst (rows.filter clause)).filterMap parse

def listed : Route → Data → List (Item X)
  | .trades contractId, d => financialList (parsePool sdk) (isTrade contractId) d.host.events
  | .liquidity contractId, d =>
    financialList (parsePool sdk) (isLiquidity contractId) d.host.events
  | .lendingEvents, d => financialList (parseLending sdk) isLending d.host.events
  | .events overrides, d => (selectEvents R query d.host.events overrides).map .event
  | .transactions accountId, d =>
    (selectTransactions R.dateParse d.history query accountId).map .transaction
  | .operations accountId, d =>
    (selectOperations R.dateParse d.history query accountId).map .operation
  | .ledgers, d => (selectLedgers d.host.ledgers).map .ledger

section Pages

variable {parse : EventRow → Option (Item X)} {clause : EventRow → Bool} {limit : Nat}

theorem financialPage_eq (hparse : ∀ row, clause row = true → (parse row).isSome)
    (rows : List EventRow) (offset : Nat) :
    financialPage parse clause limit rows offset =
      (((financialList parse clause rows).drop offset).take limit,
        decide (offset + limit < (financialList parse clause rows).length)) := by
  have hall : ∀ row ∈ Financial.newestFirst (rows.filter clause), (parse row).isSome := by
    intro row hrow
    have hmem := List.mem_reverse.mp ((List.mem_insertionSort _).mp hrow)
    exact hparse row (List.mem_filter.mp hmem).2
  have hlength : (financialList parse clause rows).length = (rows.filter clause).length := by
    rw [financialList, length_filterMap_of_isSome hall, Financial.newestFirst,
      List.length_insertionSort, List.length_reverse]
  rw [financialPage, hlength, eventRows, filterMap_page hall]
  rfl

theorem listPage_eq {α : Type} (item : α → Item X) (rows : List α) (offset : Nat) :
    listPage item limit rows offset =
      (((rows.map item).drop offset).take limit,
        decide (offset + limit < (rows.map item).length)) := by
  have hmore : offset + ((rows.drop offset).take limit).length < rows.length ↔
      offset + limit < rows.length := by
    rw [List.length_take, List.length_drop]
    omega
  rw [listPage, List.length_map, ← List.map_drop, ← List.map_take, ← decide_eq_decide.mpr hmore]
  rfl

theorem isSome_parsePool {row : EventRow} (h : (classifyFinancialEvent row.eventType).isSome) :
    (parsePool sdk row).isSome := by
  obtain ⟨kind, hkind⟩ := Option.isSome_iff_exists.mp h
  simp [parsePool, parseFinancialEvent, hkind]

theorem isSome_trade {contractId : String} {row : EventRow} (h : isTrade contractId row = true) :
    (parsePool sdk row).isSome := by
  refine isSome_parsePool sdk ?_
  have htype : row.eventType = "swap" ∨ row.eventType = "ss_swap" := by
    simpa using (Bool.and_eq_true_iff.mp h).2
  obtain heq | heq := htype <;> rw [heq] <;> decide

theorem isSome_liquidity {contractId : String} {row : EventRow}
    (h : isLiquidity contractId row = true) : (parsePool sdk row).isSome := by
  refine isSome_parsePool sdk ?_
  have htype : ((row.eventType = "add_liq" ∨ row.eventType = "ss_add") ∨
      row.eventType = "rm_liq") ∨ row.eventType = "ss_rm" := by
    simpa using (Bool.and_eq_true_iff.mp h).2
  obtain ((heq | heq) | heq) | heq := htype <;> rw [heq] <;> decide

theorem isSome_lending {row : EventRow} (h : isLending row = true) :
    (parseLending sdk row).isSome := by
  obtain ⟨kind, hkind⟩ := Option.isSome_iff_exists.mp (Bool.and_eq_true_iff.mp h).2
  simp [parseLending, parseLendingEvent, hkind]

theorem serve_eq (route : Route) (d : Data) (offset : Nat) :
    serve sdk R query route d offset =
      (((listed sdk R query route d).drop offset).take (limitOf query),
        decide (offset + limitOf query < (listed sdk R query route d).length)) := by
  cases route with
  | trades contractId => exact financialPage_eq (fun _ h => isSome_trade sdk h) _ _
  | liquidity contractId => exact financialPage_eq (fun _ h => isSome_liquidity sdk h) _ _
  | lendingEvents => exact financialPage_eq (fun _ h => isSome_lending sdk h) _ _
  | events | transactions | operations | ledgers => exact listPage_eq _ _ _

theorem paged_serve (route : Route) :
    Paged (serve sdk R query route) (listed sdk R query route) (limitOf query) where
  rows d offset := by rw [serve_eq]
  more d offset := by rw [serve_eq, decide_eq_true_eq]

end Pages

section Growth

variable {d e f : Data}

/-- Rows that are there stay there, and in their order. -/
structure Grown (d e : Data) : Prop where
  events : d.host.events.Sublist e.host.events
  transactions : d.host.transactions.Sublist e.host.transactions
  operations : d.host.operations.Sublist e.host.operations
  ledgers : d.host.ledgers.Sublist e.host.ledgers
  transactionAccounts : d.transactionAccounts ⊆ e.transactionAccounts
  operationAccounts : d.operationAccounts ⊆ e.operationAccounts

theorem grown_refl (d : Data) : Grown d d :=
  ⟨.refl _, .refl _, .refl _, .refl _, List.Subset.refl _, List.Subset.refl _⟩

theorem Grown.trans (h : Grown d e) (h' : Grown e f) : Grown d f :=
  ⟨h.events.trans h'.events, h.transactions.trans h'.transactions,
    h.operations.trans h'.operations, h.ledgers.trans h'.ledgers,
    List.Subset.trans h.transactionAccounts h'.transactionAccounts,
    List.Subset.trans h.operationAccounts h'.operationAccounts⟩

theorem sublist_insertAll {α κ : Type} [DecidableEq κ] (key : α → κ) (rows table : List α) :
    table.Sublist (insertAll key rows table) := by
  obtain ⟨added, -, heq⟩ := insertAll_eq_append key rows table
  rw [heq]
  exact List.sublist_append_left table added

theorem grown_exec (c : Statement) (d : Data) : Grown d { d with host := (exec c d.host).2 } := by
  have hsame := grown_refl d
  cases c with
  | insertEvent row =>
    exact { hsame with events := sublist_insertAll EventRow.eventId [row] d.host.events }
  | writeLedger ledger transactions =>
    exact { hsame with
      ledgers := sublist_insertAll LedgerRow.sequence [ledger] d.host.ledgers
      transactions := sublist_insertAll _ _ _
      operations := sublist_insertAll _ _ _ }
  | _ =>
    exact ⟨hsame.events, hsame.transactions, hsame.operations, hsame.ledgers,
      hsame.transactionAccounts, hsame.operationAccounts⟩

theorem grown_write (d : Data) (w : Write) : Grown d (write d w) := by
  cases w with
  | statement c => exact grown_exec c d
  | transactionAccount txHash accountId =>
    exact { grown_refl d with transactionAccounts := subset_insertOrIgnore }
  | operationAccount operationId accountId =>
    exact { grown_refl d with operationAccounts := subset_insertOrIgnore }

theorem grown_writes (ws : List Write) (d : Data) : Grown d (ws.foldl write d) := by
  induction ws generalizing d with
  | nil => exact grown_refl d
  | cons w ws ih => exact (grown_write d w).trans (ih (write d w))

theorem grown_of_mem_states {writes : List (List Write)} (he : e ∈ states d writes) :
    Grown d e := by
  induction writes generalizing d with
  | nil =>
    rw [List.mem_singleton.mp he]
    exact grown_refl d
  | cons ws rest ih =>
    obtain rfl | he := List.mem_cons.mp he
    · exact grown_refl e
    · exact (grown_writes ws d).trans (ih he)

theorem insertionSort_desc_sublist {α κ : Type} [LinearOrder κ] (key : α → κ)
    {rows later : List α} (h : rows.Sublist later) :
    (rows.insertionSort fun a b => key b ≤ key a).Sublist
      (later.insertionSort fun a b => key b ≤ key a) :=
  insertionSort_sublist (fun a b => le_total (key b) (key a)) (fun _ _ _ hab hbc => hbc.trans hab) h

theorem financialList_sublist (parse : EventRow → Option (Item X)) (clause : EventRow → Bool)
    {rows later : List EventRow} (h : rows.Sublist later) :
    (financialList parse clause rows).Sublist (financialList parse clause later) := by
  have hsorted := insertionSort_desc_sublist EventRow.timestamp (h.filter clause).reverse
  exact hsorted.filterMap parse

theorem select_sublist {α : Type} {rows later : List α} {filters filters' : List (α → Bool)}
    (h : rows.Sublist later)
    (hpass : ∀ row, filters.all (fun p => p row) = true → filters'.all (fun p => p row) = true) :
    (select rows filters).Sublist (select later filters') :=
  (List.monotone_filter_right rows hpass).trans (h.filter _)

theorem newestFirst_sublist {α : Type} (ledger : α → Nat) (key : α → String) {rows later : List α}
    (h : rows.Sublist later) :
    (TimeFilters.newestFirst ledger key rows).Sublist
      (TimeFilters.newestFirst ledger key later) := by
  refine insertionSort_sublist (fun a b => ?_) (fun a b c hab hbc => ?_) h
  · obtain hlt | heq | hgt := Nat.lt_trichotomy (ledger a) (ledger b)
    · exact .inr (.inl hlt)
    · exact (le_total (key b) (key a)).imp (fun hk => .inr ⟨heq, hk⟩)
        (fun hk => .inr ⟨heq.symm, hk⟩)
    · exact .inl (.inl hgt)
  · obtain hab | ⟨hab, hk⟩ := hab
    · obtain hbc | ⟨hbc, -⟩ := hbc
      · exact .inl (hbc.trans hab)
      · exact .inl (hbc ▸ hab)
    · obtain hbc | ⟨hbc, hk'⟩ := hbc
      · exact .inl (hab ▸ hbc)
      · exact .inr ⟨hab.trans hbc, hk'.trans hk⟩

theorem accountFilter_mono {α : Type} {accounts later : List (String × String)}
    (h : accounts ⊆ later) (key : α → String) (account : String)
    (rest : List (α → Bool)) (row : α)
    (hrow : (TimeFilters.accountFilter accounts key account ++ rest).all (fun p => p row) = true) :
    (TimeFilters.accountFilter later key account ++ rest).all (fun p => p row) = true := by
  unfold TimeFilters.accountFilter at hrow ⊢
  split
  next haccount => rwa [if_pos haccount] at hrow
  next haccount =>
    rw [if_neg haccount] at hrow
    simp only [List.singleton_append, List.all_cons, Bool.and_eq_true, decide_eq_true_eq] at hrow ⊢
    exact ⟨h hrow.1, hrow.2⟩

theorem listed_sublist (h : Grown d e) (route : Route) :
    (listed sdk R query route d).Sublist (listed sdk R query route e) := by
  cases route with
  | trades contractId => exact financialList_sublist _ _ h.events
  | liquidity contractId => exact financialList_sublist _ _ h.events
  | lendingEvents => exact financialList_sublist _ _ h.events
  | events overrides =>
    have hselect : (select d.host.events (eventFilters R query overrides)).Sublist
        (select e.host.events (eventFilters R query overrides)) :=
      select_sublist h.events fun _ => id
    exact (insertionSort_desc_sublist EventRow.ledger hselect.reverse).map _
  | transactions accountId =>
    refine (newestFirst_sublist _ _ (select_sublist h.transactions fun row hrow => ?_)).map _
    rw [TimeFilters.transactionFilters, List.append_assoc, List.append_assoc] at hrow ⊢
    exact accountFilter_mono h.transactionAccounts _ _ _ row hrow
  | operations accountId =>
    refine (newestFirst_sublist _ _ (select_sublist h.operations fun row hrow => ?_)).map _
    rw [TimeFilters.operationFilters, List.append_assoc, List.append_assoc,
      List.append_assoc] at hrow ⊢
    exact accountFilter_mono h.operationAccounts _ _ _ row hrow
  | ledgers =>
    exact (insertionSort_desc_sublist LedgerRow.sequence h.ledgers).map _

theorem growing_states (route : Route) (d : Data) (writes : List (List Write)) :
    Growing (listed sdk R query route) (states d writes) := by
  induction writes generalizing d with
  | nil => exact List.pairwise_singleton _ _
  | cons ws rest ih =>
    refine List.pairwise_cons.mpr ⟨fun e he => ?_, ih _⟩
    exact listed_sublist sdk R query ((grown_writes ws d).trans (grown_of_mem_states he)) route

end Growth

theorem limitOf_bounds : 1 ≤ limitOf query ∧ limitOf query ≤ 1000 := by
  unfold limitOf maxLimit
  omega

/-- Whatever is written between the requests of a client that reads a list page
by page: what it gets is in the list, and at the end it has everything that was
in the list when it began, in order; where nothing was written it has each entry
once. It gets to an end with enough requests for what there is. -/
theorem walk_complete (route : Route) (d : Data) (writes : List (List Write)) :
    (1 ≤ limitOf query ∧ limitOf query ≤ 1000) ∧
      Walked (listed sdk R query route) (limitOf query) (states d writes)
        (walk (serve sdk R query route) (limitOf query) 0 (states d writes)) :=
  ⟨limitOf_bounds query,
    walked (paged_serve sdk R query route) (growing_states sdk R query route d writes)⟩

end Suban.Indexer.Paging

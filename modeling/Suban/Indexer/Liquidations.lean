import Suban.Indexer.Payloads

namespace Suban.Indexer.Liquidations

open Suban.Basis.JsonText (Json)
open Suban.Basis.Numbers Suban.Indexer.Database Suban.Indexer.Values Suban.Indexer.Events
open Suban.Indexer.StoredJson Suban.Indexer.Financial Suban.Indexer.Wire Suban.Indexer.Payloads
open LendingPool.State (UserPosition PoolTotals)

variable {Address X : Type} {sdk : ScValSdk X} {S : Strkeys Address} {row : EventRow}
variable {liquidator borrower : Address} {repaid seized : Int} {p : UserPosition} {t : PoolTotals}

theorem parseLendingEvent_liquidate
    (h : Stored sdk S (publishedLending (.liquidate liquidator borrower repaid seized p t)) row) :
    ∃ e, parseLendingEvent sdk row = some e ∧
      e.account = ([S.text liquidator, S.text borrower].filter isAccount)[1]? ∧
      e.position = some ⟨toString p.deposit, toString p.borrow, toString p.collateral⟩ := by
  obtain ⟨js, hdata, hpayload⟩ := h.data
  have hraw (i : Nat) : rawAt (ofJsonAll js : List (Value X)) i = _ :=
    entry_decoded (fun _ _ => rawAmount_decoded) hpayload i
  have hkind : classifyLendingEvent "liquidate" = some .liquidate := by decide
  have haccounts := accountsOf_filter h (not_isAccount_of_lending hkind)
  have htype : row.eventType = "liquidate" := h.eventType
  simp only [parseLendingEvent, htype, hkind, hdata, valuesOf, Value.entries?, Option.getD_some,
    haccounts, lendingFields, positionAt, hraw, bind, Option.bind_some, pure]
  exact ⟨_, rfl, rfl, rfl⟩

/-- The snapshot is the one that was published, nobody but the borrower is named
as its account, and a borrower with an account is. -/
def BorrowersSnapshot (sdk : ScValSdk X) (S : Strkeys Address) (row : EventRow)
    (borrower : Address) (p : UserPosition) : Prop :=
  ∃ e, parseLendingEvent sdk row = some e ∧
    e.position = some ⟨toString p.deposit, toString p.borrow, toString p.collateral⟩ ∧
    (∀ a, e.account = some a → a = S.text borrower) ∧
    (isAccount (S.text borrower) = true → e.account = some (S.text borrower))

theorem borrowersSnapshot_iff
    (h : Stored sdk S (publishedLending (.liquidate liquidator borrower repaid seized p t)) row) :
    BorrowersSnapshot sdk S row borrower p ↔
      (isAccount (S.text borrower) = true → isAccount (S.text liquidator) = true) := by
  obtain ⟨e, he, haccount, hposition⟩ := parseLendingEvent_liquidate h
  have hsnapshot : BorrowersSnapshot sdk S row borrower p ↔
      (∀ a, e.account = some a → a = S.text borrower) ∧
        (isAccount (S.text borrower) = true → e.account = some (S.text borrower)) := by
    refine ⟨?_, fun hown => ⟨e, he, hposition, hown⟩⟩
    rintro ⟨e', he', -, hown⟩
    cases he.symm.trans he'
    exact hown
  rw [hsnapshot, haccount]
  -- Where the liquidator is a contract, the borrower moves into its place.
  cases hl : isAccount (S.text liquidator) with
  | true => cases hb : isAccount (S.text borrower) <;> simp [hl, hb]
  | false => cases hb : isAccount (S.text borrower) <;> simp [hl, hb]

/-- The indexer ascribes the snapshot of a liquidation to its borrower exactly
when a liquidator with an account stands before a borrower with one. -/
theorem liquidation_snapshot_iff {P : Platform X} {e : SorobanEvent X}
    (h : Carries P.toScValSdk S e
      (publishedLending (.liquidate liquidator borrower repaid seized p t)))
    (contract : ContractConfig) (index now : Nat) :
    BorrowersSnapshot P.toScValSdk S (eventRow P contract e index now) borrower p ↔
      (isAccount (S.text borrower) = true → isAccount (S.text liquidator) = true) :=
  borrowersSnapshot_iff (stored_eventRow h contract index now)

section Sample

def parties : Strkeys (Fin 3) where
  text a := String.ofList ((if a.val = 2 then 'C' else 'G') ::
    List.replicate 55 (if a.val = 1 then 'B' else 'A'))
  valid := by decide +kernel

def samplePosition : UserPosition := ⟨500, 40, 300⟩

def sampleTotals : PoolTotals := ⟨9000, 400, 10⟩

/-- The third part of a debt of 60, repaid for 22 of the collateral. -/
def sampleLiquidation (liquidator borrower : Fin 3) : WireEvent where
  id := none
  ledger := some 7
  txHash := some "t1"
  transactionHash := none
  ledgerClosedAt := none
  topic := some [.obj [("symbol", .str "liquidate")],
    .obj [("address", .str (parties.text liquidator))],
    .obj [("address", .str (parties.text borrower))]]
  topics := none
  value := some (.obj [("vec", .arr [.obj [("i128", .str "20")], .obj [("i128", .str "22")],
    .obj [("i128", .str "500")], .obj [("i128", .str "40")], .obj [("i128", .str "300")],
    .obj [("i128", .str "9000")], .obj [("i128", .str "400")], .obj [("i128", .str "10")]])])

theorem carries_liquidation {liquidator borrower : Fin 3}
    (htopics : (ofJsonAll (sampleLiquidation liquidator borrower).allTopics).map
        (decodeScVal samplePlatform.toScValSdk) =
      (publishedLending (.liquidate liquidator borrower 20 22 samplePosition
        sampleTotals)).topics parties) :
    Carries samplePlatform.toScValSdk parties (sampleLiquidation liquidator borrower).event
      (publishedLending (.liquidate liquidator borrower 20 22 samplePosition sampleTotals)) :=
  carries_wire [.str "20", .str "22", .str "500", .str "40", .str "300", .str "9000", .str "400",
      .str "10"]
    htopics rfl rfl
    (.cons (.text 20) (.cons (.text 22) (.cons (.text 500) (.cons (.text 40) (.cons (.text 300)
      (.cons (.text 9000) (.cons (.text 400) (.cons (.text 10) .nil))))))))

theorem liquidation_snapshot_iff_sample :
    BorrowersSnapshot samplePlatform.toScValSdk parties
      (eventRow samplePlatform ⟨"lending-pool", "C1"⟩ (sampleLiquidation 0 1).event 0 0) 1
      samplePosition :=
  (liquidation_snapshot_iff (carries_liquidation rfl) ⟨"lending-pool", "C1"⟩ 0 0).mpr
    fun _ => by decide +kernel

/-- Where a contract liquidates an account, the position is left without a name. -/
theorem contract_liquidator_hides_borrower :
    Carries samplePlatform.toScValSdk parties (sampleLiquidation 2 1).event
        (publishedLending (.liquidate 2 1 20 22 samplePosition sampleTotals)) ∧
      ¬ BorrowersSnapshot samplePlatform.toScValSdk parties
        (eventRow samplePlatform ⟨"lending-pool", "C1"⟩ (sampleLiquidation 2 1).event 0 0) 1
        samplePosition := by
  have hcarries : Carries samplePlatform.toScValSdk parties (sampleLiquidation 2 1).event
      (publishedLending (.liquidate 2 1 20 22 samplePosition sampleTotals)) :=
    carries_liquidation rfl
  refine ⟨hcarries, fun h => ?_⟩
  have hstored := stored_eventRow hcarries ⟨"lending-pool", "C1"⟩ 0 0
  exact absurd ((borrowersSnapshot_iff hstored).mp h (by decide +kernel)) (by decide +kernel)

end Sample

end Suban.Indexer.Liquidations

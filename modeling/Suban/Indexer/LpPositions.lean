import Suban.CpmmPool.Soundness
import Suban.Indexer.Payloads

namespace Suban.Indexer.LpPositions

open Suban.Basis.Calls Suban.Basis.Numbers Suban.Basis.Tables Suban.Basis.Runs Suban.Soroban.Host
open Suban.CpmmPool.Contract Suban.CpmmPool.Transitions Suban.CpmmPool.Books
open Suban.CpmmPool.Soundness
open Suban.Indexer.Database Suban.Indexer.Values Suban.Indexer.Financial Suban.Indexer.Payloads

/-- A holder of shares. The part of all shares is in ten-thousandths of a per
cent. -/
structure Position where
  account : String
  sharesRaw : String
  sharePct : Option Int

structure PoolPositions where
  available : Bool
  derivedFrom : String
  totalSharesRaw : Option String
  positions : List Position
  note : String

inductive Reply where
  | notFound
  | found (positions : PoolPositions)

def Reply.positions : Reply → List Position
  | .notFound => []
  | .found p => p.positions

variable {X : Type}

structure Netting where
  shares : Table String Int
  latestTotal : Option Int

/-- An event without an account or without shares is passed over. The amounts
that events have are decimal texts. -/
def net (acc : Netting) (event : PoolEvent X) : Netting :=
  match event.account, event.sharesRaw.bind bigInt with
  | some account, some amount =>
    let current := readOr acc.shares account 0
    { shares := acc.shares.insert account
        (if event.eventType = .removeLiquidity then current - amount else current + amount)
      latestTotal := acc.latestTotal.orElse fun _ => event.totalSharesAfter.bind bigInt }
  | _, _ => acc

def netAll (events : List (PoolEvent X)) : Netting := events.foldl net ⟨∅, none⟩

def sharePct (latestTotal : Option Int) (value : Int) : Option Int :=
  latestTotal.bind fun total =>
    if 0 < total then some ((value * 1000000).tdiv total) else none

/-- The holders of more than nothing, the largest first. -/
def Netting.positions (acc : Netting) : List Position :=
  let holders := (acc.shares.entries.map fun e => (e.1, e.2)).filter fun e => 0 < e.2
  (holders.insertionSort fun a b => b.2 ≤ a.2).map fun e =>
    ⟨e.1, toString e.2, sharePct acc.latestTotal e.2⟩

def lpPositions (events : List (PoolEvent X)) (limit : Nat) : PoolPositions :=
  let acc := netAll events
  { available := !acc.positions.isEmpty
    derivedFrom := "liquidity_events"
    totalSharesRaw := acc.latestTotal.map toString
    positions := acc.positions.take limit
    note := "LP shares are internal contract balances and are derived by netting add/remove " ++
      "events. Transfers are not supported by the pool contracts." }

def isPoolRow (contractId : String) (row : EventRow) : Bool :=
  row.contractId = contractId && (classifyFinancialEvent row.eventType).isSome

def scanLimit : Nat := 1000

def poolPositions (sdk : ScValSdk X) (contracts : List String) (rows : List EventRow)
    (contractId : String) (limit : Nat) : Reply :=
  let rows := eventRows rows (isPoolRow contractId) scanLimit 0
  let positions := lpPositions (rows.filterMap (parseFinancialEvent sdk)) limit
  if rows.isEmpty ∧ contractId ∉ contracts then .notFound else .found positions

def signedShares (account : String) (event : PoolEvent X) : Int :=
  match event.account, event.sharesRaw.bind bigInt with
  | some owner, some amount =>
    if owner = account then (if event.eventType = .removeLiquidity then -amount else amount) else 0
  | _, _ => 0

theorem readOr_net (acc : Netting) (event : PoolEvent X) (account : String) :
    readOr (net acc event).shares account 0 =
      readOr acc.shares account 0 + signedShares account event := by
  unfold net signedShares
  split
  next owner amount howner hamount =>
    rw [readOr_insert]
    by_cases h : account = owner
    · subst h
      rw [if_pos rfl, if_pos rfl]
      split
      · exact sub_eq_add_neg _ _
      · rfl
    · rw [if_neg h, if_neg (Ne.symm h), add_zero]
  next => exact (add_zero _).symm

theorem readOr_netAll (events : List (PoolEvent X)) (account : String) :
    readOr (netAll events).shares account 0 = (events.map (signedShares account)).sum := by
  have hfold : ∀ acc : Netting, readOr (events.foldl net acc).shares account 0 =
      readOr acc.shares account 0 + (events.map (signedShares account)).sum := by
    induction events with
    | nil => exact fun acc => (add_zero _).symm
    | cons event events ih =>
      intro acc
      rw [List.foldl_cons, ih, readOr_net, List.map_cons, List.sum_cons, add_assoc]
  rw [netAll, hfold]
  exact zero_add _

theorem exists_mem_positions {acc : Netting} {account sharesRaw : String} :
    (∃ p ∈ acc.positions, p.account = account ∧ p.sharesRaw = sharesRaw) ↔
      0 < readOr acc.shares account 0 ∧ sharesRaw = toString (readOr acc.shares account 0) := by
  have hmem : ∀ e : String × Int,
      e ∈ acc.shares.entries.map (fun e => (e.1, e.2)) ↔ acc.shares.lookup e.1 = some e.2 := by
    intro e
    rw [List.mem_map]
    refine ⟨?_, fun h => ⟨⟨e.1, e.2⟩, AList.mem_lookup_iff.mp h, rfl⟩⟩
    rintro ⟨x, hx, rfl⟩
    exact AList.mem_lookup_iff.mpr hx
  simp only [Netting.positions, List.mem_map, List.mem_insertionSort, List.mem_filter, hmem,
    decide_eq_true_eq]
  constructor
  · rintro ⟨_, ⟨e, ⟨hlookup, hpos⟩, rfl⟩, rfl, rfl⟩
    have hread : readOr acc.shares e.1 0 = e.2 := by rw [readOr, hlookup]; rfl
    rw [hread]
    exact ⟨hpos, rfl⟩
  · rintro ⟨hpos, rfl⟩
    cases hlookup : acc.shares.lookup account with
    | none => simp [readOr, hlookup] at hpos
    | some n =>
      have hread : readOr acc.shares account 0 = n := by rw [readOr, hlookup]; rfl
      rw [hread] at hpos ⊢
      exact ⟨_, ⟨(account, n), ⟨hlookup, hpos⟩, rfl⟩, rfl, rfl⟩

theorem nodup_positions (acc : Netting) : (acc.positions.map Position.account).Nodup := by
  have hkeys : ((acc.shares.entries.map fun e => (e.1, e.2)).map Prod.fst).Nodup := by
    have hnodup := acc.shares.nodupKeys
    rw [List.map_map]
    exact hnodup
  have hperm : (acc.positions.map Position.account).Perm
      (((acc.shares.entries.map fun e => (e.1, e.2)).filter fun e => 0 < e.2).map Prod.fst) := by
    rw [Netting.positions, List.map_map]
    exact (List.perm_insertionSort _ _).map _
  exact hperm.nodup_iff.mpr (hkeys.sublist (List.filter_sublist.map _))

section Changes

variable {Address : Type}

def shareChange : Event Address → Option (Address × Int)
  | .addLiq provider _ _ shares _ _ _ _ _ => some (provider, shares)
  | .rmLiq provider _ _ sharesIn _ _ _ _ _ => some (provider, -sharesIn)
  | .swap _ _ _ _ _ _ _ _ _ _ _ => none

def changeFor (p : Address → Prop) [DecidablePred p] (event : Event Address) : Int :=
  (shareChange event).elim 0 fun c => if p c.1 then c.2 else 0

theorem changeFor_congr {p q : Address → Prop} [DecidablePred p] [DecidablePred q]
    (h : ∀ a, p a ↔ q a) : changeFor p = changeFor q := by
  funext event
  simp only [changeFor, h]

theorem changeFor_eq_zero {p : Address → Prop} [DecidablePred p] (h : ∀ a, ¬ p a)
    (event : Event Address) : changeFor p event = 0 := by
  unfold changeFor
  cases shareChange event with
  | none => rfl
  | some c => exact if_neg (h c.1)

variable {W : Type} [DecidableEq Address] {contract tokenA tokenB : Address}
variable {T : Sep41 Address W} {s t : Storage Address W}

/-- The shares of every provider are what the events have brought. -/
def Narrated (s : Storage Address W) : Prop :=
  ∀ a, s.lpOf a = (s.events.map (changeFor (· = a))).sum

theorem Narrated.move (hs : Narrated s) {provider : Address} {shares : Int} {event : Event Address}
    (hevents : t.events = s.events ++ [event])
    (htable : t.lpBalance = s.lpBalance.insert provider (s.lpOf provider + shares))
    (hchange : shareChange event = some (provider, shares)) : Narrated t := by
  intro a
  rw [hevents, List.map_append, List.sum_append, ← hs a, Storage.lpOf, htable, readOr_insert]
  simp only [List.map_cons, List.map_nil, List.sum_cons, List.sum_nil, add_zero, changeFor,
    hchange, Option.elim_some]
  by_cases h : a = provider
  · rw [if_pos h, if_pos h.symm, h]
  · rw [if_neg h, if_neg (Ne.symm h), add_zero]
    rfl

theorem Narrated.keep (hs : Narrated s) {event : Event Address}
    (hevents : t.events = s.events ++ [event]) (htable : t.lpBalance = s.lpBalance)
    (hchange : shareChange event = none) : Narrated t := by
  intro a
  rw [hevents, List.map_append, List.sum_append, ← hs a, Storage.lpOf, htable]
  simp [changeFor, hchange, Storage.lpOf]

theorem narrated_step {i : Input Address W contract (Call Address)} (h : step T s i = .ok t)
    (hbooked : Booked tokenA tokenB s) (hs : Narrated s) : Narrated t := by
  cases i with
  | world w =>
    cases pure_eq_ok.mp h
    exact hs
  | call env c =>
    cases invoke_transition hbooked.tokenA hbooked.tokenB h with
    | add provider amountA amountB minShares w => exact hs.move rfl rfl rfl
    | remove provider sharesIn minA minB w => exact hs.move rfl rfl rfl
    | swapAForB trader amountIn minOut w => exact hs.keep rfl rfl rfl
    | swapBForA trader amountIn minOut w => exact hs.keep rfl rfl rfl

theorem booked_narrated_run {env : Env Address contract} {w : W} {admin : Address} {feeBps : Nat}
    (h : initialise env (.fresh w) admin tokenA tokenB feeBps = .ok s)
    (is : List (Input Address W contract (Call Address))) :
    Booked tokenA tokenB (run (step T) s is) ∧ Narrated (run (step T) s is) := by
  have hopen : Narrated s := by
    obtain ⟨-, -, rfl⟩ := initialise_eq_ok h
    exact fun _ => rfl
  have hall : Throughout (step T) (fun u => Booked tokenA tokenB u ∧ Narrated u) s is := by
    refine throughout_of_along (C := fun _ _ => True) ?_ ⟨booked_initialise h, hopen⟩
      (along_true s is)
    intro u i v hu _ hv
    exact ⟨booked_step hv hu.1, narrated_step hv hu.1 hu.2⟩
  exact throughout_run hall

end Changes

section Rows

variable {Address : Type} {sdk : ScValSdk X} {S : Strkeys Address}

def rowShares (sdk : ScValSdk X) (account : String) (row : EventRow) : Int :=
  (parseFinancialEvent sdk row).elim 0 (signedShares account)

theorem sum_rowShares (account : String) (rows : List EventRow) :
    ((rows.filterMap (parseFinancialEvent sdk)).map (signedShares account)).sum =
      (rows.map (rowShares sdk account)).sum := by
  induction rows with
  | nil => rfl
  | cons row rows ih =>
    rw [List.filterMap_cons, List.map_cons, List.sum_cons, ← ih, rowShares]
    cases parseFinancialEvent sdk row with
    | none => exact (zero_add _).symm
    | some event => exact List.sum_cons

theorem parseFinancialEvent_some {p : Published Address} {row : EventRow} {kind : PoolEventType}
    (h : Stored sdk S p row) (hkind : classifyFinancialEvent p.symbol = some kind) :
    ∃ event, parseFinancialEvent sdk row = some event ∧ event.eventType = kind ∧
      event.account = ((p.accounts.map S.text).filter isAccount).head? ∧
      event.sharesRaw = if kind = .swap then none else p.payload[2]?.bind Field.raw := by
  obtain ⟨js, hdata, hpayload⟩ := h.data
  have hraw := entry_decoded (X := X) (fun _ _ => rawAmount_decoded) hpayload
  simp only [parseFinancialEvent, h.eventType, hkind, hdata, valuesOf, Value.entries?,
    Option.getD_some, hraw, accountOf,
    accountsOf_filter h (not_isAccount_of_pool hkind), bind, Option.bind_some, pure]
  exact ⟨_, rfl, rfl, rfl, rfl⟩

theorem signedShares_provider {event : PoolEvent X} {provider : Address} {shares : Int}
    (haccount : event.account = ([S.text provider].filter isAccount).head?)
    (hshares : event.sharesRaw = some (toString shares)) (account : String) :
    signedShares account event =
      if isAccount (S.text provider) = true ∧ S.text provider = account then
        (if event.eventType = .removeLiquidity then -shares else shares) else 0 := by
  unfold signedShares
  rw [haccount, hshares, Option.bind_some, bigInt_toString]
  by_cases hacc : isAccount (S.text provider) = true
  · simp [hacc]
  · simp [hacc]

theorem signedShares_swap {event : PoolEvent X} (hshares : event.sharesRaw = none)
    (account : String) : signedShares account event = 0 := by
  unfold signedShares
  rw [hshares]
  cases event.account <;> rfl

theorem rowShares_stored {row : EventRow} {event : Event Address}
    (h : Stored sdk S (publishedCpmm event) row) (account : String) :
    rowShares sdk account row =
      changeFor (fun a => isAccount (S.text a) = true ∧ S.text a = account) event := by
  cases event with
  | addLiq provider amountA amountB shares =>
    have hkind : classifyFinancialEvent "add_liq" = some .addLiquidity := by decide
    obtain ⟨e, hparse, htype, haccount, hshares⟩ := parseFinancialEvent_some h hkind
    rw [rowShares, hparse, Option.elim_some, signedShares_provider haccount hshares, htype]
    rfl
  | rmLiq provider amountA amountB sharesIn =>
    have hkind : classifyFinancialEvent "rm_liq" = some .removeLiquidity := by decide
    obtain ⟨e, hparse, htype, haccount, hshares⟩ := parseFinancialEvent_some h hkind
    rw [rowShares, hparse, Option.elim_some, signedShares_provider haccount hshares, htype]
    rfl
  | swap trader =>
    have hkind : classifyFinancialEvent "swap" = some .swap := by decide
    obtain ⟨e, hparse, -, -, hshares⟩ := parseFinancialEvent_some h hkind
    rw [rowShares, hparse, Option.elim_some, signedShares_swap hshares]
    rfl

/-- The rows of the pool are those of its events, in whatever order they came
in. -/
def FullyIndexed (sdk : ScValSdk X) (S : Strkeys Address) (events : List (Event Address))
    (rows : List EventRow) (contractId : String) : Prop :=
  ∃ own, (rows.filter (isPoolRow contractId)).Perm own ∧
    List.Forall₂ (fun event row => Stored sdk S (publishedCpmm event) row) events own

/-- What the rows behind the newest ones add up to for an account. -/
def missedShares (sdk : ScValSdk X) (rows : List EventRow) (contractId account : String) : Int :=
  (((newestFirst (rows.filter (isPoolRow contractId))).drop scanLimit).map
    (rowShares sdk account)).sum

/-- The account's shares, netted over the rows that are looked at. -/
def nettedShares (sdk : ScValSdk X) (rows : List EventRow) (contractId account : String) : Int :=
  ((eventRows rows (isPoolRow contractId) scanLimit 0).map (rowShares sdk account)).sum

variable {rows : List EventRow} {contractId : String} {events : List (Event Address)}

theorem sum_rowShares_indexed (h : FullyIndexed sdk S events rows contractId) (account : String) :
    nettedShares sdk rows contractId account + missedShares sdk rows contractId account =
      (events.map (changeFor fun a =>
        isAccount (S.text a) = true ∧ S.text a = account)).sum := by
  obtain ⟨own, hperm, hstored⟩ := h
  have hnewest : (newestFirst (rows.filter (isPoolRow contractId))).Perm own :=
    ((List.perm_insertionSort _ _).trans (List.reverse_perm _)).trans hperm
  have hown : own.map (rowShares sdk account) = events.map (changeFor fun a =>
      isAccount (S.text a) = true ∧ S.text a = account) := by
    clear hperm hnewest
    induction hstored with
    | nil => rfl
    | cons hrow _ ih => rw [List.map_cons, List.map_cons, ih, rowShares_stored hrow]
  rw [nettedShares, missedShares, eventRows, List.drop_zero, ← List.sum_append,
    ← List.map_append, List.take_append_drop, (hnewest.map _).sum_eq, hown]

end Rows

def allPositions (sdk : ScValSdk X) (rows : List EventRow) (contractId : String) :
    List Position :=
  (netAll ((eventRows rows (isPoolRow contractId) scanLimit 0).filterMap
    (parseFinancialEvent sdk))).positions

theorem poolPositions_eq (sdk : ScValSdk X) (contracts : List String) (rows : List EventRow)
    (contractId : String) (limit : Nat) :
    (poolPositions sdk contracts rows contractId limit).positions =
      (allPositions sdk rows contractId).take limit := by
  unfold poolPositions
  dsimp only
  split
  next h =>
    rw [allPositions, List.isEmpty_iff.mp h.1]
    exact List.take_nil.symm
  next => rfl

theorem exists_mem_allPositions {sdk : ScValSdk X} {rows : List EventRow}
    {contractId account sharesRaw : String} :
    (∃ p ∈ allPositions sdk rows contractId, p.account = account ∧ p.sharesRaw = sharesRaw) ↔
      0 < nettedShares sdk rows contractId account ∧
        sharesRaw = toString (nettedShares sdk rows contractId account) := by
  rw [allPositions, exists_mem_positions, readOr_netAll, sum_rowShares]
  rfl

section Holdings

variable {Address W : Type} [DecidableEq Address] {contract tokenA tokenB : Address}
variable {T : Sep41 Address W} {s : Storage Address W} {sdk : ScValSdk X} {S : Strkeys Address}
variable {rows : List EventRow} {contractId : String}

/-- The positions are the providers with shares, each with what it holds. -/
structure Holdings (S : Strkeys Address) (s : Storage Address W) (full : List Position) :
    Prop where
  sound : ∀ p ∈ full, ∃ a, 0 < s.lpOf a ∧ p.account = S.text a ∧
    p.sharesRaw = toString (s.lpOf a)
  complete : ∀ a, 0 < s.lpOf a → ∃ p ∈ full, p.account = S.text a ∧
    p.sharesRaw = toString (s.lpOf a)
  nodup : (full.map Position.account).Nodup

/-- Up to the limit on the output what is served are the holdings. -/
def ServesHoldings (sdk : ScValSdk X) (S : Strkeys Address) (s : Storage Address W)
    (contracts : List String) (rows : List EventRow) (contractId : String) : Prop :=
  ∃ full, Holdings S s full ∧
    ∀ limit, (poolPositions sdk contracts rows contractId limit).positions = full.take limit

theorem servesHoldings_iff_holdings {contracts : List String} :
    ServesHoldings sdk S s contracts rows contractId ↔
      Holdings S s (allPositions sdk rows contractId) := by
  refine ⟨?_, fun h => ⟨_, h, poolPositions_eq sdk contracts rows contractId⟩⟩
  rintro ⟨full, h, hserved⟩
  suffices heq : full = allPositions sdk rows contractId from heq ▸ h
  have hboth (limit : Nat) : full.take limit = (allPositions sdk rows contractId).take limit :=
    (hserved limit).symm.trans (poolPositions_eq sdk contracts rows contractId limit)
  have hall := hboth (max full.length (allPositions sdk rows contractId).length)
  rwa [List.take_of_length_le (le_max_left _ _), List.take_of_length_le (le_max_right _ _)] at hall

theorem netted_account (hs : Narrated s) (hinj : Function.Injective S.text)
    (hindexed : FullyIndexed sdk S s.events rows contractId) {a : Address}
    (ha : isAccount (S.text a) = true) :
    nettedShares sdk rows contractId (S.text a) =
      s.lpOf a - missedShares sdk rows contractId (S.text a) := by
  have hsame : changeFor (fun b => isAccount (S.text b) = true ∧ S.text b = S.text a) =
      changeFor (· = a) := by
    refine changeFor_congr fun b => ⟨fun h => hinj h.2, ?_⟩
    rintro rfl
    exact ⟨ha, rfl⟩
  rw [hs a, ← hsame, ← sum_rowShares_indexed hindexed, add_sub_cancel_right]

omit [DecidableEq Address] in
theorem netted_other {events : List (Event Address)} {account : String}
    (hindexed : FullyIndexed sdk S events rows contractId)
    (h : ∀ a, ¬ (isAccount (S.text a) = true ∧ S.text a = account)) :
    nettedShares sdk rows contractId account = 0 := by
  obtain ⟨own, hperm, hstored⟩ := hindexed
  refine List.sum_eq_zero fun x hx => ?_
  obtain ⟨row, hrow, rfl⟩ := List.mem_map.mp hx
  have hmem : row ∈ newestFirst (rows.filter (isPoolRow contractId)) :=
    (List.drop_sublist _ _).subset ((List.take_sublist _ _).subset hrow)
  have hown : row ∈ own := hperm.subset
    (List.mem_reverse.mp ((List.mem_insertionSort _).mp hmem))
  have hzero : ∀ row ∈ own, rowShares sdk account row = 0 := by
    clear hperm hown
    induction hstored with
    | nil => exact fun _ hrow => absurd hrow List.not_mem_nil
    | cons hrow _ ih =>
      refine List.forall_mem_cons.mpr ⟨?_, ih⟩
      rw [rowShares_stored hrow, changeFor_eq_zero h]
  exact hzero row hown

section Served

variable (hs : Narrated s) (hnonneg : ∀ a, 0 ≤ s.lpOf a) (hinj : Function.Injective S.text)
variable (hindexed : FullyIndexed sdk S s.events rows contractId)

theorem Holdings.served (hfull : Holdings S s (allPositions sdk rows contractId)) {a : Address}
    (hpos : 0 < s.lpOf a) : 0 < nettedShares sdk rows contractId (S.text a) ∧
      s.lpOf a = nettedShares sdk rows contractId (S.text a) := by
  obtain ⟨hp, htext⟩ := exists_mem_allPositions.mp (hfull.complete a hpos)
  exact ⟨hp, toString_inj htext⟩

include hnonneg hindexed

/-- Only accounts hold shares where the holdings are served. -/
theorem lpOf_contract (hfull : Holdings S s (allPositions sdk rows contractId)) {a : Address}
    (ha : isAccount (S.text a) = false) : s.lpOf a = 0 := by
  by_contra hne
  have hpos := (hfull.served ((hnonneg a).lt_of_ne' hne)).1
  rw [netted_other hindexed] at hpos
  · exact lt_irrefl 0 hpos
  · rintro b ⟨hb, hname⟩
    rw [hname, ha] at hb
    cases hb

include hs hinj

theorem missed_account (hfull : Holdings S s (allPositions sdk rows contractId)) {a : Address}
    (ha : isAccount (S.text a) = true) : missedShares sdk rows contractId (S.text a) = 0 ∨
      s.lpOf a = 0 ∧ 0 ≤ missedShares sdk rows contractId (S.text a) := by
  have hnet := netted_account hs hinj hindexed ha
  obtain hz | hpos := (hnonneg a).eq_or_lt'
  · refine .inr ⟨hz, ?_⟩
    by_contra hneg
    have hpos : 0 < nettedShares sdk rows contractId (S.text a) := by
      rw [hnet]
      omega
    obtain ⟨p, hp, haccount, -⟩ := exists_mem_allPositions.mpr ⟨hpos, rfl⟩
    obtain ⟨b, hb, hname, -⟩ := hfull.sound p hp
    rw [hinj (hname.symm.trans haccount), hz] at hb
    exact lt_irrefl 0 hb
  · refine .inl ?_
    have heq := (hfull.served hpos).2
    rw [hnet] at heq
    omega

omit hnonneg in
theorem holdings_of_missed
    (hcontracts : ∀ a, isAccount (S.text a) = false → s.lpOf a = 0)
    (haccounts : ∀ a, isAccount (S.text a) = true →
      missedShares sdk rows contractId (S.text a) = 0 ∨
        s.lpOf a = 0 ∧ 0 ≤ missedShares sdk rows contractId (S.text a)) :
    Holdings S s (allPositions sdk rows contractId) := by
  have hnet (a : Address) (ha : isAccount (S.text a) = true) :=
    netted_account (a := a) hs hinj hindexed ha
  refine ⟨?_, ?_, nodup_positions _⟩
  · intro p hp
    obtain ⟨hpos, htext⟩ := exists_mem_allPositions.mp ⟨p, hp, rfl, rfl⟩
    by_cases hown : ∃ a, isAccount (S.text a) = true ∧ S.text a = p.account
    · obtain ⟨a, ha, hname⟩ := hown
      rw [← hname, hnet a ha] at hpos htext
      obtain hz | ⟨hz, hmissed⟩ := haccounts a ha
      · rw [hz, sub_zero] at hpos htext
        exact ⟨a, hpos, hname.symm, htext⟩
      · omega
    · rw [netted_other hindexed (not_exists.mp hown)] at hpos
      exact absurd hpos (lt_irrefl 0)
  · intro a hpos
    have ha : isAccount (S.text a) = true := by
      rw [← Bool.not_eq_false]
      exact fun hcontract => hpos.ne' (hcontracts a hcontract)
    apply exists_mem_allPositions.mpr
    rw [hnet a ha]
    obtain hz | ⟨hz, -⟩ := haccounts a ha
    · rw [hz, sub_zero]
      exact ⟨hpos, rfl⟩
    · exact absurd hz hpos.ne'

end Served

/-- What is served for the pool are the holdings of its providers exactly when
only accounts hold shares, and the rows behind the newest ones come to nothing
for every account, or to no less than nothing for one that holds none. -/
theorem servesHoldings_iff {env : Env Address contract} {w : W} {admin : Address} {feeBps : Nat}
    (h : initialise env (.fresh w) admin tokenA tokenB feeBps = .ok s)
    (is : List (Input Address W contract (Call Address))) (hinj : Function.Injective S.text)
    (hindexed : FullyIndexed sdk S (run (step T) s is).events rows contractId)
    (contracts : List String) :
    ServesHoldings sdk S (run (step T) s is) contracts rows contractId ↔
      (∀ a, isAccount (S.text a) = false → (run (step T) s is).lpOf a = 0) ∧
      ∀ a, isAccount (S.text a) = true → missedShares sdk rows contractId (S.text a) = 0 ∨
        (run (step T) s is).lpOf a = 0 ∧ 0 ≤ missedShares sdk rows contractId (S.text a) := by
  obtain ⟨hbooked, hnarrated⟩ := booked_narrated_run (T := T) h is
  have hnonneg := hbooked.nonneg
  rw [servesHoldings_iff_holdings]
  constructor
  · intro hfull
    exact ⟨fun a ha => lpOf_contract hnonneg hindexed hfull ha,
      fun a ha => missed_account hnarrated hnonneg hinj hindexed hfull ha⟩
  · rintro ⟨hcontracts, haccounts⟩
    exact holdings_of_missed hnarrated hinj hindexed hcontracts haccounts

end Holdings

section Sample

def holderLetter (a : Fin 5) : Char :=
  if a = 0 then 'A' else if a = 1 then 'B' else if a = 2 then 'C' else if a = 3 then 'D' else 'E'

def holderStrkeys : Strkeys (Fin 5) where
  text a := String.ofList ((if a = 1 then 'G' else 'C') :: List.replicate 55 (holderLetter a))
  valid := by decide +kernel

theorem holderStrkeys_injective : Function.Injective holderStrkeys.text := by
  unfold Function.Injective
  decide +kernel

def openPool : Storage (Fin 5) (Fin 5 → Fin 5 → Nat) :=
  { Storage.fresh (fun token a => if 3 ≤ token ∧ (a = 1 ∨ a = 2) then 1000 else 0) with
    admin := some 1
    tokenA := some 3
    tokenB := some 4
    feeBps := 30 }

theorem initialise_openPool :
    initialise (Env.signed 0 0) (.fresh openPool.world) 1 3 4 30 = .ok openPool := rfl

def deposit (provider : Fin 5) : Input (Fin 5) (Fin 5 → Fin 5 → Nat) 0 (Call (Fin 5)) :=
  .call (Env.signed 0 1) (.addLiquidity provider 100 100 0)

def depositEvent (provider : Fin 5) : Wire.WireEvent where
  id := none
  ledger := some 7
  txHash := some "t1"
  transactionHash := none
  ledgerClosedAt := none
  topic := some [.obj [("symbol", .str "add_liq")],
    .obj [("address", .str (holderStrkeys.text provider))]]
  topics := none
  value := some (.obj [("vec", .arr [.obj [("i128", .str "100")], .obj [("i128", .str "100")],
    .obj [("i128", .str "100")], .obj [("address", .str (holderStrkeys.text 3))],
    .obj [("address", .str (holderStrkeys.text 4))], .obj [("i128", .str "100")],
    .obj [("i128", .str "100")], .obj [("i128", .str "100")]])])

def depositRow (provider : Fin 5) : EventRow :=
  Events.eventRow samplePlatform ⟨"cpmm-pool", "C1"⟩ (depositEvent provider).event 0 0

theorem deposit_state (provider : Fin 5) (h : provider = 1 ∨ provider = 2) :
    (run (step (bookToken (Fin 5))) openPool [deposit provider]).events =
        [.addLiq provider 100 100 100 3 4 100 100 100] ∧
      (run (step (bookToken (Fin 5))) openPool [deposit provider]).lpOf provider = 100 := by
  have hok : (step (bookToken (Fin 5)) openPool (deposit provider)).isOk = true := by
    obtain rfl | rfl := h <;> decide +kernel
  obtain ⟨t, ht⟩ := exists_of_isOk hok
  have hworth : worth openPool 100 100 = 100 := by
    have hroot : Nat.sqrt (100 * 100) = 100 := Nat.sqrt_eq 100
    exact congrArg Nat.cast hroot
  have hmove : Transition (bookToken (Fin 5)) (Env.signed 0 1) openPool 3 4
      (.addLiquidity provider 100 100 0) t := invoke_transition rfl rfl ht
  rw [run_ok ht]
  cases hmove with
  | add _ _ _ _ w =>
    refine ⟨?_, ?_⟩
    · rw [hworth]
      rfl
    · refine (readOr_insert _ _ _ _ _).trans ?_
      rw [if_pos rfl, hworth]
      rfl

theorem stored_deposit (provider : Fin 5) :
    Stored samplePlatform.toScValSdk holderStrkeys
      (publishedCpmm (.addLiq provider 100 100 100 3 4 100 100 100)) (depositRow provider) :=
  stored_eventRow (carries_wire [.str "100", .str "100", .str "100", .str (holderStrkeys.text 3),
      .str (holderStrkeys.text 4), .str "100", .str "100", .str "100"] rfl rfl rfl
    (.cons (.text 100) (.cons (.text 100) (.cons (.text 100) (.cons (.strkey 3) (.cons (.strkey 4)
      (.cons (.text 100) (.cons (.text 100) (.cons (.text 100) .nil))))))))) _ 0 0

theorem indexed_deposit (provider : Fin 5) (h : provider = 1 ∨ provider = 2) :
    FullyIndexed samplePlatform.toScValSdk holderStrkeys
      (run (step (bookToken (Fin 5))) openPool [deposit provider]).events
      [depositRow provider] "C1" := by
  have hrow : isPoolRow "C1" (depositRow provider) = true := by
    have hkind : (classifyFinancialEvent "add_liq").isSome = true := by decide
    rw [isPoolRow, (stored_deposit provider).eventType]
    exact Bool.and_eq_true_iff.mpr ⟨rfl, hkind⟩
  refine ⟨[depositRow provider], ?_, ?_⟩
  · rw [List.filter_cons_of_pos hrow]
    exact .refl _
  · rw [(deposit_state provider h).1]
    exact .cons (stored_deposit provider) .nil

theorem servesHoldings_iff_sample :
    ServesHoldings samplePlatform.toScValSdk holderStrkeys
        (run (step (bookToken (Fin 5))) openPool [deposit 1]) ["C1"] [depositRow 1] "C1" ↔
      (∀ a, isAccount (holderStrkeys.text a) = false →
        (run (step (bookToken (Fin 5))) openPool [deposit 1]).lpOf a = 0) ∧
      ∀ a, isAccount (holderStrkeys.text a) = true →
        missedShares samplePlatform.toScValSdk [depositRow 1] "C1" (holderStrkeys.text a) = 0 ∨
        (run (step (bookToken (Fin 5))) openPool [deposit 1]).lpOf a = 0 ∧
          0 ≤ missedShares samplePlatform.toScValSdk [depositRow 1] "C1" (holderStrkeys.text a) :=
  servesHoldings_iff initialise_openPool [deposit 1] holderStrkeys_injective
    (indexed_deposit 1 (.inl rfl)) ["C1"]

/-- A contract that has provided liquidity holds shares, and nothing is served
for it. -/
theorem contract_provider_not_served :
    FullyIndexed samplePlatform.toScValSdk holderStrkeys
        (run (step (bookToken (Fin 5))) openPool [deposit 2]).events [depositRow 2] "C1" ∧
      ¬ ServesHoldings samplePlatform.toScValSdk holderStrkeys
        (run (step (bookToken (Fin 5))) openPool [deposit 2]) ["C1"] [depositRow 2] "C1" := by
  have hindexed := indexed_deposit 2 (.inr rfl)
  refine ⟨hindexed, fun h => ?_⟩
  have hholds := (deposit_state 2 (.inr rfl)).2
  obtain ⟨p, hp, haccount, -⟩ :=
    (servesHoldings_iff_holdings.mp h).complete 2 (by rw [hholds]; decide)
  have hpos := (exists_mem_allPositions.mp ⟨p, hp, haccount, rfl⟩).1
  rw [netted_other hindexed] at hpos
  · exact lt_irrefl 0 hpos
  · decide +kernel

end Sample

end Suban.Indexer.LpPositions

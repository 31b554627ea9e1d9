import Suban.Indexer.LpPositions
import Suban.Indexer.PoolStates

namespace Suban.Indexer.Volumes

open Suban.Basis.Calls Suban.Basis.Numbers Suban.Basis.Tables Suban.Basis.Runs Suban.Soroban.Host
open Suban.CpmmPool.Contract Suban.CpmmPool.Transitions Suban.CpmmPool.Books
open Suban.CpmmPool.Soundness
open Suban.Indexer.Database Suban.Indexer.Values Suban.Indexer.Financial Suban.Indexer.Payloads
open Suban.Indexer.LpPositions Suban.Indexer.PoolStates

structure Volume where
  amountInRaw : String
  amountOutRaw : String
  byTokenInRaw : List (String × String)
  unattributedRaw : String
  unit : String
  note : String

variable {X : Type}

/-- Amounts that are not there, or malformed, are passed over. -/
def sumRaw (values : List (Option String)) : String :=
  toString ((values.filterMap fun value => value.bind bigInt).foldl (· + ·) 0)

structure Attribution where
  byToken : Table String Int
  unattributed : Int

def credit (acc : Attribution) (event : PoolEvent X) : Attribution :=
  if event.eventType = .swap then
    match event.amountARaw.bind bigInt, event.tokenIn with
    | none, _ => acc
    | some amount, none => { acc with unattributed := acc.unattributed + amount }
    | some amount, some token =>
      { acc with byToken := acc.byToken.insert token (readOr acc.byToken token 0 + amount) }
  else acc

def creditAll (events : List (PoolEvent X)) : Attribution := events.foldl credit ⟨∅, 0⟩

def swaps (events : List (PoolEvent X)) : List (PoolEvent X) :=
  events.filter fun e => e.eventType = .swap

def tokenVolume (events : List (PoolEvent X)) : Volume where
  amountInRaw := sumRaw ((swaps events).map PoolEvent.amountARaw)
  amountOutRaw := sumRaw ((swaps events).map PoolEvent.amountBRaw)
  byTokenInRaw := (creditAll events).byToken.entries.map fun e => (e.1, toString e.2)
  unattributedRaw := toString (creditAll events).unattributed
  unit := "raw_token_units"
  note := "Raw amounts are never converted to USD without a fresh, configured price and " ++
    "token decimals."

structure PoolPage (X : Type) where
  contractId : String
  contractName : Option String
  poolKind : PoolKind
  eventCount : Nat
  tradeCount : Nat
  addLiquidityCount : Nat
  removeLiquidityCount : Nat
  state : Option PoolState
  volume : Volume
  lpPositions : PoolPositions
  recentEvents : List (PoolEvent X)

/-- There is no page where a time is no date. -/
inductive PageReply (X : Type) where
  | notFound
  | failed
  | found (page : PoolPage X)

def countKind (kind : PoolEventType) (events : List (PoolEvent X)) : Nat :=
  (events.filter fun e => e.eventType = kind).length

def pageOf (contractId : String) (rows : List EventRow) (events : List (PoolEvent X))
    (state : Option PoolState) : PoolPage X where
  contractId := contractId
  contractName := (rows.head?.map EventRow.contractName).filter (· ≠ "")
  poolKind := (events.head?.map PoolEvent.poolKind).getD .unknown
  eventCount := events.length
  tradeCount := countKind .swap events
  addLiquidityCount := countKind .addLiquidity events
  removeLiquidityCount := countKind .removeLiquidity events
  state := state
  volume := tokenVolume events
  lpPositions := LpPositions.lpPositions events 100
  recentEvents := events.take 20

def poolPage (sdk : ScValSdk X) (contracts : List String) (rows : List EventRow)
    (contractId : String) : PageReply X :=
  let rows := eventRows rows (isPoolRow contractId) scanLimit 0
  if rows.isEmpty ∧ contractId ∉ contracts then .notFound
  else
    let events := rows.filterMap (parseFinancialEvent sdk)
    match latestPoolState events with
    | none => .failed
    | some state => .found (pageOf contractId rows events state)

/-- What an event comes to on the page: its kind, and for a swap the token that
was paid in, and how much. -/
structure Deal (τ : Type) where
  kind : PoolEventType
  paid : Option (τ × Int)

namespace Deal

variable {τ υ : Type}

def map (f : τ → υ) (d : Deal τ) : Deal υ := ⟨d.kind, d.paid.map fun p => (f p.1, p.2)⟩

def amount (d : Deal τ) : Int := (d.paid.map Prod.snd).getD 0

def amountOf [DecidableEq τ] (token : τ) (d : Deal τ) : Int :=
  ((d.paid.filter fun p => p.1 = token).map Prod.snd).getD 0

@[simp] theorem amount_map (f : τ → υ) (d : Deal τ) : (d.map f).amount = d.amount := by
  unfold amount map
  cases d.paid <;> rfl

end Deal

/-- An event is told in full when it is a swap that names its token, or no swap. -/
def dealIn (event : PoolEvent X) : Option (Deal String) :=
  if event.eventType = .swap then
    match event.amountARaw.bind bigInt, event.tokenIn with
    | some amount, some token => some ⟨.swap, some (token, amount)⟩
    | _, _ => none
  else some ⟨event.eventType, none⟩

section Counting

variable {events : List (PoolEvent X)} {deals : List (Deal String)}

def Tells (events : List (PoolEvent X)) (deals : List (Deal String)) : Prop :=
  List.Forall₂ (fun event deal => dealIn event = some deal) events deals

theorem dealIn_some {event : PoolEvent X} {deal : Deal String} (h : dealIn event = some deal) :
    deal.kind = event.eventType ∧ (event.eventType ≠ .swap → deal.paid = none) ∧
      (event.eventType = .swap → ∃ amount token, event.amountARaw.bind bigInt = some amount ∧
        event.tokenIn = some token ∧ deal.paid = some (token, amount)) := by
  unfold dealIn at h
  split at h
  next hswap =>
    split at h
    next amount token hamount htoken =>
      cases h
      exact ⟨hswap.symm, fun hne => absurd hswap hne,
        fun _ => ⟨amount, token, hamount, htoken, rfl⟩⟩
    next => cases h
  next hswap =>
    cases h
    exact ⟨rfl, fun _ => rfl, fun heq => absurd heq hswap⟩

theorem dealIn_swap {event : PoolEvent X} {amount : Int} {token : String}
    (hswap : event.eventType = .swap) (hamount : event.amountARaw.bind bigInt = some amount)
    (htoken : event.tokenIn = some token) : dealIn event = some ⟨.swap, some (token, amount)⟩ := by
  simp only [dealIn, hswap, hamount, htoken, if_pos]

theorem countKind_eq (h : Tells events deals) (kind : PoolEventType) :
    countKind kind events = deals.countP fun d => d.kind = kind := by
  unfold countKind
  induction h with
  | nil => rfl
  | @cons event deal events deals hdeal _ ih =>
    rw [List.filter_cons, List.countP_cons, (dealIn_some hdeal).1, ← ih]
    by_cases hkind : event.eventType = kind <;> simp [hkind]

theorem length_eq (h : Tells events deals) : events.length = deals.length :=
  List.Forall₂.length_eq h

theorem amountIn_eq (h : Tells events deals) :
    sumRaw ((swaps events).map PoolEvent.amountARaw) = toString (deals.map Deal.amount).sum := by
  have hsum : ((swaps events).filterMap fun event => event.amountARaw.bind bigInt).sum =
      (deals.map Deal.amount).sum := by
    unfold swaps
    induction h with
    | nil => rfl
    | @cons event deal events deals hdeal _ ih =>
      obtain ⟨-, hother, hswap⟩ := dealIn_some hdeal
      by_cases hkind : event.eventType = .swap
      · obtain ⟨amount, token, hamount, -, hpaid⟩ := hswap hkind
        simp [hkind, hamount, ih, Deal.amount, hpaid]
      · simp [hkind, ih, Deal.amount, hother hkind]
  rw [sumRaw, List.filterMap_map, ← List.sum_eq_foldl, ← hsum]
  rfl

theorem readOr_insert_amount (acc : Table String Int) (token text : String) (amount : Int) :
    readOr (acc.insert token (readOr acc token 0 + amount)) text 0 =
      readOr acc text 0 + if token = text then amount else 0 := by
  rw [readOr_insert]
  by_cases h : text = token
  · rw [if_pos h, if_pos h.symm, h]
  · rw [if_neg h, if_neg (Ne.symm h), add_zero]

theorem creditAll_eq (h : Tells events deals) :
    (creditAll events).unattributed = 0 ∧
      (∀ text, readOr (creditAll events).byToken text 0 =
        (deals.map (Deal.amountOf text)).sum) ∧
      ∀ text, ((creditAll events).byToken.lookup text).isSome ↔
        ∃ d ∈ deals, ∃ amount, d.paid = some (text, amount) := by
  have hfold : ∀ acc : Attribution,
      (events.foldl credit acc).unattributed = acc.unattributed ∧
      (∀ text, readOr (events.foldl credit acc).byToken text 0 =
        readOr acc.byToken text 0 + (deals.map (Deal.amountOf text)).sum) ∧
      ∀ text, ((events.foldl credit acc).byToken.lookup text).isSome ↔
        (acc.byToken.lookup text).isSome ∨ ∃ d ∈ deals, ∃ amount, d.paid = some (text, amount) := by
    induction h with
    | nil => exact fun acc => ⟨rfl, fun text => (add_zero _).symm, fun text => by simp⟩
    | @cons event deal events deals hdeal _ ih =>
      intro acc
      obtain ⟨-, hother, hswap⟩ := dealIn_some hdeal
      obtain ⟨hloose, hread, hlookup⟩ := ih (credit acc event)
      rw [List.foldl_cons]
      by_cases hkind : event.eventType = .swap
      · obtain ⟨amount, token, hamount, htoken, hpaid⟩ := hswap hkind
        have hcredit : credit acc event = ⟨acc.byToken.insert token
            (readOr acc.byToken token 0 + amount), acc.unattributed⟩ := by
          simp [credit, hkind, hamount, htoken]
        rw [hcredit] at hloose hread hlookup ⊢
        refine ⟨hloose, fun text => ?_, fun text => ?_⟩
        · have hown : deal.amountOf text = if token = text then amount else 0 := by
            by_cases hsame : token = text <;> simp [Deal.amountOf, hpaid, Option.filter, hsame]
          rw [hread, readOr_insert_amount, List.map_cons, List.sum_cons, hown, add_assoc]
        · have hhead : (∃ amount, deal.paid = some (text, amount)) ↔ text = token := by
            simp [hpaid, eq_comm]
          rw [hlookup, isSome_lookup_insert, List.exists_mem_cons_iff, hhead, or_assoc,
            or_left_comm]
      · have hcredit : credit acc event = acc := by simp [credit, hkind]
        rw [hcredit] at hloose hread hlookup ⊢
        refine ⟨hloose, fun text => ?_, fun text => ?_⟩
        · rw [hread, List.map_cons, List.sum_cons]
          simp [Deal.amountOf, hother hkind]
        · rw [hlookup]
          simp [hother hkind]
  obtain ⟨hloose, hread, hlookup⟩ := hfold ⟨∅, 0⟩
  refine ⟨hloose, fun text => (hread text).trans (zero_add _), fun text => ?_⟩
  exact (hlookup text).trans (by simp)

end Counting

section Calls

variable {Address W : Type} [DecidableEq Address] {contract tokenA tokenB : Address}
variable {T : Sep41 Address W} {s : Storage Address W}

def dealtBy : Input Address W contract (Call Address) → Option (Deal Address)
  | .world _ => none
  | .call _ (.addLiquidity ..) => some ⟨.addLiquidity, none⟩
  | .call _ (.removeLiquidity ..) => some ⟨.removeLiquidity, none⟩
  | .call _ (.swap _ tokenIn amountIn _) => some ⟨.swap, some (tokenIn, amountIn)⟩

def deals (T : Sep41 Address W) (s : Storage Address W)
    (is : List (Input Address W contract (Call Address))) : List (Deal Address) :=
  (accepted (step T) s is).filterMap dealtBy

def dealOf : Event Address → Deal Address
  | .addLiq .. => ⟨.addLiquidity, none⟩
  | .rmLiq .. => ⟨.removeLiquidity, none⟩
  | .swap _ amountIn _ tokenIn .. => ⟨.swap, some (tokenIn, amountIn)⟩

theorem dealOf_events {env : Env Address contract} {w : W} {admin : Address} {feeBps : Nat}
    (h : initialise env (.fresh w) admin tokenA tokenB feeBps = .ok s)
    (is : List (Input Address W contract (Call Address))) :
    (run (step T) s is).events.map dealOf = deals T s is := by
  have hbooked : Throughout (step T) (Booked tokenA tokenB) s is :=
    throughout_of_along (C := fun _ _ => True) (fun _ _ _ hu _ hv => booked_step hv hu)
      (booked_initialise h) (along_true s is)
  have hstart : s.events.map dealOf = [] := by
    obtain ⟨-, -, rfl⟩ := initialise_eq_ok h
    rfl
  have hstep : ∀ (u : Storage Address W) (i : Input Address W contract (Call Address))
      (v : Storage Address W), Booked tokenA tokenB u → step T u i = .ok v →
      v.events.map dealOf = u.events.map dealOf ++ (dealtBy i).toList := by
    intro u i v hu hv
    cases i with
    | world w =>
      cases pure_eq_ok.mp hv
      exact (List.append_nil _).symm
    | call env c => cases invoke_transition hu.tokenA hu.tokenB hv <;> exact List.map_append
  have hrun : (run (step T) s is).events.map dealOf =
      s.events.map dealOf ++ (accepted (step T) s is).filterMap dealtBy :=
    record_along hstep hbooked
  rw [hrun, hstart, List.nil_append]
  rfl

end Calls

section Rows

variable {Address : Type} {S : Strkeys Address} {sdk : ScValSdk X} {rows : List EventRow}
variable {contractId : String} {events : List (Event Address)}

theorem dealIn_stored {event : Event Address} {row : EventRow}
    (h : Stored sdk S (publishedCpmm event) row) :
    ∃ e, parseFinancialEvent sdk row = some e ∧ dealIn e = some ((dealOf event).map S.text) := by
  have hdata : StoredData X S (publishedCpmm event) row := ⟨h.eventType, h.data⟩
  cases event with
  | addLiq => exact ⟨_, parseFinancialEvent_data hdata (classify_symbol false .addLiquidity), rfl⟩
  | rmLiq => exact ⟨_, parseFinancialEvent_data hdata (classify_symbol false .removeLiquidity), rfl⟩
  | swap trader amountIn amountOut tokenIn =>
    refine ⟨_, parseFinancialEvent_data hdata (classify_symbol false .swap), ?_⟩
    exact dealIn_swap rfl (bigInt_toString amountIn) rfl

theorem tells_stored {stored : List EventRow}
    (h : List.Forall₂ (fun row event => Stored sdk S (publishedCpmm event) row) stored events) :
    Tells (stored.filterMap (parseFinancialEvent sdk))
      (events.map fun event => (dealOf event).map S.text) := by
  induction h with
  | nil => exact .nil
  | cons hrow _ ih =>
    obtain ⟨e, hparse, hdeal⟩ := dealIn_stored hrow
    rw [List.filterMap_cons_some hparse]
    exact .cons hdeal ih

theorem tells_page (h : FullyIndexed sdk S events rows contractId) :
    ∃ told : List (Deal Address), told.Subperm (events.map dealOf) ∧
      told.length = min scanLimit events.length ∧
      Tells ((eventRows rows (isPoolRow contractId) scanLimit 0).filterMap
        (parseFinancialEvent sdk)) (told.map (Deal.map S.text)) := by
  obtain ⟨own, hperm, hstored⟩ := h
  have hnewest : (newestFirst (rows.filter (isPoolRow contractId))).Perm own :=
    ((List.perm_insertionSort _ _).trans (List.reverse_perm _)).trans hperm
  obtain ⟨shown, hshown, hevents⟩ := List.perm_comp_forall₂ hnewest hstored.flip
  refine ⟨(shown.take scanLimit).map dealOf, ?_, ?_, ?_⟩
  · exact ((List.take_sublist _ _).map dealOf).subperm.trans (hevents.map dealOf).subperm
  · rw [List.length_map, List.length_take, hevents.length_eq]
  · rw [eventRows, List.drop_zero, List.map_map]
    exact tells_stored (List.forall₂_take _ hshown)

end Rows

/-- The page adds up these deals. A token is listed when it was paid in. -/
structure Sums {Address : Type} [DecidableEq Address] (S : Strkeys Address)
    (told : List (Deal Address)) (page : PoolPage X) : Prop where
  events : page.eventCount = told.length
  trades : page.tradeCount = told.countP fun d => d.kind = .swap
  added : page.addLiquidityCount = told.countP fun d => d.kind = .addLiquidity
  removed : page.removeLiquidityCount = told.countP fun d => d.kind = .removeLiquidity
  paidIn : page.volume.amountInRaw = toString (told.map Deal.amount).sum
  byToken : ∀ text raw, (text, raw) ∈ page.volume.byTokenInRaw ↔
    ∃ token, S.text token = text ∧ (∃ d ∈ told, ∃ amount, d.paid = some (token, amount)) ∧
      raw = toString (told.map (Deal.amountOf token)).sum
  once : (page.volume.byTokenInRaw.map Prod.fst).Nodup
  attributed : page.volume.unattributedRaw = "0"

section Page

variable {Address : Type} [DecidableEq Address] {S : Strkeys Address} {sdk : ScValSdk X}
variable {told : List (Deal Address)} {events : List (PoolEvent X)}

theorem amountOf_text (hinj : Function.Injective S.text) (token : Address) (d : Deal Address) :
    (d.map S.text).amountOf (S.text token) = d.amountOf token := by
  unfold Deal.amountOf Deal.map
  cases d.paid with
  | none => rfl
  | some p => by_cases h : p.1 = token <;> simp [Option.filter, h, hinj.eq_iff]

theorem mem_byToken (events : List (PoolEvent X)) (text raw : String) :
    (text, raw) ∈ (tokenVolume events).byTokenInRaw ↔
      ((creditAll events).byToken.lookup text).isSome ∧
        raw = toString (readOr (creditAll events).byToken text 0) := by
  have hmem : (text, raw) ∈ (tokenVolume events).byTokenInRaw ↔
      ∃ amount, (creditAll events).byToken.lookup text = some amount ∧ toString amount = raw := by
    simp only [tokenVolume, List.mem_map, Prod.mk.injEq]
    constructor
    · rintro ⟨e, he, rfl, rfl⟩
      exact ⟨e.2, AList.mem_lookup_iff.mpr he, rfl⟩
    · rintro ⟨amount, hlookup, rfl⟩
      exact ⟨⟨text, amount⟩, AList.mem_lookup_iff.mp hlookup, rfl, rfl⟩
  rw [hmem]
  cases hlookup : (creditAll events).byToken.lookup text with
  | none => simp
  | some amount => simp [readOr, hlookup, eq_comm]

theorem sums_pageOf (hinj : Function.Injective S.text)
    (h : Tells events (told.map (Deal.map S.text))) (contractId : String) (rows : List EventRow)
    (state : Option PoolState) : Sums S told (pageOf contractId rows events state) where
  events := (length_eq h).trans (List.length_map _)
  trades := (countKind_eq h .swap).trans (List.countP_map ..)
  added := (countKind_eq h .addLiquidity).trans (List.countP_map ..)
  removed := (countKind_eq h .removeLiquidity).trans (List.countP_map ..)
  paidIn := by
    have hamounts : (told.map (Deal.map S.text)).map Deal.amount = told.map Deal.amount := by
      rw [List.map_map]
      exact List.map_congr_left fun d _ => Deal.amount_map S.text d
    exact (amountIn_eq h).trans (by rw [hamounts])
  byToken := by
    intro text raw
    obtain ⟨-, hread, hlookup⟩ := creditAll_eq h
    refine (mem_byToken events text raw).trans ?_
    rw [hread, hlookup]
    have hnamed : (∃ d ∈ told.map (Deal.map S.text), ∃ amount, d.paid = some (text, amount)) ↔
        ∃ token, S.text token = text ∧ ∃ d ∈ told, ∃ amount, d.paid = some (token, amount) := by
      simp only [List.mem_map, exists_exists_and_eq_and, Deal.map, Option.map_eq_some_iff,
        Prod.mk.injEq]
      constructor
      · rintro ⟨d, hd, amount, ⟨token, _⟩, hpaid, rfl, rfl⟩
        exact ⟨token, rfl, d, hd, _, hpaid⟩
      · rintro ⟨token, rfl, d, hd, amount, hpaid⟩
        exact ⟨d, hd, amount, ⟨token, amount⟩, hpaid, rfl, rfl⟩
    have hsum (token : Address) : ((told.map (Deal.map S.text)).map
        (Deal.amountOf (S.text token))).sum = (told.map (Deal.amountOf token)).sum := by
      rw [List.map_map]
      exact congrArg List.sum (List.map_congr_left fun d _ => amountOf_text hinj token d)
    constructor
    · rintro ⟨hlisted, rfl⟩
      obtain ⟨token, rfl, hpaid⟩ := hnamed.mp hlisted
      exact ⟨token, rfl, hpaid, by rw [hsum]⟩
    · rintro ⟨token, rfl, hpaid, rfl⟩
      exact ⟨hnamed.mpr ⟨token, rfl, hpaid⟩, by rw [hsum]⟩
  once := by
    have hkeys : (tokenVolume events).byTokenInRaw.map Prod.fst =
        (creditAll events).byToken.keys := by
      simp only [tokenVolume, List.map_map]
      rfl
    exact hkeys ▸ (creditAll events).byToken.keys_nodup
  attributed := congrArg toString (creditAll_eq h).1

end Page

section Run

variable {Address W : Type} [DecidableEq Address] {contract tokenA tokenB : Address}
variable {T : Sep41 Address W} {S : Strkeys Address} {sdk : ScValSdk X} {s : Storage Address W}

/-- The page of an indexed pool adds up what its accepted calls came to: each
of them once, and all of them as long as they are no more than it looks at. -/
theorem page_sums_calls {env : Env Address contract} {w : W} {admin : Address} {feeBps : Nat}
    (h : initialise env (.fresh w) admin tokenA tokenB feeBps = .ok s)
    (is : List (Input Address W contract (Call Address))) (hinj : Function.Injective S.text)
    {rows : List EventRow} {contractId : String}
    (hindexed : FullyIndexed sdk S (run (step T) s is).events rows contractId)
    {contracts : List String} {page : PoolPage X}
    (hpage : poolPage sdk contracts rows contractId = .found page) :
    ∃ told, told.Subperm (deals T s is) ∧ told.length = min scanLimit (deals T s is).length ∧
      Sums S told page := by
  obtain ⟨told, hsub, hlength, htells⟩ := tells_page hindexed
  rw [dealOf_events h] at hsub
  have hcount : (run (step T) s is).events.length = (deals T s is).length := by
    rw [← dealOf_events h, List.length_map]
  refine ⟨told, hsub, hcount ▸ hlength, ?_⟩
  unfold poolPage at hpage
  dsimp only at hpage
  split at hpage
  next => cases hpage
  next =>
    split at hpage
    next => cases hpage
    next state hstate =>
      cases hpage
      exact sums_pageOf hinj htells _ _ _

end Run

section Sample

theorem latestPoolState_singleton {event : PoolEvent X} (h : event.timestamp = 0) :
    ∃ state, latestPoolState [event] = some state := by
  have hobserve : ∃ latest, observe event = some latest := by
    unfold observe
    rw [h]
    split <;> exact ⟨_, rfl⟩
  obtain ⟨latest, hlatest⟩ := hobserve
  simp [latestPoolState, learn, hlatest]

theorem deposit_shown : ∃ page, poolPage samplePlatform.toScValSdk ["C1"] [depositRow 1] "C1" =
    .found page := by
  have hrow : isPoolRow "C1" (depositRow 1) = true := by
    have hkind : (classifyFinancialEvent "add_liq").isSome = true := by decide
    rw [isPoolRow, (stored_deposit 1).eventType]
    exact Bool.and_eq_true_iff.mpr ⟨rfl, hkind⟩
  have hrows : eventRows [depositRow 1] (isPoolRow "C1") scanLimit 0 = [depositRow 1] := by
    rw [eventRows, List.filter_cons_of_pos hrow]
    rfl
  let event : PoolEvent Empty := poolEvent holderStrkeys (depositRow 1)
    (accountOf samplePlatform.toScValSdk (depositRow 1)) .addLiquidity
    (publishedCpmm (.addLiq (1 : Fin 5) 100 100 100 3 4 100 100 100)).payload
  have hparse : parseFinancialEvent samplePlatform.toScValSdk (depositRow 1) = some event :=
    parseFinancialEvent_data ⟨(stored_deposit 1).eventType, (stored_deposit 1).data⟩
      (classify_symbol false .addLiquidity)
  have htimestamp : event.timestamp = 0 := rfl
  obtain ⟨state, hstate⟩ := latestPoolState_singleton htimestamp
  have hne : ¬([depositRow 1].isEmpty = true ∧ "C1" ∉ ["C1"]) := fun h => absurd h.1 (by decide)
  unfold poolPage
  dsimp only
  rw [hrows, if_neg hne, List.filterMap_cons_some hparse, List.filterMap_nil, hstate]
  exact ⟨_, rfl⟩

theorem page_sums_calls_sample : ∃ page,
    poolPage samplePlatform.toScValSdk ["C1"] [depositRow 1] "C1" = .found page ∧
      ∃ told, told.Subperm (deals (bookToken (Fin 5)) openPool [deposit 1]) ∧
        told.length = min scanLimit (deals (bookToken (Fin 5)) openPool [deposit 1]).length ∧
        Sums holderStrkeys told page := by
  obtain ⟨page, hpage⟩ := deposit_shown
  exact ⟨page, hpage, page_sums_calls initialise_openPool [deposit 1] holderStrkeys_injective
    (indexed_deposit 1 (.inl rfl)) hpage⟩

end Sample

end Suban.Indexer.Volumes

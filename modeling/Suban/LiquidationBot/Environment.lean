import Suban.Basis.Calls
import Suban.Basis.Rows
import Suban.Indexer.Access
import Suban.Indexer.Financial
import Suban.LiquidationBot.Bot

namespace Suban.LiquidationBot.Environment

open Suban.Basis.Calls Suban.Basis.Numbers Suban.Basis.Rows Suban.Indexer.Financial
open Suban.LiquidationBot.Bot
open Suban.Indexer.TimeFilters (isWhitespace)
open Suban.Indexer.Access (trim)

abbrev Env := String → Option String

/-- A variable that is blank counts like one that is not set. -/
def valueOf (env : Env) (key : String) : Option String :=
  ((env key).map fun text => String.ofList (trim text.toList)).filter (· ≠ "")

def required (env : Env) (key : String) : Outcome String String :=
  okOr (valueOf env key) (key ++ " is required")

def positiveBigInt (env : Env) (key fallback : String) : Outcome String Nat :=
  okOr (numeral ((valueOf env key).getD fallback).toList) (key ++ " must be a non-negative integer")

def positiveInt (env : Env) (key : String) (fallback : Nat) : Outcome String Nat := do
  let value ← okOr (numeral ((valueOf env key).getD (toString fallback)).toList)
    (key ++ " must be a positive integer")
  -- from 2 ^ 53 on the number that is read is no safe integer, however it is rounded
  rejectIf (2 ^ 53 ≤ value ∨ value = 0) (key ++ " must be a positive integer")
  pure value

def entriesOf (raw : Option String) : List String :=
  ((((raw.getD "").toList.splitOn ',').map trim).filter (· ≠ [])).map String.ofList

def parseAccounts (raw : Option String) : Outcome String (List String) :=
  match (entriesOf raw).find? fun account => !isAccount account with
  | some account =>
    .error (.error ("LIQUIDATION_ACCOUNTS contains an invalid address: " ++ account))
  | none => .ok (insertAll id (entriesOf raw) [])

def parseMode (text : String) : Outcome String Mode :=
  if text = "dry-run" then .ok .dryRun
  else if text = "execute" then .ok .execute
  else .error (.error "LIQUIDATION_MODE must be dry-run or execute")

def parseFee (env : Env) : Outcome String String := do
  let raw := (valueOf env "STELLAR_TX_FEE").getD "2000000"
  rejectIf ((numeral raw.toList).getD 0 = 0)
    "STELLAR_TX_FEE must be a positive integer in stroops"
  pure raw

/-- All of a configuration, which a pass reads a part of. -/
structure LoadedConfig extends BotConfig String where
  rpcUrl : String
  networkPassphrase : String
  txFee : String
  pollMs : Nat

def loadConfig (env : Env) : Outcome String LoadedConfig := do
  let poolId ← required env "LENDING_POOL_CONTRACT_ID"
  rejectIf (isContract poolId = false) "LENDING_POOL_CONTRACT_ID must be a Soroban contract id"
  let mode ← parseMode ((valueOf env "LIQUIDATION_MODE").getD "dry-run")
  let secret := valueOf env "LIQUIDATOR_SECRET"
  let publicKey := valueOf env "LIQUIDATOR_PUBLIC_KEY"
  rejectIf (mode = .execute ∧ secret = none) "LIQUIDATOR_SECRET is required in execute mode"
  rejectIf (secret = none ∧ publicKey = none)
    "LIQUIDATOR_PUBLIC_KEY (or LIQUIDATOR_SECRET) is required for simulation"
  rejectIf (∃ key ∈ publicKey, isAccount key = false)
    "LIQUIDATOR_PUBLIC_KEY must be a Stellar account address"
  let accounts ← parseAccounts (env "LIQUIDATION_ACCOUNTS")
  let dataPlatformUrl := valueOf env "DATA_PLATFORM_URL"
  rejectIf (accounts = [] ∧ dataPlatformUrl = none)
    "LIQUIDATION_ACCOUNTS or DATA_PLATFORM_URL is required for candidate discovery"
  let txFee ← parseFee env
  let maxRepayRaw ← positiveBigInt env "LIQUIDATION_MAX_REPAY_RAW" "1000000000"
  let minHealthBps ← positiveBigInt env "LIQUIDATION_MIN_HEALTH_BPS" "10000"
  let bonusBps ← positiveBigInt env "LIQUIDATION_BONUS_BPS" "500"
  let slippageBps ← positiveBigInt env "LIQUIDATION_SLIPPAGE_BPS" "100"
  let pollMs ← positiveInt env "LIQUIDATION_POLL_MS" 300000
  let maxCandidates ← positiveInt env "LIQUIDATION_MAX_CANDIDATES" 100
  pure
    { poolId := poolId
      mode := mode
      liquidatorSecret := secret
      liquidatorPublicKey := publicKey
      accounts := accounts
      dataPlatformUrl := dataPlatformUrl
      maxRepayRaw := maxRepayRaw
      minHealthBps := minHealthBps
      bonusBps := bonusBps
      slippageBps := slippageBps
      maxCandidates := maxCandidates
      rpcUrl := (valueOf env "STELLAR_RPC_URL").getD "https://rpc.testnet.minepi.com"
      networkPassphrase := (valueOf env "STELLAR_NETWORK_PASSPHRASE").getD "Pi Testnet"
      txFee := txFee
      pollMs := pollMs }

/-- Each variable on its own, and those that have to go together. -/
structure Loads (env : Env) (c : LoadedConfig) : Prop where
  poolId : valueOf env "LENDING_POOL_CONTRACT_ID" = some c.poolId
  contract : isContract c.poolId = true
  mode : parseMode ((valueOf env "LIQUIDATION_MODE").getD "dry-run") = .ok c.mode
  secret : valueOf env "LIQUIDATOR_SECRET" = c.liquidatorSecret
  publicKey : valueOf env "LIQUIDATOR_PUBLIC_KEY" = c.liquidatorPublicKey
  signs : ¬(c.mode = .execute ∧ c.liquidatorSecret = none)
  signer : ¬(c.liquidatorSecret = none ∧ c.liquidatorPublicKey = none)
  account : ∀ key ∈ c.liquidatorPublicKey, isAccount key = true
  accounts : parseAccounts (env "LIQUIDATION_ACCOUNTS") = .ok c.accounts
  dataPlatformUrl : valueOf env "DATA_PLATFORM_URL" = c.dataPlatformUrl
  candidates : ¬(c.accounts = [] ∧ c.dataPlatformUrl = none)
  txFee : parseFee env = .ok c.txFee
  maxRepayRaw : positiveBigInt env "LIQUIDATION_MAX_REPAY_RAW" "1000000000" = .ok c.maxRepayRaw
  minHealthBps : positiveBigInt env "LIQUIDATION_MIN_HEALTH_BPS" "10000" = .ok c.minHealthBps
  bonusBps : positiveBigInt env "LIQUIDATION_BONUS_BPS" "500" = .ok c.bonusBps
  slippageBps : positiveBigInt env "LIQUIDATION_SLIPPAGE_BPS" "100" = .ok c.slippageBps
  pollMs : positiveInt env "LIQUIDATION_POLL_MS" 300000 = .ok c.pollMs
  maxCandidates : positiveInt env "LIQUIDATION_MAX_CANDIDATES" 100 = .ok c.maxCandidates
  rpcUrl : (valueOf env "STELLAR_RPC_URL").getD "https://rpc.testnet.minepi.com" = c.rpcUrl
  networkPassphrase :
    (valueOf env "STELLAR_NETWORK_PASSPHRASE").getD "Pi Testnet" = c.networkPassphrase

theorem loadConfig_iff (env : Env) (c : LoadedConfig) : loadConfig env = .ok c ↔ Loads env c := by
  constructor
  · intro h
    simp only [loadConfig, required, bind_eq_ok, okOr_eq_ok, rejectIf_eq_ok, pure_eq_ok] at h
    obtain ⟨poolId, hpoolId, _, hcontract, mode, hmode, _, hsigns, _, hsigner, _, haccount,
      accounts, haccounts, _, hcandidates, txFee, htxFee, maxRepayRaw, hmaxRepayRaw,
      minHealthBps, hminHealthBps, bonusBps, hbonusBps, slippageBps, hslippageBps,
      pollMs, hpollMs, maxCandidates, hmaxCandidates, rfl⟩ := h
    have hall : ∀ key ∈ valueOf env "LIQUIDATOR_PUBLIC_KEY", isAccount key = true :=
      fun key hkey => Bool.of_not_eq_false fun hfalse => haccount ⟨key, hkey, hfalse⟩
    exact ⟨hpoolId, Bool.of_not_eq_false hcontract, hmode, rfl, rfl, hsigns, hsigner, hall,
      haccounts, rfl, hcandidates, htxFee, hmaxRepayRaw, hminHealthBps, hbonusBps, hslippageBps,
      hpollMs, hmaxCandidates, rfl, rfl⟩
  · intro h
    have haccount : ¬∃ key ∈ c.liquidatorPublicKey, isAccount key = false := by
      rintro ⟨key, hkey, hfalse⟩
      exact Bool.noConfusion ((h.account key hkey).symm.trans hfalse)
    have hcontract : ¬isContract c.poolId = false := fun hfalse =>
      Bool.noConfusion (h.contract.symm.trans hfalse)
    simp only [loadConfig, required, bind_eq_ok, okOr_eq_ok, rejectIf_eq_ok, pure_eq_ok,
      h.secret, h.publicKey, h.dataPlatformUrl, h.rpcUrl, h.networkPassphrase]
    exact ⟨c.poolId, h.poolId, (), hcontract, c.mode, h.mode, (), h.signs, (), h.signer, (),
      haccount, c.accounts, h.accounts, (), h.candidates, c.txFee, h.txFee, c.maxRepayRaw,
      h.maxRepayRaw, c.minHealthBps, h.minHealthBps, c.bonusBps, h.bonusBps, c.slippageBps,
      h.slippageBps, c.pollMs, h.pollMs, c.maxCandidates, h.maxCandidates, rfl⟩

section Texts

variable {text : String} {cs : List Char}

/-- A text that stands for itself in the environment. -/
def Neat (text : String) : Prop := text ≠ "" ∧ trim text.toList = text.toList

theorem trim_trim (cs : List Char) : trim (trim cs) = trim cs := by
  have hback : (trim cs).rdropWhile isWhitespace = trim cs := List.rdropWhile_idempotent _ _
  have hfront : (trim cs).dropWhile isWhitespace = trim cs := by
    rw [List.dropWhile_eq_self_iff]
    intro hlength
    have hstart : trim cs <+: cs.dropWhile isWhitespace := List.rdropWhile_prefix _ _
    have hlength' := Nat.lt_of_lt_of_le hlength hstart.length_le
    rw [hstart.getElem hlength]
    exact List.dropWhile_eq_self_iff.mp (List.dropWhile_idempotent isWhitespace cs) hlength'
  rw [trim, hfront, hback]

theorem trim_of_none (h : ∀ c ∈ cs, isWhitespace c = false) : trim cs = cs := by
  have hfront : cs.dropWhile isWhitespace = cs := by
    rw [List.dropWhile_eq_self_iff]
    exact fun hlength => Bool.eq_false_iff.mp (h _ (List.getElem_mem hlength))
  have hback : cs.rdropWhile isWhitespace = cs := by
    rw [List.rdropWhile_eq_self_iff]
    exact fun hne => Bool.eq_false_iff.mp (h _ (List.getLast_mem hne))
  rw [trim, hfront, hback]

theorem neat_of_none (hne : text ≠ "") (h : ∀ c ∈ text.toList, isWhitespace c = false) :
    Neat text := ⟨hne, trim_of_none h⟩

theorem neat_valueOf {env : Env} {key : String} (h : valueOf env key = some text) :
    Neat text := by
  obtain ⟨htext, hne⟩ := Option.filter_eq_some_iff.mp h
  obtain ⟨raw, -, rfl⟩ := Option.map_eq_some_iff.mp htext
  exact ⟨of_decide_eq_true hne, by rw [String.toList_ofList, trim_trim]⟩

theorem valueOf_neat {env : Env} {key : String} (h : env key = some text) (hneat : Neat text) :
    valueOf env key = some text := by
  rw [valueOf, h, Option.map_some, hneat.2, String.ofList_toList]
  exact Option.filter_some_pos (decide_eq_true hneat.1)

theorem valueOf_none {env : Env} {key : String} (h : env key = none) : valueOf env key = none := by
  rw [valueOf, h]
  rfl

theorem plain_of_isBase32 {c : Char} (h : isBase32 c = true) :
    isWhitespace c = false ∧ c ≠ ',' := by
  have hrange : 65 ≤ c.toNat ∧ c.toNat ≤ 90 ∨ 50 ≤ c.toNat ∧ c.toNat ≤ 55 := by
    simpa [isBase32, Char.le_def, UInt32.le_iff_toNat_le] using h
  constructor
  · rw [isWhitespace, decide_eq_false_iff_not]
    simp only [List.mem_cons, List.not_mem_nil, or_false]
    omega
  · rintro rfl
    revert hrange
    decide

theorem plain_of_isStrkey {kind : Char} (hkind : isWhitespace kind = false ∧ kind ≠ ',')
    (h : isStrkey kind text = true) :
    text ≠ "" ∧ ∀ c ∈ text.toList, isWhitespace c = false ∧ c ≠ ',' := by
  unfold isStrkey at h
  split at h
  next => cases h
  next first rest htext =>
    simp only [Bool.and_eq_true, decide_eq_true_eq] at h
    obtain ⟨⟨rfl, -⟩, hrest⟩ := h
    refine ⟨fun hempty => ?_, ?_⟩
    · rw [hempty] at htext
      cases htext
    · rw [htext]
      exact List.forall_mem_cons.mpr ⟨hkind, fun c hc =>
        plain_of_isBase32 (List.all_eq_true.mp hrest c hc)⟩

theorem plain_of_isAccount (h : isAccount text = true) :
    text ≠ "" ∧ ∀ c ∈ text.toList, isWhitespace c = false ∧ c ≠ ',' :=
  plain_of_isStrkey (by decide) h

theorem neat_of_isAccount (h : isAccount text = true) : Neat text :=
  neat_of_none (plain_of_isAccount h).1 fun c hc => ((plain_of_isAccount h).2 c hc).1

theorem neat_of_isContract (h : isContract text = true) : Neat text := by
  obtain ⟨hne, hplain⟩ := plain_of_isStrkey (by decide) h
  exact neat_of_none hne fun c hc => (hplain c hc).1

theorem not_isWhitespace_of_isDigit {c : Char} (h : c.isDigit = true) : isWhitespace c = false := by
  have hrange : 48 ≤ c.toNat ∧ c.toNat ≤ 57 := by
    simpa [Char.isDigit, UInt32.le_iff_toNat_le] using h
  rw [isWhitespace, decide_eq_false_iff_not]
  simp only [List.mem_cons, List.not_mem_nil, or_false]
  omega

theorem neat_of_numeral {n : Nat} (h : numeral text.toList = some n) : Neat text := by
  unfold numeral at h
  split at h
  next hdigits =>
    refine neat_of_none (fun hempty => hdigits.1 (by rw [hempty]; rfl)) fun c hc => ?_
    exact not_isWhitespace_of_isDigit (List.all_eq_true.mp hdigits.2 c hc)
  next => cases h

theorem numeral_toString (n : Nat) : numeral (toString n).toList = some n := by
  have htext : (toString n).toList = Nat.toDigits 10 n := by simp
  rw [htext, numeral_toDigits]

end Texts

/-- What holds of a configuration that was loaded. -/
structure Sound (c : LoadedConfig) : Prop where
  contract : isContract c.poolId = true
  signs : c.mode = .execute → c.liquidatorSecret ≠ none
  signer : c.liquidatorSecret ≠ none ∨ c.liquidatorPublicKey ≠ none
  account : ∀ key ∈ c.liquidatorPublicKey, isAccount key = true
  accounts : ∀ a ∈ c.accounts, isAccount a = true
  once : c.accounts.Nodup
  candidates : c.accounts ≠ [] ∨ c.dataPlatformUrl ≠ none
  secret : ∀ text ∈ c.liquidatorSecret, Neat text
  dataPlatformUrl : ∀ text ∈ c.dataPlatformUrl, Neat text
  rpcUrl : Neat c.rpcUrl
  networkPassphrase : Neat c.networkPassphrase
  txFee : ∃ fee, numeral c.txFee.toList = some fee ∧ 0 < fee
  pollMs : 0 < c.pollMs ∧ c.pollMs < 2 ^ 53
  maxCandidates : 0 < c.maxCandidates ∧ c.maxCandidates < 2 ^ 53

section Loading

variable {env : Env} {c : LoadedConfig}

theorem parseAccounts_eq_ok {raw : Option String} {accounts : List String} :
    parseAccounts raw = .ok accounts ↔
      (∀ a ∈ entriesOf raw, isAccount a = true) ∧ insertAll id (entriesOf raw) [] = accounts := by
  unfold parseAccounts
  split
  next a ha =>
    have hbad := List.find?_some ha
    have hmem := List.mem_of_find?_eq_some ha
    constructor
    · intro h
      cases h
    · rintro ⟨hall, -⟩
      rw [hall a hmem] at hbad
      cases hbad
  next hnone =>
    have hall : ∀ a ∈ entriesOf raw, isAccount a = true := fun a ha => by
      simpa using List.find?_eq_none.mp hnone a ha
    exact ⟨fun h => ⟨hall, Except.ok.inj h⟩, fun h => congrArg Except.ok h.2⟩

theorem positiveInt_eq_ok {key : String} {fallback n : Nat} :
    positiveInt env key fallback = .ok n ↔
      numeral ((valueOf env key).getD (toString fallback)).toList = some n ∧
        0 < n ∧ n < 2 ^ 53 := by
  simp only [positiveInt, bind_eq_ok, okOr_eq_ok, rejectIf_eq_ok, pure_eq_ok]
  constructor
  · rintro ⟨m, hm, _, hsafe, rfl⟩
    exact ⟨hm, by omega⟩
  · rintro ⟨hn, hsafe⟩
    exact ⟨n, hn, (), by omega, rfl⟩

theorem parseFee_eq_ok {fee : String} : parseFee env = .ok fee ↔
    (valueOf env "STELLAR_TX_FEE").getD "2000000" = fee ∧
      ∃ n, numeral fee.toList = some n ∧ 0 < n := by
  simp only [parseFee, bind_eq_ok, rejectIf_eq_ok, pure_eq_ok]
  constructor
  · rintro ⟨_, hpos, rfl⟩
    refine ⟨rfl, ?_⟩
    cases hn : numeral ((valueOf env "STELLAR_TX_FEE").getD "2000000").toList with
    | none => exact absurd (by rw [hn]; rfl) hpos
    | some n =>
      rw [hn] at hpos
      exact ⟨n, rfl, Nat.pos_of_ne_zero hpos⟩
  · rintro ⟨rfl, n, hn, hpos⟩
    exact ⟨(), by rw [hn]; exact hpos.ne', rfl⟩

theorem nodup_insertAll (rows : List String) {table : List String}
    (h : (table.map id).Nodup) : ((insertAll id rows table).map id).Nodup := by
  induction rows generalizing table with
  | nil => exact h
  | cons a rows ih => exact ih (nodup_insertOrIgnore h)

theorem sound_of_loads (h : Loads env c) : Sound c := by
  obtain ⟨hall, haccounts⟩ := parseAccounts_eq_ok.mp h.accounts
  refine
    { contract := h.contract
      signs := fun hmode hnone => h.signs ⟨hmode, hnone⟩
      signer := not_and_or.mp h.signer
      account := h.account
      accounts := fun a ha => ?_
      once := ?_
      candidates := not_and_or.mp h.candidates
      secret := fun text htext => neat_valueOf (h.secret.trans htext)
      dataPlatformUrl := fun text htext => neat_valueOf (h.dataPlatformUrl.trans htext)
      rpcUrl := ?_
      networkPassphrase := ?_
      txFee := (parseFee_eq_ok.mp h.txFee).2
      pollMs := (positiveInt_eq_ok.mp h.pollMs).2
      maxCandidates := (positiveInt_eq_ok.mp h.maxCandidates).2 }
  · rw [← haccounts] at ha
    exact hall a ((of_mem_insertAll ha).resolve_left List.not_mem_nil)
  · rw [← haccounts, ← List.map_id (insertAll id _ _)]
    exact nodup_insertAll (entriesOf (env "LIQUIDATION_ACCOUNTS")) List.nodup_nil
  · rw [← h.rpcUrl]
    cases hvalue : valueOf env "STELLAR_RPC_URL" with
    | none => exact ⟨by decide, by decide +kernel⟩
    | some text => exact neat_valueOf hvalue
  · rw [← h.networkPassphrase]
    cases hvalue : valueOf env "STELLAR_NETWORK_PASSPHRASE" with
    | none => exact ⟨by decide, by decide +kernel⟩
    | some text => exact neat_valueOf hvalue

end Loading

def modeText : Mode → String
  | .dryRun => "dry-run"
  | .execute => "execute"

def written (c : LoadedConfig) : Env := fun key =>
  (List.lookup key
    [("LENDING_POOL_CONTRACT_ID", some c.poolId),
      ("LIQUIDATION_MODE", some (modeText c.mode)),
      ("LIQUIDATOR_SECRET", c.liquidatorSecret),
      ("LIQUIDATOR_PUBLIC_KEY", c.liquidatorPublicKey),
      ("LIQUIDATION_ACCOUNTS",
        some (String.ofList ([','].intercalate (c.accounts.map String.toList)))),
      ("DATA_PLATFORM_URL", c.dataPlatformUrl),
      ("STELLAR_TX_FEE", some c.txFee),
      ("LIQUIDATION_MAX_REPAY_RAW", some (toString c.maxRepayRaw)),
      ("LIQUIDATION_MIN_HEALTH_BPS", some (toString c.minHealthBps)),
      ("LIQUIDATION_BONUS_BPS", some (toString c.bonusBps)),
      ("LIQUIDATION_SLIPPAGE_BPS", some (toString c.slippageBps)),
      ("LIQUIDATION_POLL_MS", some (toString c.pollMs)),
      ("LIQUIDATION_MAX_CANDIDATES", some (toString c.maxCandidates)),
      ("STELLAR_RPC_URL", some c.rpcUrl),
      ("STELLAR_NETWORK_PASSPHRASE", some c.networkPassphrase)]).join

section Writing

variable {env : Env} {c : LoadedConfig} {key : String}

theorem valueOf_option {value : Option String} (h : env key = value)
    (hneat : ∀ text ∈ value, Neat text) : valueOf env key = value := by
  cases value with
  | none => exact valueOf_none h
  | some text => exact valueOf_neat h (hneat text rfl)

theorem valueOf_number {n : Nat} (h : env key = some (toString n)) :
    valueOf env key = some (toString n) := valueOf_neat h (neat_of_numeral (numeral_toString n))

theorem positiveBigInt_number {n : Nat} {fallback : String} (h : env key = some (toString n)) :
    positiveBigInt env key fallback = .ok n := by
  rw [positiveBigInt, valueOf_number h, Option.getD_some, numeral_toString]
  rfl

theorem positiveInt_number {n fallback : Nat} (h : env key = some (toString n))
    (hsafe : 0 < n ∧ n < 2 ^ 53) : positiveInt env key fallback = .ok n := by
  rw [positiveInt_eq_ok, valueOf_number h, Option.getD_some]
  exact ⟨numeral_toString n, hsafe⟩

theorem entriesOf_join {accounts : List String} (h : ∀ a ∈ accounts, isAccount a = true) :
    entriesOf (some (String.ofList ([','].intercalate (accounts.map String.toList)))) =
      accounts := by
  by_cases hempty : accounts = []
  · rw [hempty]
    decide +kernel
  have hcomma : ∀ l ∈ accounts.map String.toList, ',' ∉ l := by
    intro l hl hmem
    obtain ⟨a, ha, rfl⟩ := List.mem_map.mp hl
    exact ((plain_of_isAccount (h a ha)).2 ',' hmem).2 rfl
  have htrim : (accounts.map String.toList).map trim = accounts.map String.toList := by
    rw [List.map_map]
    exact List.map_congr_left fun a ha => (neat_of_isAccount (h a ha)).2
  have hkept : (accounts.map String.toList).filter (· ≠ []) = accounts.map String.toList := by
    rw [List.filter_eq_self]
    intro l hl
    obtain ⟨a, ha, rfl⟩ := List.mem_map.mp hl
    have hne := (plain_of_isAccount (h a ha)).1
    exact decide_eq_true fun hnil => hne (String.toList_eq_nil_iff.mp hnil)
  have hback : (accounts.map String.toList).map String.ofList = accounts := by
    rw [List.map_map]
    exact (List.map_congr_left fun a _ => String.ofList_toList).trans (List.map_id accounts)
  rw [entriesOf, Option.getD_some, String.toList_ofList,
    List.splitOn_intercalate ',' hcomma (by simpa using hempty), htrim, hkept, hback]

theorem loads_written (h : Sound c) : Loads (written c) c := by
  have hmode : valueOf (written c) "LIQUIDATION_MODE" = some (modeText c.mode) := by
    refine valueOf_neat rfl ?_
    cases c.mode <;> exact ⟨by decide, by decide +kernel⟩
  obtain ⟨fee, hfee, hpos⟩ := h.txFee
  have htxFee : valueOf (written c) "STELLAR_TX_FEE" = some c.txFee :=
    valueOf_neat rfl (neat_of_numeral hfee)
  have haccounts : written c "LIQUIDATION_ACCOUNTS" =
      some (String.ofList ([','].intercalate (c.accounts.map String.toList))) := rfl
  exact
    { poolId := valueOf_neat rfl (neat_of_isContract h.contract)
      contract := h.contract
      mode := by rw [hmode, Option.getD_some]; cases c.mode <;> rfl
      secret := valueOf_option rfl h.secret
      publicKey := valueOf_option rfl fun key hkey =>
        neat_of_isAccount (h.account key hkey)
      signs := fun hnone => h.signs hnone.1 hnone.2
      signer := not_and_or.mpr h.signer
      account := h.account
      accounts := by
        rw [parseAccounts_eq_ok, haccounts, entriesOf_join h.accounts]
        exact ⟨h.accounts, insertAll_of_nodup (by simpa using h.once)⟩
      dataPlatformUrl := valueOf_option rfl h.dataPlatformUrl
      candidates := not_and_or.mpr h.candidates
      txFee := by
        rw [parseFee_eq_ok, htxFee]
        exact ⟨rfl, fee, hfee, hpos⟩
      maxRepayRaw := positiveBigInt_number rfl
      minHealthBps := positiveBigInt_number rfl
      bonusBps := positiveBigInt_number rfl
      slippageBps := positiveBigInt_number rfl
      pollMs := positiveInt_number rfl h.pollMs
      maxCandidates := positiveInt_number rfl h.maxCandidates
      rpcUrl := congrArg (Option.getD · "https://rpc.testnet.minepi.com")
        (valueOf_neat rfl h.rpcUrl)
      networkPassphrase := congrArg (Option.getD · "Pi Testnet")
        (valueOf_neat rfl h.networkPassphrase) }

end Writing

section Refusing

variable {env env' : Env} {c : LoadedConfig} {e : Failure String} {key : String} {α : Type}

def Names (key : String) (e : Failure String) : Prop :=
  ∃ message, e = .error message ∧ key.toList <+: message.toList

/-- The variables that a variable has to go with. -/
def companions (key : String) : List String :=
  (List.lookup key
    [("LIQUIDATOR_SECRET", ["LIQUIDATION_MODE"]),
      ("LIQUIDATOR_PUBLIC_KEY", ["LIQUIDATOR_SECRET"]),
      ("LIQUIDATION_ACCOUNTS", ["DATA_PLATFORM_URL"])]).getD []

/-- The error names a variable, and nothing is loaded however the others are set, but
for those that have to go with this one. -/
structure Blames (env : Env) (e : Failure String) (key : String) : Prop where
  named : Names key e
  refused : ∀ env' : Env, (∀ k ∈ key :: companions key, env' k = env k) →
    ∀ c, loadConfig env' ≠ .ok c

theorem names_append (key rest : String) : Names key (.error (key ++ rest)) := by
  refine ⟨_, rfl, ?_⟩
  rw [String.toList_append]
  exact List.prefix_append _ _

theorem rejectIf_eq_error {p : Prop} [Decidable p] {message : String} :
    rejectIf p message = .error e ↔ p ∧ e = .error message := by
  by_cases h : p <;> simp [rejectIf, h, eq_comm]

theorem okOr_eq_error {o : Option α} {message : String} :
    okOr o message = .error e ↔ o = none ∧ e = .error message := by
  cases o <;> simp [okOr, eq_comm]

theorem names_required (h : required env key = .error e) : Names key e := by
  obtain ⟨-, rfl⟩ := okOr_eq_error.mp h
  exact names_append key _

theorem names_positiveBigInt {fallback : String} (h : positiveBigInt env key fallback = .error e) :
    Names key e := by
  obtain ⟨-, rfl⟩ := okOr_eq_error.mp h
  exact names_append key _

theorem names_positiveInt {fallback : Nat} (h : positiveInt env key fallback = .error e) :
    Names key e := by
  simp only [positiveInt, bind_eq_error, okOr_eq_error, rejectIf_eq_error] at h
  obtain ⟨-, rfl⟩ | ⟨n, -, ⟨-, rfl⟩ | ⟨_, -, h⟩⟩ := h
  · exact names_append key _
  · exact names_append key _
  · cases h

theorem names_parseMode {text : String} (h : parseMode text = .error e) :
    Names "LIQUIDATION_MODE" e := by
  unfold parseMode at h
  split at h
  · cases h
  · split at h
    · cases h
    · cases h
      exact ⟨_, rfl, by decide⟩

theorem names_parseAccounts {raw : Option String} (h : parseAccounts raw = .error e) :
    Names "LIQUIDATION_ACCOUNTS" e := by
  unfold parseAccounts at h
  split at h
  · cases h
    refine ⟨_, rfl, ?_⟩
    rw [String.toList_append]
    exact List.IsPrefix.trans (by decide) (List.prefix_append _ _)
  · cases h

theorem names_parseFee (h : parseFee env = .error e) : Names "STELLAR_TX_FEE" e := by
  simp only [parseFee, bind_eq_error, rejectIf_eq_error] at h
  obtain ⟨-, rfl⟩ | ⟨_, -, h⟩ := h
  · exact ⟨_, rfl, by decide⟩
  · cases h

theorem blames_of_not_loads (hnames : Names key e)
    (hloads : ∀ env' c, (∀ k ∈ key :: companions key, env' k = env k) → ¬Loads env' c) :
    Blames env e key :=
  ⟨hnames, fun env' hagree c hload => hloads env' c hagree ((loadConfig_iff env' c).mp hload)⟩

/-- A variable that is read on its own is to blame alone. -/
theorem blames_alone (part : Env → Outcome String α) (h : part env = .error e)
    (hnames : Names key e)
    (hsame : ∀ env' : Env, env' key = env key → part env' = part env)
    (hloads : ∀ env' c, Loads env' c → ∃ a, part env' = .ok a) : Blames env e key := by
  refine blames_of_not_loads hnames fun env' c hagree hc => ?_
  obtain ⟨a, ha⟩ := hloads env' c hc
  rw [hsame env' (hagree key List.mem_cons_self), h] at ha
  cases ha

theorem valueOf_congr (h : env' key = env key) : valueOf env' key = valueOf env key := by
  rw [valueOf, h, valueOf]

theorem parseFee_congr (h : env' "STELLAR_TX_FEE" = env "STELLAR_TX_FEE") :
    parseFee env' = parseFee env := by
  rw [parseFee, valueOf_congr h, parseFee]

theorem positiveBigInt_congr {fallback : String} (h : env' key = env key) :
    positiveBigInt env' key fallback = positiveBigInt env key fallback := by
  rw [positiveBigInt, valueOf_congr h, positiveBigInt]

theorem positiveInt_congr {fallback : Nat} (h : env' key = env key) :
    positiveInt env' key fallback = positiveInt env key fallback := by
  rw [positiveInt, valueOf_congr h, positiveInt]

theorem blames_of_error (h : loadConfig env = .error e) : ∃ key, Blames env e key := by
  simp only [loadConfig, bind_eq_error, rejectIf_eq_error, rejectIf_eq_ok] at h
  obtain h | ⟨poolId, hpoolId, ⟨hcontract, rfl⟩ | ⟨_, -, h | ⟨mode, hmode, ⟨hsigns, rfl⟩ |
    ⟨_, -, ⟨hsigner, rfl⟩ | ⟨_, -, ⟨hkey, rfl⟩ | ⟨_, -, h | ⟨accounts, haccounts,
    ⟨hcandidates, rfl⟩ | ⟨_, -, h | ⟨txFee, -, h | ⟨_, -, h | ⟨_, -, h | ⟨_, -, h | ⟨_, -, h |
    ⟨_, -, h | ⟨_, -, h⟩⟩⟩⟩⟩⟩⟩⟩⟩⟩⟩⟩⟩⟩⟩ := h
  · refine ⟨_, blames_alone (required · _) h (names_required h) (fun env' hsame => ?_)
      fun env' c hc => ⟨c.poolId, okOr_eq_ok.mpr hc.poolId⟩⟩
    exact congrArg (okOr · _) (valueOf_congr hsame)
  · refine ⟨"LENDING_POOL_CONTRACT_ID", blames_of_not_loads ⟨_, rfl, by decide⟩ ?_⟩
    intro env' c hsame hc
    have hsame' := (valueOf_congr (hsame _ List.mem_cons_self)).symm.trans hc.poolId
    rw [okOr_eq_ok.mp hpoolId] at hsame'
    cases hsame'
    exact Bool.noConfusion (hc.contract.symm.trans hcontract)
  · exact ⟨_, blames_alone (fun env => parseMode ((valueOf env _).getD _)) h
      (names_parseMode h) (fun env' hsame => by rw [valueOf_congr hsame])
      fun env' c hc => ⟨c.mode, hc.mode⟩⟩
  · refine ⟨"LIQUIDATOR_SECRET", blames_of_not_loads ⟨_, rfl, by decide⟩ ?_⟩
    intro env' c hsame hc
    have hmode' := hc.mode
    rw [valueOf_congr (hsame "LIQUIDATION_MODE" (by decide)), hmode] at hmode'
    have hsecret := hc.secret
    rw [valueOf_congr (hsame "LIQUIDATOR_SECRET" (by decide)), hsigns.2] at hsecret
    exact hc.signs ⟨(Except.ok.inj hmode').symm.trans hsigns.1, hsecret.symm⟩
  · refine ⟨"LIQUIDATOR_PUBLIC_KEY", blames_of_not_loads ⟨_, rfl, by decide⟩ ?_⟩
    intro env' c hsame hc
    have hsecret := hc.secret
    have hpublicKey := hc.publicKey
    rw [valueOf_congr (hsame _ (by decide)), hsigner.1] at hsecret
    rw [valueOf_congr (hsame _ (by decide)), hsigner.2] at hpublicKey
    exact hc.signer ⟨hsecret.symm, hpublicKey.symm⟩
  · refine ⟨"LIQUIDATOR_PUBLIC_KEY", blames_of_not_loads ⟨_, rfl, by decide⟩ ?_⟩
    intro env' c hsame hc
    obtain ⟨text, htext, hbad⟩ := hkey
    have hpublicKey := hc.publicKey
    rw [valueOf_congr (hsame _ (by decide))] at hpublicKey
    exact Bool.noConfusion ((hc.account text (hpublicKey ▸ htext)).symm.trans hbad)
  · exact ⟨_, blames_alone (fun env => parseAccounts (env _)) h (names_parseAccounts h)
      (fun env' hsame => by rw [hsame]) fun env' c hc => ⟨c.accounts, hc.accounts⟩⟩
  · refine ⟨"LIQUIDATION_ACCOUNTS", blames_of_not_loads ⟨_, rfl, by decide⟩ ?_⟩
    intro env' c hsame hc
    have haccounts' := hc.accounts
    have hurl := hc.dataPlatformUrl
    rw [hsame "LIQUIDATION_ACCOUNTS" (by decide), haccounts] at haccounts'
    rw [valueOf_congr (hsame _ (by decide)), hcandidates.2] at hurl
    exact hc.candidates ⟨(Except.ok.inj haccounts').symm.trans hcandidates.1, hurl.symm⟩
  · exact ⟨_, blames_alone parseFee h (names_parseFee h) (fun _ => parseFee_congr)
      fun env' c hc => ⟨_, hc.txFee⟩⟩
  · exact ⟨_, blames_alone (positiveBigInt · _ _) h (names_positiveBigInt h)
      (fun _ => positiveBigInt_congr) fun env' c hc => ⟨_, hc.maxRepayRaw⟩⟩
  · exact ⟨_, blames_alone (positiveBigInt · _ _) h (names_positiveBigInt h)
      (fun _ => positiveBigInt_congr) fun env' c hc => ⟨_, hc.minHealthBps⟩⟩
  · exact ⟨_, blames_alone (positiveBigInt · _ _) h (names_positiveBigInt h)
      (fun _ => positiveBigInt_congr) fun env' c hc => ⟨_, hc.bonusBps⟩⟩
  · exact ⟨_, blames_alone (positiveBigInt · _ _) h (names_positiveBigInt h)
      (fun _ => positiveBigInt_congr) fun env' c hc => ⟨_, hc.slippageBps⟩⟩
  · exact ⟨_, blames_alone (positiveInt · _ _) h (names_positiveInt h)
      (fun _ => positiveInt_congr) fun env' c hc => ⟨_, hc.pollMs⟩⟩
  · exact ⟨_, blames_alone (positiveInt · _ _) h (names_positiveInt h)
      (fun _ => positiveInt_congr) fun env' c hc => ⟨_, hc.maxCandidates⟩⟩
  · cases h

end Refusing

/-- Exactly the sound configurations can be loaded, and an environment that is
refused is refused for the variables that the error is about, whatever the
others are. A bot with a configuration that was loaded does not lack a key. -/
theorem loads_exactly :
    (∀ c : LoadedConfig, (∃ env, loadConfig env = .ok c) ↔ Sound c) ∧
      (∀ env e, loadConfig env = .error e → ∃ key, Blames env e key) ∧
      ∀ (σ : Type) (deps : BotDependencies String σ) (c : LoadedConfig) (message : String),
        Sound c → publicKey c.toBotConfig deps = .error message →
          ∃ secret ∈ c.liquidatorSecret, deps.fromSecret (some secret) = .error message := by
  refine ⟨fun c => ⟨?_, fun h => ⟨written c, (loadConfig_iff _ _).mpr (loads_written h)⟩⟩,
    fun env e => blames_of_error, fun σ deps c message hc h => ?_⟩
  · rintro ⟨env, h⟩
    exact sound_of_loads ((loadConfig_iff env c).mp h)
  · unfold publicKey at h
    split at h
    next hmode =>
      obtain ⟨secret, hsecret⟩ := Option.ne_none_iff_exists'.mp (hc.signs hmode)
      exact ⟨secret, hsecret, hsecret ▸ h⟩
    next =>
      split at h
      next => cases h
      next secret _ hsecret => exact ⟨secret, hsecret, h⟩
      next hkey hsecret => exact absurd hsecret (hc.signer.resolve_right (not_not.mpr hkey))

end Suban.LiquidationBot.Environment

import Suban.ArcBridge.Contract
import Suban.Relayer.Stellar

namespace Suban.Relayer.TxBuilder

open Suban.Basis.Numbers Suban.Evm.Host Suban.ArcBridge.Contract Suban.Relayer.Stellar

/-- Rates in basis points and in hundredths of the fee, and a least fee. -/
structure FeeConfig where
  feeBps : Int
  protocolShareBps : Int
  minimumFee : Nat

structure FeeCalculation where
  totalAmount : String
  bridgeFee : String
  protocolFee : String
  relayerFee : String
  netAmount : String

def bridgeFee (config : FeeConfig) (amount : Int) : Int :=
  let bridgeFee := (amount * config.feeBps).tdiv 10000
  if bridgeFee < config.minimumFee then config.minimumFee else bridgeFee

def calculate (config : FeeConfig) (amount : String) : Option FeeCalculation := do
  let amountBigInt ← bigInt amount
  let fee := bridgeFee config amountBigInt
  let protocolFee := (fee * config.protocolShareBps).tdiv 100
  pure {
    totalAmount := amount
    bridgeFee := toString fee
    protocolFee := toString protocolFee
    relayerFee := toString (fee - protocolFee)
    netAmount := toString (amountBigInt - fee) }

theorem bridgeFee_nonneg (config : FeeConfig) (amount : Int) : 0 ≤ bridgeFee config amount := by
  unfold bridgeFee
  dsimp only
  split <;> omega

theorem netAmount_le {config : FeeConfig} {amount : String} {net : Int} {fees : FeeCalculation}
    (h : calculate config amount = some fees) (hnet : bigInt fees.netAmount = some net) :
    ∃ n, bigInt amount = some n ∧ net ≤ n := by
  simp only [calculate, Option.bind_eq_bind, Option.bind_eq_some_iff, Option.pure_def,
    Option.some.injEq] at h
  obtain ⟨n, hn, rfl⟩ := h
  rw [bigInt_toString] at hnet
  cases hnet
  have hfee := bridgeFee_nonneg config n
  exact ⟨n, hn, by omega⟩

def uint256 (n : Int) : Option Word :=
  if 0 ≤ n ∧ n < 2 ^ 256 then some (BitVec.ofNat 256 n.toNat) else none

theorem toNat_uint256 {n : Int} {w : Word} (h : uint256 n = some w) : (w.toNat : Int) = n := by
  unfold uint256 at h
  split at h
  next hn =>
    cases h
    rw [BitVec.toNat_ofNat, Nat.mod_eq_of_lt (by omega)]
    exact Int.toNat_of_nonneg hn.1
  next => cases h

/-- Only the whole numbers that are safe as doubles are taken. -/
def safeInteger : Number → Option Word
  | .whole n _ => if n < 2 ^ 53 then some (BitVec.ofNat 256 n) else none
  | .nan => none

def hexDigit (c : Char) : Option Nat :=
  if c.isDigit then some (c.toNat - '0'.toNat)
  else if 'a' ≤ c ∧ c ≤ 'f' then some (c.toNat - 'a'.toNat + 10)
  else if 'A' ≤ c ∧ c ≤ 'F' then some (c.toNat - 'A'.toNat + 10)
  else none

def bytes32 (text : String) : Option Word :=
  match text.toList with
  | '0' :: 'x' :: digits => do
    let values ← digits.mapM hexDigit
    if digits.length = 64 then some (BitVec.ofNat 256 (values.foldl (fun n d => 16 * n + d) 0))
    else none
  | _ => none

def utf8 (text : String) : Bytes := text.toUTF8.data.toList

structure Wallet where
  address : Account
  sign : Word → Bytes

structure MintArguments where
  recipient : Account
  amount : Word
  sourceChain : Bytes
  sourceTxHash : Word
  sourceNonce : Word
  signatures : List Bytes

def MintArguments.call (a : MintArguments) : Call :=
  .mintPusd a.recipient a.amount a.sourceChain a.sourceTxHash a.sourceNonce a.signatures

variable (K : Crypto) (wallet : Wallet) (config : FeeConfig)

/-- The relayer's own signature alone. -/
def getValidatorSignatures (sourceChain : Bytes) (txHash nonce netAmount : Word)
    (recipientAddress : Account) : List Bytes :=
  let message := bridgeMessage sourceChain txHash nonce netAmount recipientAddress
  [wallet.sign (signedDigest K (K.keccak256 message))]

def buildArcMint (event : StellarBurnEvent) (recipient : Account) : Option MintArguments := do
  let fees ← calculate config event.amount
  let netAmount ← bigInt fees.netAmount
  let netAmount ← uint256 netAmount
  let txHash ← bytes32 event.txHash
  let nonce ← safeInteger event.nonce
  let sourceChain := utf8 event.sourceChain
  pure {
    recipient := recipient
    amount := netAmount
    sourceChain := sourceChain
    sourceTxHash := txHash
    sourceNonce := nonce
    signatures := getValidatorSignatures K wallet sourceChain txHash nonce netAmount recipient }

variable {K wallet config}

theorem amount_le {event : StellarBurnEvent} {recipient : Account} {a : MintArguments}
    (h : buildArcMint K wallet config event recipient = some a) :
    ∃ n, bigInt event.amount = some n ∧ (a.amount.toNat : Int) ≤ n := by
  simp only [buildArcMint, Option.bind_eq_bind, Option.bind_eq_some_iff, Option.pure_def,
    Option.some.injEq] at h
  obtain ⟨fees, hfees, net, hnet, word, hword, txHash, -, nonce, -, rfl⟩ := h
  obtain ⟨n, hn, hle⟩ := netAmount_le hfees hnet
  refine ⟨n, hn, ?_⟩
  rw [toNat_uint256 hword]
  exact hle

end Suban.Relayer.TxBuilder

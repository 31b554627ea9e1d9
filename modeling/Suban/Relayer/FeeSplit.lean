import Suban.Basis.Division
import Suban.Relayer.TxBuilder

namespace Suban.Relayer.FeeSplit

open Suban.Basis.Calls Suban.Basis.Division Suban.Basis.Numbers Suban.Evm.Host
open Suban.ArcBridge.Contract Suban.Relayer.Stellar Suban.Relayer.TxBuilder

variable {config : FeeConfig} {amount : Int}

/-- A fee of up to all of the amount, of which a part goes to the protocol. -/
structure InRange (config : FeeConfig) : Prop where
  fee : 0 ≤ config.feeBps ∧ config.feeBps ≤ 10000
  share : 0 ≤ config.protocolShareBps ∧ config.protocolShareBps ≤ 100

/-- The fee comes out of the amount, and its two parts make it up. -/
structure WellFormed (amount bridgeFee protocolFee relayerFee netAmount : Int) : Prop where
  fee : 0 ≤ bridgeFee ∧ bridgeFee ≤ amount
  net : netAmount = amount - bridgeFee ∧ 0 ≤ netAmount
  parts : 0 ≤ protocolFee ∧ 0 ≤ relayerFee
  sum : protocolFee + relayerFee = bridgeFee

/-- The texts that the calculation returns are those of a well formed split. -/
def SplitsWell (config : FeeConfig) (amount : Int) : Prop :=
  ∃ fees bridge protocol relayer net, calculate config (toString amount) = some fees ∧
    bigInt fees.bridgeFee = some bridge ∧ bigInt fees.protocolFee = some protocol ∧
    bigInt fees.relayerFee = some relayer ∧ bigInt fees.netAmount = some net ∧
    WellFormed amount bridge protocol relayer net

def protocolFee (config : FeeConfig) (amount : Int) : Int :=
  (bridgeFee config amount * config.protocolShareBps).tdiv 100

theorem calculate_toString (config : FeeConfig) (amount : Int) :
    calculate config (toString amount) = some {
      totalAmount := toString amount
      bridgeFee := toString (bridgeFee config amount)
      protocolFee := toString (protocolFee config amount)
      relayerFee := toString (bridgeFee config amount - protocolFee config amount)
      netAmount := toString (amount - bridgeFee config amount) } := by
  rw [calculate, bigInt_toString]
  rfl

theorem splitsWell_iff_wellFormed (config : FeeConfig) (amount : Int) :
    SplitsWell config amount ↔ WellFormed amount (bridgeFee config amount)
      (protocolFee config amount) (bridgeFee config amount - protocolFee config amount)
      (amount - bridgeFee config amount) := by
  rw [SplitsWell, calculate_toString]
  refine ⟨?_, fun h => ⟨_, _, _, _, _, rfl, bigInt_toString _, bigInt_toString _,
    bigInt_toString _, bigInt_toString _, h⟩⟩
  rintro ⟨_, _, _, _, _, hfees, hbridge, hprotocol, hrelayer, hnet, h⟩
  cases hfees
  rw [bigInt_toString] at hbridge hprotocol hrelayer hnet
  cases hbridge
  cases hprotocol
  cases hrelayer
  cases hnet
  exact h

theorem protocolFee_bounds (h : InRange config) (amount : Int) :
    0 ≤ protocolFee config amount ∧ protocolFee config amount ≤ bridgeFee config amount := by
  have hfee := bridgeFee_nonneg config amount
  obtain ⟨h0, h100⟩ := h.share
  refine ⟨Int.tdiv_nonneg (mul_nonneg hfee h0) (by norm_num), ?_⟩
  rw [protocolFee, mul_comm]
  exact part_le (by norm_num) hfee h100

theorem bridgeFee_le_iff (h : InRange config) (hpos : 1 ≤ amount) :
    bridgeFee config amount ≤ amount ↔ (config.minimumFee : Int) ≤ amount := by
  have hpart : (amount * config.feeBps).tdiv 10000 ≤ amount := by
    rw [mul_comm]
    exact part_le (by norm_num) (by omega) h.fee.2
  unfold bridgeFee
  dsimp only
  split <;> omega

theorem wellFormed_iff (h : InRange config) (hpos : 1 ≤ amount) :
    SplitsWell config amount ↔ (config.minimumFee : Int) ≤ amount := by
  rw [splitsWell_iff_wellFormed, ← bridgeFee_le_iff h hpos]
  obtain ⟨hprotocol, hle⟩ := protocolFee_bounds h amount
  refine ⟨fun hw => hw.fee.2, fun hfee => ?_⟩
  exact {
    fee := ⟨bridgeFee_nonneg config amount, hfee⟩
    net := ⟨rfl, by omega⟩
    parts := ⟨hprotocol, by omega⟩
    sum := by omega }

/-- A burn of the amount whose other fields can be encoded. -/
structure Encodes (amount : Int) (event : StellarBurnEvent) : Prop where
  text : event.amount = toString amount
  fits : amount < 2 ^ 256
  txHash : (bytes32 event.txHash).isSome
  nonce : (safeInteger event.nonce).isSome

variable {K : Crypto} {wallet : Wallet} {event : StellarBurnEvent} {recipient : Account}

theorem isSome_buildArcMint (h : Encodes amount event) :
    (buildArcMint K wallet config event recipient).isSome ↔ bridgeFee config amount ≤ amount := by
  obtain ⟨txHash, htxHash⟩ := Option.isSome_iff_exists.mp h.txHash
  obtain ⟨nonce, hnonce⟩ := Option.isSome_iff_exists.mp h.nonce
  have hfits := h.fits
  have hfee := bridgeFee_nonneg config amount
  simp only [buildArcMint, h.text, calculate_toString, Option.bind_eq_bind, Option.bind_some,
    bigInt_toString, htxHash, hnonce, Option.pure_def]
  by_cases hle : bridgeFee config amount ≤ amount
  · have hword : 0 ≤ amount - bridgeFee config amount ∧
        amount - bridgeFee config amount < 2 ^ 256 := by omega
    rw [uint256, if_pos hword]
    simp [hle]
  · have hword : ¬ (0 ≤ amount - bridgeFee config amount ∧
        amount - bridgeFee config amount < 2 ^ 256) := by omega
    rw [uint256, if_neg hword]
    simp [hle]

/-- The split is well formed exactly for the amounts that are worth the least
fee, and those are the burns that can be minted for. -/
theorem split_wellFormed_iff (h : InRange config) (hpos : 1 ≤ amount) :
    (SplitsWell config amount ↔ (config.minimumFee : Int) ≤ amount) ∧
      ∀ (K : Crypto) (wallet : Wallet) (event : StellarBurnEvent) (recipient : Account),
        Encodes amount event → ((buildArcMint K wallet config event recipient).isSome ↔
          (config.minimumFee : Int) ≤ amount) := by
  refine ⟨wellFormed_iff h hpos, fun K wallet event recipient hevent => ?_⟩
  rw [isSome_buildArcMint hevent, bridgeFee_le_iff h hpos]

/-- Half a percent, a tenth of it for the protocol, and a unit at least. -/
def sampleConfig : FeeConfig := ⟨50, 10, 1000000⟩

theorem split_wellFormed_iff_sample : SplitsWell sampleConfig 5000000 :=
  (split_wellFormed_iff ⟨by decide, by decide⟩ (by decide)).1.mpr (by decide)

/-- A burn of half the least fee leaves less than nothing to mint. -/
theorem small_burn_split :
    ¬ SplitsWell sampleConfig 500000 ∧
      (calculate sampleConfig "500000").map FeeCalculation.netAmount = some "-500000" := by
  refine ⟨?_, ?_⟩
  · intro hsplit
    exact absurd ((splitsWell_iff_wellFormed _ _).mp hsplit).fee.2 (by decide)
  · decide +kernel

end Suban.Relayer.FeeSplit

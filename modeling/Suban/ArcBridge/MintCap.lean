import Suban.ArcBridge.Signatures
import Suban.ArcBridge.Transitions
import Suban.Basis.Runs

namespace Suban.ArcBridge.MintCap

open Suban.Basis.Calls Suban.Basis.Tables Suban.Basis.Runs Suban.Evm.Host
open Suban.ArcBridge.PusdToken Suban.ArcBridge.Contract Suban.ArcBridge.Transitions
open Suban.ArcBridge.Signatures

variable {B : Type} {K : Crypto} {X : Erc20 B} {contract : Account} {msg : Msg}
variable {s t : Bridge B}

def amountFor (chain : Bytes) (m : SourceBurn × Payout) : Nat :=
  if m.1.chain = chain then m.2.amount.toNat else 0

def mintedFor (s : Bridge B) (chain : Bytes) : Nat := ((mints s).map (amountFor chain)).sum

/-- The counter of every chain is the sum of its mints. -/
def Counted (s : Bridge B) : Prop :=
  ∀ chain, (s.chainState chain).totalMinted.toNat = mintedFor s chain

/-- A mint leaves the counter of its chain within the cap that is set. -/
def CapKept (K : Crypto) (X : Erc20 B) (contract : Account) (s : Bridge B) (i : Input B) : Prop :=
  ∀ b p t, asked i = some (b, p) → step K X contract s i = .ok t →
    (t.chainState b.chain).mintCap ≠ 0 →
      (t.chainState b.chain).totalMinted ≤ (t.chainState b.chain).mintCap

/-- A mint still fits under the cap that is set for its chain. -/
def FitsCap (s : Bridge B) (i : Input B) : Prop :=
  ∀ b p, asked i = some (b, p) → (s.chainState b.chain).mintCap ≠ 0 →
    mintedFor s b.chain + p.amount.toNat ≤ (s.chainState b.chain).mintCap.toNat

theorem chainState_insert {c : Bytes} {state : ChainState}
    (h : t.chainStates = s.chainStates.insert c state) (chain : Bytes) :
    t.chainState chain = if chain = c then state else s.chainState chain := by
  rw [Bridge.chainState, h, readOr_insert]
  rfl

theorem chainState_congr {α : Type} (field : ChainState → α) {c : Bytes} {state : ChainState}
    (h : t.chainStates = s.chainStates.insert c state) (hf : field state = field (s.chainState c))
    (chain : Bytes) : field (t.chainState chain) = field (s.chainState chain) := by
  rw [chainState_insert h]
  by_cases hc : chain = c
  · rw [if_pos hc, hc, hf]
  · rw [if_neg hc]

theorem mintedFor_step {i : Input B} (h : step K X contract s i = .ok t) (chain : Bytes) :
    mintedFor t chain = mintedFor s chain + ((asked i).toList.map (amountFor chain)).sum := by
  rw [mintedFor, mints_step h, List.map_append, List.sum_append]
  rfl

theorem totalMinted_step {i : Input B} (h : step K X contract s i = .ok t) (chain : Bytes) :
    (t.chainState chain).totalMinted.toNat =
      (s.chainState chain).totalMinted.toNat +
        ((asked i).toList.map (amountFor chain)).sum := by
  cases i with
  | elsewhere roles pusd =>
    cases pure_eq_ok.mp h
    rfl
  | call msg c =>
    cases invoke_transition h with
    | mint recipient amount c txHash nonce signatures pusd hrole hp hpos hnew hquorum hverify hcap
        htotal =>
      simp only [asked, Option.toList_some, List.map_singleton, List.sum_singleton, amountFor]
      rw [chainState_insert rfl]
      by_cases hc : chain = c
      · rw [if_pos hc, if_pos hc.symm, hc]
        exact BitVec.toNat_add_of_lt htotal
      · rw [if_neg hc, if_neg (Ne.symm hc)]
        rfl
    | burn | setChainMintCap =>
      apply congrArg BitVec.toNat
      apply chainState_congr ChainState.totalMinted rfl
      rfl
    | _ => rfl

theorem counted_step {i : Input B} (h : step K X contract s i = .ok t) (hs : Counted s) :
    Counted t := by
  intro chain
  rw [totalMinted_step h, mintedFor_step h, hs]

theorem mintCap_step {i : Input B} (h : step K X contract s i = .ok t) {b : SourceBurn}
    {p : Payout} (hi : asked i = some (b, p)) (chain : Bytes) :
    (t.chainState chain).mintCap = (s.chainState chain).mintCap := by
  cases i with
  | elsewhere roles pusd => cases hi
  | call msg c =>
    cases invoke_transition h with
    | mint =>
      apply chainState_congr ChainState.mintCap rfl
      rfl
    | _ => cases hi

theorem capKept_iff {i : Input B} (h : step K X contract s i = .ok t) (hs : Counted s) :
    CapKept K X contract s i ↔ FitsCap s i := by
  have hafter {b : SourceBurn} {p : Payout} (hi : asked i = some (b, p)) :
      (t.chainState b.chain).totalMinted.toNat = mintedFor s b.chain + p.amount.toNat := by
    rw [totalMinted_step h, hs, hi]
    simp [amountFor]
  refine ⟨?_, ?_⟩
  · intro hkept b p hi hset
    have hle := hkept b p t hi h
    rw [mintCap_step h hi, BitVec.le_def, hafter hi] at hle
    exact hle hset
  · intro hfits b p u hi hu hset
    cases h.symm.trans hu
    rw [mintCap_step h hi] at hset ⊢
    rw [BitVec.le_def, hafter hi]
    exact hfits b p hi hset

/-- Every mint of a run leaves its chain within its cap exactly when every mint
still fits under the cap, next to all that was minted for the chain before. -/
theorem capKept_iff_fitsCap {pusdAddress : Account} {pusd : Token B} {validators : List Account}
    {threshold volumeCap volumeWindow : Word}
    (h : construct msg pusdAddress pusd validators threshold volumeCap volumeWindow = .ok s)
    (is : List (Input B)) :
    Along (step K X contract) (CapKept K X contract) s is ↔
      Along (step K X contract) FitsCap s is := by
  have hcounted : Counted s := by
    intro chain
    rw [mintedFor, mints_construct h]
    obtain ⟨-, rfl⟩ := construct_ok h
    rfl
  exact along_congr (J := Counted) (E := fun _ _ => True) (fun _ _ _ hs _ hi => counted_step hi hs)
    (fun _ _ _ hs _ hi => capKept_iff hi hs) hcounted (along_true s is)

def setSampleCap (cap : Word) : Input (Word × (Account → Word)) :=
  .call ⟨1, 4⟩ (.setChainMintCap sampleChain cap)

def sampleMintCall : Input (Word × (Account → Word)) :=
  .call ⟨1, 5⟩ (.mintPusd sampleRecipient 100 sampleChain 5 0 [sampleSignature₁, sampleSignature₂])

theorem capKept_iff_fitsCap_sample :
    Along (step sampleCrypto bookErc20 9) (CapKept sampleCrypto bookErc20 9) sampleBridge
      [setSampleCap 150, sampleMintCall] := by
  refine (capKept_iff_fitsCap
    (rfl : construct ⟨1, 0⟩ 8 sampleToken sampleValidators 2 0 60 = .ok sampleBridge) _).mpr
    ⟨fun t _ b p hi => ?_, fun t _ b p hi _ => ?_, trivial⟩
  · cases hi
  · cases hi
    decide +kernel

theorem mint_exceeds_chain_cap :
    ∃ s : Bridge (Word × (Account → Word)),
      construct ⟨1, 0⟩ 8 sampleToken sampleValidators 2 0 60 = .ok s ∧
      ¬ Along (step sampleCrypto bookErc20 9) (CapKept sampleCrypto bookErc20 9) s
        [setSampleCap 50, sampleMintCall] := by
  refine ⟨sampleBridge, rfl, fun h => ?_⟩
  have hok : (step sampleCrypto bookErc20 9 (run (step sampleCrypto bookErc20 9) sampleBridge
      [setSampleCap 50]) sampleMintCall).isOk = true := by decide +kernel
  obtain ⟨t, ht⟩ := exists_of_isOk hok
  have hle := h.2.1 t ht _ _ t rfl ht
  rw [mintCap_step ht rfl, BitVec.le_def, totalMinted_step ht] at hle
  exact absurd (hle (by decide +kernel)) (by decide +kernel)

end Suban.ArcBridge.MintCap

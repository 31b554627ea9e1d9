import Suban.BridgeBurnMint.Contract

namespace Suban.BridgeBurnMint.Transitions

open Suban.Basis.Calls Suban.Basis.Tables Suban.Soroban.Host
open Suban.BridgeBurnMint.Contract

variable {Address W : Type} [DecidableEq Address] {contract : Address}
variable {T : StellarAsset Address W} {env : Env Address contract} {s t : Storage Address W}

def ByAdmin (env : Env Address contract) (s : Storage Address W) : Prop :=
  ∃ admin, s.admin = some admin ∧ env.auths admin = true

def WindowOver (env : Env Address contract) (s : Storage Address W) : Prop :=
  s.volumeWindowStart + s.volumeWindowLedgers ≤ env.sequence

instance (env : Env Address contract) (s : Storage Address W) : Decidable (WindowOver env s) :=
  inferInstanceAs (Decidable (_ ≤ _))

def meteredVolume (env : Env Address contract) (s : Storage Address W) (amount : Int) : Int :=
  (if WindowOver env s then 0 else s.volumeInWindow) + amount

/-- The state after the amount passes the breaker. A cap of zero leaves the
window as it is. -/
def metered (env : Env Address contract) (s : Storage Address W) (amount : Int) :
    Storage Address W :=
  { s with
    volumeWindowStart :=
      if s.volumeCap ≠ 0 ∧ WindowOver env s then env.sequence else s.volumeWindowStart
    volumeInWindow := if s.volumeCap = 0 then s.volumeInWindow else meteredVolume env s amount }

/-- The members named all differ and have authorised the call. -/
def Signed (env : Env Address contract) (s : Storage Address W) (signers : List Address) : Prop :=
  signers.Nodup ∧ ∀ a ∈ signers, s.isSigner a = true ∧ env.auths a = true

inductive Transition (T : StellarAsset Address W) (env : Env Address contract)
    (s : Storage Address W) : Call Address → Storage Address W → Prop where
  | burn (sender : Address) (amount : Int) (destination : Symbol) (token : Address) (w : W)
      (hp : s.paused = false) (hpos : 0 < amount) (hauth : env.auths sender = true)
      (htoken : s.pusdToken = some token)
      (hw : T.transfer s.world token sender contract amount = some w) :
      Transition T env s (.burnPusd sender amount destination) ({ s with
        nextNonce := s.nextNonce + 1
        chainBurned := s.chainBurned.insert destination (s.burned destination + amount)
        world := w }.publish (.burn destination sender s.nextNonce amount))
  | mint (recipient : Address) (amount : Int) (chain : Symbol) (nonce : Nat) (txHash : TxHash)
      (signers : List Address) (token : Address) (w : W) (hp : s.paused = false)
      (hpos : 0 < amount)
      (hvolume : s.volumeCap ≠ 0 → meteredVolume env s amount ≤ s.volumeCap)
      (hnew : s.isProcessed txHash = false) (hquorum : s.threshold ≤ signers.length)
      (hsigned : Signed env s signers)
      (hcap : 0 < s.mintCap chain → s.minted chain + amount ≤ s.mintCap chain)
      (htoken : s.pusdToken = some token) (hw : T.mint s.world token recipient amount = some w) :
      Transition T env s (.mintPusd recipient amount chain nonce txHash signers)
        ({ metered env s amount with
          processedHash := s.processedHash.insert txHash true
          chainMinted := s.chainMinted.insert chain (s.minted chain + amount)
          world := w }.publish (.mint chain nonce recipient amount))
  | addSigner (a : Address) (count : Nat) (ha : ByAdmin env s) (hnew : s.isSigner a = false)
      (hcount : s.signerCount = some count) :
      Transition T env s (.addSigner a) ({ s with
        signer := s.signer.insert a true
        signerCount := some (count + 1) }.publish (.signerAdd a))
  | removeSigner (a : Address) (count : Nat) (ha : ByAdmin env s) (hold : s.isSigner a = true)
      (hcount : s.signerCount = some count) (hpos : count ≠ 0)
      (hle : s.threshold ≤ count - 1) :
      Transition T env s (.removeSigner a) ({ s with
        signer := s.signer.insert a false
        signerCount := some (count - 1) }.publish (.signerRemove a))
  | setThreshold (n count : Nat) (ha : ByAdmin env s) (hcount : s.signerCount = some count)
      (hn : n ≠ 0) (hle : n ≤ count) :
      Transition T env s (.setThreshold n) ({ s with threshold := n }.publish (.threshold n))
  | setVolumeCap (cap : Int) (ledgers : Nat) (ha : ByAdmin env s) :
      Transition T env s (.setVolumeCap cap ledgers)
        ({ s with volumeCap := cap, volumeWindowLedgers := ledgers }.publish (.setCap cap))
  | setChainMintCap (chain : Symbol) (cap : Int) (ha : ByAdmin env s) :
      Transition T env s (.setChainMintCap chain cap)
        ({ s with chainMintCap := s.chainMintCap.insert chain cap }.publish (.mintCap cap))
  | pause (ha : ByAdmin env s) (hp : s.paused = false) :
      Transition T env s .pause { s with paused := true }
  | unpause (ha : ByAdmin env s) (hp : s.paused = true) :
      Transition T env s .unpause { s with paused := false }

theorem verifySigners_eq_ok {seen signers : List Address} {u : Unit} :
    verifySigners env s seen signers = .ok u ↔
      Signed env s signers ∧ ∀ a ∈ signers, a ∉ seen := by
  induction signers generalizing seen with
  | nil => simp [verifySigners, Signed]
  | cons a signers ih =>
    simp only [verifySigners, bind_eq_ok, rejectIf_eq_ok, requireAuth_eq_ok, not_not, ih, Signed,
      List.nodup_cons, List.forall_mem_cons]
    refine ⟨?_, ?_⟩
    · rintro ⟨_, hm, _, hseen, _, hauth, ⟨hnodup, hall⟩, hrest⟩
      refine ⟨⟨⟨fun ha => ?_, hnodup⟩, ⟨hm, hauth⟩, hall⟩, hseen, fun b hb hmem => ?_⟩
      · exact hrest a ha (List.mem_append_right _ (List.mem_singleton_self a))
      · exact hrest b hb (List.mem_append_left _ hmem)
    · rintro ⟨⟨⟨hne, hnodup⟩, ⟨hm, hauth⟩, hall⟩, hseen, hrest⟩
      refine ⟨(), hm, (), hseen, (), hauth, ⟨hnodup, hall⟩, fun b hb hmem => ?_⟩
      obtain hmem | hmem := List.mem_append.mp hmem
      · exact hrest b hb hmem
      · cases List.mem_singleton.mp hmem
        exact hne hb

theorem checkVolume_ok {amount : Int} (h : checkVolumeCircuitBreaker env s amount = .ok t) :
    t = metered env s amount ∧
      (s.volumeCap ≠ 0 → meteredVolume env s amount ≤ s.volumeCap) := by
  unfold checkVolumeCircuitBreaker at h
  split at h
  next hz =>
    refine ⟨?_, absurd hz⟩
    rw [metered, if_neg (fun hc => hc.1 hz), if_pos hz]
    exact (pure_eq_ok.mp h).symm
  next hz =>
    simp only [meterVolume, bind_eq_ok, checkedUInt_eq_ok, checked_eq_ok, rejectIf_eq_ok,
      pure_eq_ok] at h
    obtain ⟨_, ⟨-, rfl⟩, _, ⟨-, rfl⟩, _, hle, rfl⟩ := h
    refine ⟨?_, fun _ => not_lt.mp hle⟩
    simp only [metered, hz, ne_eq, not_false_eq_true, true_and, if_false]
    rfl

theorem checkMintCap_ok {chain : Symbol} {amount : Int} {u : Unit}
    (h : checkMintCap s chain amount = .ok u) (hcap : 0 < s.mintCap chain) :
    s.minted chain + amount ≤ s.mintCap chain := by
  simp only [checkMintCap, hcap, if_true, overMintCap, bind_eq_ok, checked_eq_ok,
    rejectIf_eq_ok] at h
  obtain ⟨_, ⟨-, rfl⟩, hle⟩ := h
  exact not_lt.mp hle

theorem mintPusd_transition {recipient : Address} {amount : Int} {chain : Symbol} {nonce : Nat}
    {txHash : TxHash} {signers : List Address}
    (h : mintPusd T env s recipient amount chain nonce txHash signers = .ok t) :
    Transition T env s (.mintPusd recipient amount chain nonce txHash signers) t := by
  simp only [mintPusd, bind_eq_ok, rejectIf_eq_ok, checked_eq_ok, unwrap_eq_ok, pure_eq_ok] at h
  obtain ⟨_, hp, _, hpos, u, hu, _, hnew, _, hquorum, _, hsigned, _, hcap, _, ⟨-, rfl⟩, token,
    htoken, w, hw, rfl⟩ := h
  obtain ⟨rfl, hvolume⟩ := checkVolume_ok hu
  exact .mint recipient amount chain nonce txHash signers token w (by simpa using hp)
    (not_le.mp hpos) hvolume (Bool.eq_false_of_not_eq_true hnew) (not_lt.mp hquorum)
    (verifySigners_eq_ok.mp hsigned).1 (checkMintCap_ok hcap) htoken hw

theorem burnPusd_transition {sender : Address} {amount : Int} {destination : Symbol} {nonce : Nat}
    (h : burnPusd T env s sender amount destination = .ok (nonce, t)) :
    Transition T env s (.burnPusd sender amount destination) t := by
  simp only [burnPusd, bind_eq_ok, rejectIf_eq_ok, requireAuth_eq_ok, checkedUInt_eq_ok,
    checked_eq_ok, unwrap_eq_ok, pure_eq_ok, Prod.mk.injEq] at h
  obtain ⟨_, hp, _, hpos, _, hauth, _, ⟨-, rfl⟩, _, ⟨-, rfl⟩, token, htoken, w, hw, -, rfl⟩ := h
  exact .burn sender amount destination token w (by simpa using hp) (not_le.mp hpos) hauth htoken
    hw

theorem adminGuard_ok {k : Outcome BridgeError (Storage Address W)} :
    (do
      let admin ← s.readAdmin
      requireAuth env admin
      k) = .ok t ↔ ByAdmin env s ∧ k = .ok t := by
  simp only [Storage.readAdmin, bind_eq_ok, unwrap_eq_ok, requireAuth_eq_ok]
  refine ⟨?_, ?_⟩
  · rintro ⟨admin, ha, _, hauth, h⟩
    exact ⟨⟨admin, ha, hauth⟩, h⟩
  · rintro ⟨⟨admin, ha, hauth⟩, h⟩
    exact ⟨admin, ha, (), hauth, h⟩

theorem invoke_transition {c : Call Address} (h : invoke T env s c = .ok t) :
    Transition T env s c t := by
  cases c with
  | burnPusd sender amount destination =>
    simp only [invoke, bind_eq_ok, pure_eq_ok] at h
    obtain ⟨⟨_, _⟩, h, rfl⟩ := h
    exact burnPusd_transition h
  | mintPusd recipient amount chain nonce txHash signers => exact mintPusd_transition h
  | addSigner a =>
    obtain ⟨ha, h⟩ := adminGuard_ok.mp h
    simp only [bind_eq_ok, rejectIf_eq_ok, unwrap_eq_ok, checkedUInt_eq_ok, pure_eq_ok] at h
    obtain ⟨_, hnew, count, hcount, _, ⟨-, rfl⟩, rfl⟩ := h
    exact .addSigner a count ha (by simpa using hnew) hcount
  | removeSigner a =>
    obtain ⟨ha, h⟩ := adminGuard_ok.mp h
    simp only [bind_eq_ok, rejectIf_eq_ok, panicIf_eq_ok, unwrap_eq_ok, pure_eq_ok] at h
    obtain ⟨_, hold, count, hcount, _, hpos, _, hle, rfl⟩ := h
    exact .removeSigner a count ha (not_not.mp hold) hcount hpos (not_lt.mp hle)
  | setThreshold n =>
    obtain ⟨ha, h⟩ := adminGuard_ok.mp h
    simp only [bind_eq_ok, rejectIf_eq_ok, unwrap_eq_ok, pure_eq_ok, not_or, not_lt] at h
    obtain ⟨count, hcount, _, ⟨hn, hle⟩, rfl⟩ := h
    exact .setThreshold n count ha hcount hn hle
  | setVolumeCap cap ledgers =>
    obtain ⟨ha, h⟩ := adminGuard_ok.mp h
    cases pure_eq_ok.mp h
    exact .setVolumeCap cap ledgers ha
  | setChainMintCap chain cap =>
    obtain ⟨ha, h⟩ := adminGuard_ok.mp h
    cases pure_eq_ok.mp h
    exact .setChainMintCap chain cap ha
  | pause =>
    obtain ⟨ha, h⟩ := adminGuard_ok.mp h
    simp only [bind_eq_ok, rejectIf_eq_ok, pure_eq_ok] at h
    obtain ⟨_, hp, rfl⟩ := h
    exact .pause ha (by simpa using hp)
  | unpause =>
    obtain ⟨ha, h⟩ := adminGuard_ok.mp h
    simp only [bind_eq_ok, rejectIf_eq_ok, pure_eq_ok] at h
    obtain ⟨_, hp, rfl⟩ := h
    exact .unpause ha (not_not.mp hp)

end Suban.BridgeBurnMint.Transitions

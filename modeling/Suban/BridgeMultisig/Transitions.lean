import Suban.BridgeMultisig.Contract

namespace Suban.BridgeMultisig.Transitions

open Suban.Basis.Calls Suban.Basis.Tables Suban.Soroban.Host
open Suban.BridgeMultisig.Contract

variable {Address W : Type} [DecidableEq Address] {contract : Address}
variable {T : StellarAsset Address W} {env : Env Address contract} {s t : Storage Address W}

def ByAdmin (env : Env Address contract) (s : Storage Address W) (admin : Address) : Prop :=
  s.admin = some admin ∧ env.auths admin = true

/-- A vote that is let through: by a signer who has not voted yet, on a
proposal that is pending and not too old. -/
structure Votes (env : Env Address contract) (s : Storage Address W) (signer : Address)
    (id : Nat) (p : Proposal Address) : Prop where
  auth : env.auths signer = true
  isSigner : s.isSigner signer = true
  lookup : s.proposal.lookup id = some p
  pending : p.status = .pending
  inTime : env.sequence ≤ p.createdAt + s.maxProposalAge
  notYet : signer ∉ p.approvals

def voted (p : Proposal Address) (signer : Address) : Proposal Address :=
  { p with approvals := p.approvals ++ [signer] }

def settled (p : Proposal Address) (signer : Address) (ledger : Nat) : Proposal Address :=
  { voted p signer with status := .executed, executedAt := some ledger }

def countVote (s : Storage Address W) (signer : Address) (id : Nat) (p : Proposal Address) :
    Storage Address W :=
  s.publish (.vote id signer (p.approvals.length + 1))

def Pays (p : Proposal Address) : Prop := p.kind = .mintWpi ∨ p.kind = .releaseUsdc

def payment (p : Proposal Address) : Event Address :=
  if p.kind = .mintWpi then .mint p.id p.target p.amount p.depositId
  else .release p.id p.target p.amount p.depositId

/-- The tokens that a proposal asks for, minted or taken from the vault. -/
def payOut (T : StellarAsset Address W) (contract : Address) (s : Storage Address W)
    (p : Proposal Address) : Option W :=
  if p.kind = .mintWpi then s.wpiToken.bind (fun wpi => T.mint s.world wpi p.target p.amount)
  else s.usdcToken.bind (fun usdc => T.transfer s.world usdc contract p.target p.amount)

def WindowOver (env : Env Address contract) (s : Storage Address W) : Prop :=
  s.volumeWindowStart + s.volumeWindowLedgers ≤ env.sequence

instance (env : Env Address contract) (s : Storage Address W) : Decidable (WindowOver env s) :=
  inferInstanceAs (Decidable (_ ≤ _))

def paid (env : Env Address contract) (s : Storage Address W) (p : Proposal Address) (w : W) :
    Storage Address W :=
  { s with
    nonce := s.nonce.insert (depositIdToNonce p.depositId) true
    volumeWindowStart := if WindowOver env s then env.sequence else s.volumeWindowStart
    volumeInWindow := (if WindowOver env s then 0 else s.volumeInWindow) + p.amount
    world := w }.publish (payment p)

inductive Transition (T : StellarAsset Address W) (env : Env Address contract)
    (s : Storage Address W) : Call Address → Storage Address W → Prop where
  | propose (proposer : Address) (kind : ProposalKind) (target : Address) (amount : Int)
      (d : BytesN 32) (hauth : env.auths proposer = true) (hsigner : s.isSigner proposer = true)
      (hpos : 0 < amount) (hk : kind = .mintWpi ∨ kind = .releaseUsdc)
      (hd : s.isDepositProcessed d = false)
      (hv : 0 < s.volumeCap → s.volumeInWindow + amount ≤ s.volumeCap) (hp : s.paused = false) :
      Transition T env s (.propose proposer kind target amount d) ({ s with
        proposal := s.proposal.insert s.proposalCount
          ⟨s.proposalCount, kind, proposer, target, amount, d, [proposer], .pending,
            env.sequence, none⟩
        proposalCount := s.proposalCount + 1 }.publish
          (.created s.proposalCount kind proposer target amount d))
  | vote (signer : Address) (id : Nat) (p : Proposal Address) (hv : Votes env s signer id p)
      (hq : p.approvals.length + 1 < s.threshold) :
      Transition T env s (.approve signer id)
        { countVote s signer id p with proposal := s.proposal.insert id (voted p signer) }
  | execute (signer : Address) (id : Nat) (p : Proposal Address) (w : W)
      (hv : Votes env s signer id p) (hq : s.threshold ≤ p.approvals.length + 1) (hk : Pays p)
      (hw : payOut T contract s p = some w) :
      Transition T env s (.approve signer id)
        { paid env (countVote s signer id p) (voted p signer) w with
          proposal := s.proposal.insert id (settled p signer env.sequence) }
  | settle (signer : Address) (id : Nat) (p : Proposal Address) (hv : Votes env s signer id p)
      (hq : s.threshold ≤ p.approvals.length + 1) (hk : ¬ Pays p) :
      Transition T env s (.approve signer id)
        { countVote s signer id p with
          proposal := s.proposal.insert id (settled p signer env.sequence) }
  | addSigner (admin a : Address) (ha : ByAdmin env s admin) (hnew : s.isSigner a = false) :
      Transition T env s (.addSigner admin a) ({ s with
        signer := s.signer.insert a true
        signerCount := s.signerCount + 1 }.publish (.signerAdded a))
  | removeSigner (admin a : Address) (ha : ByAdmin env s admin) (hold : s.isSigner a = true)
      (hcount : 1 < s.signerCount) (hle : s.threshold ≤ s.signerCount - 1) :
      Transition T env s (.removeSigner admin a) ({ s with
        signer := s.signer.insert a false
        signerCount := s.signerCount - 1 }.publish (.signerRemoved a))
  | setThreshold (admin : Address) (n : Nat) (ha : ByAdmin env s admin) (hn : n ≠ 0)
      (hle : n ≤ s.signerCount) :
      Transition T env s (.setThreshold admin n) ({ s with threshold := n }.publish (.threshold n))
  | setVolumeCap (admin : Address) (cap : Int) (ledgers : Nat) (ha : ByAdmin env s admin) :
      Transition T env s (.setVolumeCap admin cap ledgers)
        ({ s with volumeCap := cap, volumeWindowLedgers := ledgers }.publish (.volCap cap ledgers))
  | pause (admin : Address) (ha : ByAdmin env s admin) :
      Transition T env s (.pause admin) ({ s with paused := true }.publish .paused)
  | unpause (admin : Address) (ha : ByAdmin env s admin) :
      Transition T env s (.unpause admin) ({ s with paused := false }.publish .unpaused)
  | setAdmin (admin a : Address) (ha : ByAdmin env s admin) :
      Transition T env s (.setAdmin admin a) ({ s with admin := some a }.publish (.admin a))
  | setMaxProposalAge (admin : Address) (age : Nat) (ha : ByAdmin env s admin) :
      Transition T env s (.setMaxProposalAge admin age) { s with maxProposalAge := age }

theorem volumeBreaker_ok {amount : Int} {u : Unit} (h : volumeBreaker s amount = .ok u)
    (hcap : 0 < s.volumeCap) : s.volumeInWindow + amount ≤ s.volumeCap := by
  simp only [volumeBreaker, hcap, if_true, checkVolume, bind_eq_ok, checked_eq_ok,
    rejectIf_eq_ok] at h
  obtain ⟨_, ⟨-, rfl⟩, hle⟩ := h
  exact not_lt.mp hle

theorem propose_transition {proposer target : Address} {kind : ProposalKind} {amount : Int}
    {d : BytesN 32} {id : Nat} (h : propose env s proposer kind target amount d = .ok (id, t)) :
    Transition T env s (.propose proposer kind target amount d) t := by
  simp only [propose, bind_eq_ok, rejectIf_eq_ok, requireAuth_eq_ok, checkedUInt_eq_ok,
    pure_eq_ok, Prod.mk.injEq] at h
  obtain ⟨_, hauth, _, hp, _, hsigner, _, hpos, _, hk, _, hd, _, hv, _, ⟨-, rfl⟩, -, rfl⟩ := h
  have hkind : kind = .mintWpi ∨ kind = .releaseUsdc := by
    by_contra hne
    exact hk (not_or.mp hne)
  exact .propose proposer kind target amount d hauth (not_not.mp hsigner) (not_le.mp hpos) hkind
    (by simpa using hd) (volumeBreaker_ok hv) (by simpa using hp)

theorem addVolume_ok {amount : Int} (h : addVolume env s amount = .ok t) :
    t = { s with
      volumeWindowStart := if WindowOver env s then env.sequence else s.volumeWindowStart
      volumeInWindow := (if WindowOver env s then 0 else s.volumeInWindow) + amount } := by
  simp only [addVolume, bind_eq_ok, checkedUInt_eq_ok, checked_eq_ok, pure_eq_ok] at h
  obtain ⟨_, ⟨-, rfl⟩, _, ⟨-, rfl⟩, rfl⟩ := h
  rfl

theorem executeProposal_ok {p : Proposal Address} {status : ProposalStatus}
    (h : executeProposal T env s p = .ok (status, t)) :
    status = .executed ∧
      ((Pays p ∧ ∃ w, payOut T contract s p = some w ∧ t = paid env s p w) ∨
        (¬ Pays p ∧ t = s)) := by
  unfold executeProposal at h
  split at h
  next hm =>
    simp only [bind_eq_ok, unwrap_eq_ok, pure_eq_ok, Prod.mk.injEq] at h
    obtain ⟨_, hv, wpi, hwpi, w, hw, rfl, rfl⟩ := h
    cases addVolume_ok hv
    refine ⟨rfl, .inl ⟨.inl hm, w, ?_, ?_⟩⟩
    · simp only [payOut, hm, if_true]
      exact Option.bind_eq_some_iff.mpr ⟨wpi, hwpi, hw⟩
    · simp only [paid, payment, hm, if_true]
      rfl
  next hr =>
    simp only [bind_eq_ok, unwrap_eq_ok, pure_eq_ok, Prod.mk.injEq] at h
    obtain ⟨_, hv, usdc, husdc, w, hw, rfl, rfl⟩ := h
    cases addVolume_ok hv
    refine ⟨rfl, .inl ⟨.inr hr, w, ?_, ?_⟩⟩
    · simp only [payOut, hr, reduceCtorEq, if_false]
      exact Option.bind_eq_some_iff.mpr ⟨usdc, husdc, hw⟩
    · simp only [paid, payment, hr, reduceCtorEq, if_false]
      rfl
  next hm hr =>
    simp only [pure_eq_ok, Prod.mk.injEq] at h
    obtain ⟨rfl, rfl⟩ := h
    exact ⟨rfl, .inr ⟨not_or.mpr ⟨hm, hr⟩, rfl⟩⟩

theorem approve_transition {signer : Address} {id : Nat} {status : ProposalStatus}
    (h : approve T env s signer id = .ok (status, t)) :
    Transition T env s (.approve signer id) t := by
  simp only [approve, bind_eq_ok, rejectIf_eq_ok, requireAuth_eq_ok, checkedUInt_eq_ok,
    Storage.getProposal, okOr_eq_ok] at h
  obtain ⟨_, hauth, _, hsigner, p, hl, _, hs, _, ⟨-, rfl⟩, _, hage, _, hnew, h⟩ := h
  have hv : Votes env s signer id p :=
    ⟨hauth, not_not.mp hsigner, hl, not_not.mp hs, not_lt.mp hage, hnew⟩
  have hlen : (p.approvals ++ [signer]).length = p.approvals.length + 1 := by simp
  rw [hlen] at h
  split at h
  next hq =>
    simp only [bind_eq_ok, pure_eq_ok, Prod.mk.injEq] at h
    obtain ⟨⟨_, u⟩, he, -, rfl⟩ := h
    obtain ⟨rfl, ⟨hk, w, hw, rfl⟩ | ⟨hk, rfl⟩⟩ := executeProposal_ok he
    · exact .execute signer id p w hv hq hk hw
    · exact .settle signer id p hv hq hk
  next hq =>
    simp only [pure_eq_ok, Prod.mk.injEq] at h
    obtain ⟨-, rfl⟩ := h
    exact .vote signer id p hv (not_le.mp hq)

theorem adminGuard_ok {admin : Address} {k : Outcome BridgeError (Storage Address W)} :
    (do
      let current ← s.readAdmin
      rejectIf (admin ≠ current) .notAdmin
      requireAuth env admin
      k) = .ok t ↔ ByAdmin env s admin ∧ k = .ok t := by
  simp only [Storage.readAdmin, bind_eq_ok, unwrap_eq_ok, rejectIf_eq_ok, requireAuth_eq_ok,
    not_not]
  refine ⟨?_, ?_⟩
  · rintro ⟨_, ha, _, rfl, _, hauth, h⟩
    exact ⟨⟨ha, hauth⟩, h⟩
  · rintro ⟨⟨ha, hauth⟩, h⟩
    exact ⟨admin, ha, (), rfl, (), hauth, h⟩

theorem invoke_transition {c : Call Address} (h : invoke T env s c = .ok t) :
    Transition T env s c t := by
  cases c with
  | propose proposer kind target amount d =>
    simp only [invoke, bind_eq_ok, pure_eq_ok] at h
    obtain ⟨⟨_, _⟩, h, rfl⟩ := h
    exact propose_transition h
  | approve signer id =>
    simp only [invoke, bind_eq_ok, pure_eq_ok] at h
    obtain ⟨⟨_, _⟩, h, rfl⟩ := h
    exact approve_transition h
  | addSigner admin a =>
    obtain ⟨ha, h⟩ := adminGuard_ok.mp h
    simp only [bind_eq_ok, rejectIf_eq_ok, checkedUInt_eq_ok, pure_eq_ok] at h
    obtain ⟨_, hnew, _, ⟨-, rfl⟩, rfl⟩ := h
    exact .addSigner admin a ha (by simpa using hnew)
  | removeSigner admin a =>
    obtain ⟨ha, h⟩ := adminGuard_ok.mp h
    simp only [bind_eq_ok, rejectIf_eq_ok, pure_eq_ok] at h
    obtain ⟨_, hold, _, hcount, _, hle, rfl⟩ := h
    exact .removeSigner admin a ha (not_not.mp hold) (not_le.mp hcount) (not_lt.mp hle)
  | setThreshold admin n =>
    obtain ⟨ha, h⟩ := adminGuard_ok.mp h
    simp only [bind_eq_ok, rejectIf_eq_ok, pure_eq_ok, not_or, not_lt] at h
    obtain ⟨_, ⟨hn, hle⟩, rfl⟩ := h
    exact .setThreshold admin n ha hn hle
  | setVolumeCap admin cap ledgers =>
    obtain ⟨ha, h⟩ := adminGuard_ok.mp h
    cases pure_eq_ok.mp h
    exact .setVolumeCap admin cap ledgers ha
  | pause admin =>
    obtain ⟨ha, h⟩ := adminGuard_ok.mp h
    cases pure_eq_ok.mp h
    exact .pause admin ha
  | unpause admin =>
    obtain ⟨ha, h⟩ := adminGuard_ok.mp h
    cases pure_eq_ok.mp h
    exact .unpause admin ha
  | setAdmin admin a =>
    obtain ⟨ha, h⟩ := adminGuard_ok.mp h
    cases pure_eq_ok.mp h
    exact .setAdmin admin a ha
  | setMaxProposalAge admin age =>
    obtain ⟨ha, h⟩ := adminGuard_ok.mp h
    cases pure_eq_ok.mp h
    exact .setMaxProposalAge admin age ha

end Suban.BridgeMultisig.Transitions

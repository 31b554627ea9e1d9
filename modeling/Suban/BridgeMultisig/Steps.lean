import Suban.BridgeMultisig.Transitions

namespace Suban.BridgeMultisig.Steps

open Suban.Basis.Calls Suban.Basis.Tables Suban.Soroban.Host
open Suban.BridgeMultisig.Contract Suban.BridgeMultisig.Transitions

variable {Address W : Type} [DecidableEq Address] {contract : Address}
variable {T : StellarAsset Address W} {env : Env Address contract} {s t : Storage Address W}

def paysOut (d : BytesN 32) : Event Address → Bool
  | .mint _ _ _ depositId | .release _ _ _ depositId => depositId = d
  | _ => false

def payouts (s : Storage Address W) (d : BytesN 32) : Nat := s.events.countP (paysOut d)

theorem payouts_publish (s : Storage Address W) (e : Event Address) (d : BytesN 32) :
    payouts (s.publish e) d = payouts s d + if paysOut d e then 1 else 0 := by
  simp only [payouts, Storage.publish, List.countP_append, List.countP_singleton]

/-- The call is a vote that completes the quorum of the proposal. -/
def Completes (s : Storage Address W) (p : Proposal Address) : Call Address → Prop
  | .approve _ id => s.proposal.lookup id = some p ∧ s.threshold ≤ p.approvals.length + 1
  | _ => False

theorem completes_unique {p q : Proposal Address} {c : Call Address} (hp : Completes s p c)
    (hq : Completes s q c) : p = q := by
  cases c with
  | approve signer id => exact Option.some.inj (hp.1.symm.trans hq.1)
  | _ => exact hp.elim

/-- What a call does to the proposals: it leaves them, files a new one, adds a
vote to one of them, or completes its quorum and executes it. -/
inductive Effect (s t : Storage Address W) : Call Address → Prop where
  | keep {c} (ha : ∀ signer id, c ≠ .approve signer id) (hp : t.proposal = s.proposal)
      (hc : t.proposalCount = s.proposalCount) (hn : t.nonce = s.nonce)
      (ho : payouts t = payouts s) : Effect s t c
  | propose (proposer : Address) (kind : ProposalKind) (target : Address) (amount : Int)
      (d : BytesN 32) (createdAt : Nat) (hk : kind = .mintWpi ∨ kind = .releaseUsdc)
      (hd : s.isDepositProcessed d = false)
      (hp : t.proposal = s.proposal.insert s.proposalCount
        ⟨s.proposalCount, kind, proposer, target, amount, d, [proposer], .pending,
          createdAt, none⟩)
      (hc : t.proposalCount = s.proposalCount + 1) (hn : t.nonce = s.nonce)
      (ho : payouts t = payouts s) : Effect s t (.propose proposer kind target amount d)
  | vote (signer : Address) (id : Nat) (p : Proposal Address)
      (hl : s.proposal.lookup id = some p) (hs : p.status = .pending)
      (hq : p.approvals.length + 1 < s.threshold)
      (hp : t.proposal = s.proposal.insert id { p with approvals := p.approvals ++ [signer] })
      (hc : t.proposalCount = s.proposalCount) (hn : t.nonce = s.nonce)
      (ho : payouts t = payouts s) : Effect s t (.approve signer id)
  | execute (signer : Address) (id : Nat) (p : Proposal Address) (executedAt : Nat)
      (hl : s.proposal.lookup id = some p) (hs : p.status = .pending)
      (hq : s.threshold ≤ p.approvals.length + 1)
      (hp : t.proposal = s.proposal.insert id { p with
        approvals := p.approvals ++ [signer]
        status := .executed
        executedAt := some executedAt })
      (hc : t.proposalCount = s.proposalCount)
      (ho : p.kind = .mintWpi ∨ p.kind = .releaseUsdc →
        t.nonce = s.nonce.insert (depositIdToNonce p.depositId) true ∧
        ∀ d, payouts t d = payouts s d + if p.depositId = d then 1 else 0) :
      Effect s t (.approve signer id)

theorem payouts_paid (p : Proposal Address) (w : W) (d : BytesN 32) :
    payouts (paid env s p w) d = payouts s d + if p.depositId = d then 1 else 0 := by
  have hpays : paysOut d (payment p) = decide (p.depositId = d) := by
    unfold payment
    split <;> rfl
  rw [paid, payouts_publish, hpays]
  simp only [decide_eq_true_eq]
  rfl

theorem effect_of_transition {c : Call Address} (h : Transition T env s c t) : Effect s t c := by
  cases h with
  | propose proposer kind target amount d hauth hsigner hpos hk hd =>
    exact .propose proposer kind target amount d env.sequence hk hd rfl rfl rfl
      (funext (payouts_publish _ _))
  | vote signer id p hv hq =>
    exact .vote signer id p hv.lookup hv.pending hq rfl rfl rfl (funext (payouts_publish s _))
  | execute signer id p w hv hq hk hw =>
    refine .execute signer id p env.sequence hv.lookup hv.pending hq rfl rfl fun _ => ⟨rfl, ?_⟩
    intro d
    have hvote : payouts (countVote s signer id p) d = payouts s d := payouts_publish s _ d
    exact (payouts_paid _ w d).trans (by rw [hvote]; rfl)
  | settle signer id p hv hq hk =>
    exact .execute signer id p env.sequence hv.lookup hv.pending hq rfl rfl (absurd · hk)
  | addSigner | removeSigner | setThreshold | setVolumeCap | pause | unpause | setAdmin =>
    exact .keep (by simp) rfl rfl rfl (funext (payouts_publish _ _))
  | setMaxProposalAge => exact .keep (by simp) rfl rfl rfl rfl

theorem invoke_effect {c : Call Address} (h : invoke T env s c = .ok t) : Effect s t c :=
  effect_of_transition (invoke_transition h)

end Suban.BridgeMultisig.Steps

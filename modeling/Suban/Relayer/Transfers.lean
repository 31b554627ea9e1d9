import Suban.Relayer.Processor
import Suban.Relayer.Published
import Suban.Relayer.TxBuilder

namespace Suban.Relayer.Transfers

open Suban.Basis.Calls Suban.Evm.Host Suban.Soroban.Host
open Suban.Relayer.Stellar Suban.Relayer.Processor Suban.Relayer.Published
open Suban.Relayer.TxBuilder

variable {Address W B : Type} [DecidableEq Address] {contract : Address}

/-- The two chains' tokens and the relayer between them. -/
structure Setup (Address W B : Type) [DecidableEq Address] where
  strkey : Address → String
  stellarAsset : StellarAsset Address W
  limit : Nat
  fees : FeeConfig
  wallet : Wallet
  crypto : Crypto
  erc20 : Erc20 B
  arcContract : Account

/-- Both bridges, the events that wait for their ledger to close, and the
relayer. A mint is recorded with the burn that it is for. -/
structure Network (Address W B : Type) [DecidableEq Address] where
  stellar : BridgeBurnMint.Contract.Storage Address W
  pending : List Published
  chain : Chain
  watcher : StellarWatcher
  processor : EventProcessor StellarBurnEvent
  arc : ArcBridge.Contract.Bridge B
  mints : List (StellarBurnEvent × Word)

/-- The relayer starts watching a bridge that has been initialised. -/
def launch (D : Setup Address W B) (stellar : BridgeBurnMint.Contract.Storage Address W)
    (arc : ArcBridge.Contract.Bridge B) (txHash : String) (latest fromLedger : Nat) :
    Network Address W B where
  stellar := stellar
  pending := stellar.events.map (published D.strkey txHash)
  chain := .empty latest
  watcher := start (.empty latest) fromLedger
  processor := .fresh
  arc := arc
  mints := []

inductive Input (Address W B : Type) (contract : Address) where
  | stellar (txHash : String)
      (i : Soroban.Host.Input Address W contract (BridgeBurnMint.Contract.Call Address))
  | close
  | getLatestLedger
  | getEvents
  | mine (event : StellarBurnEvent) (timestamp : Word)
  | settle (k : Nat) (result : Result)
  | arc (i : ArcBridge.Contract.Input B)

def lift {δ α : Type} : Except δ α → Outcome Unit α
  | .ok a => .ok a
  | .error _ => .error (.error ())

@[simp] theorem lift_eq_ok {δ α : Type} {x : Except δ α} {a : α} : lift x = .ok a ↔ x = .ok a := by
  cases x <;> simp [lift]

variable (D : Setup Address W B) (s : Network Address W B)

def invokeStellar (txHash : String)
    (i : Soroban.Host.Input Address W contract (BridgeBurnMint.Contract.Call Address)) :
    Outcome Unit (Network Address W B) := do
  let stellar ← lift (BridgeBurnMint.Contract.step D.stellarAsset s.stellar i)
  let events := stellar.events.drop s.stellar.events.length
  pure { s with
    stellar := stellar
    pending := s.pending ++ events.map (published D.strkey txHash) }

/-- The burns that the watcher emits go to the processor at once. -/
def watch (i : Stellar.Input) (pending : List Published) : Outcome Unit (Network Address W B) := do
  let w ← lift (Stellar.step D.limit ⟨s.chain, s.watcher⟩ i)
  let burns := w.watcher.emitted.drop s.watcher.emitted.length
  pure { s with
    pending := pending
    chain := w.chain
    watcher := w.watcher
    processor := burns.foldl (fun p event => processStellarBurn p event event) s.processor }

/-- The relayer mints to its own account, whoever has burned. -/
def stellarToEvmAddress (_ : String) : Account := D.wallet.address

/-- The transaction that was submitted for a burn is mined, once at most. -/
def mine (event : StellarBurnEvent) (timestamp : Word) : Outcome Unit (Network Address W B) := do
  rejectIf (event ∉ s.processor.attempts.map Attempt.burn) ()
  rejectIf (event ∈ s.mints.map Prod.fst) ()
  let recipient := stellarToEvmAddress D event.sender
  let mint ← unwrap (buildArcMint D.crypto D.wallet D.fees event recipient)
  let arc ← lift (ArcBridge.Contract.invoke D.crypto D.erc20 D.arcContract
    ⟨D.wallet.address, timestamp⟩ s.arc mint.call)
  pure { s with arc := arc, mints := s.mints ++ [(event, mint.amount)] }

def FromWallet : ArcBridge.Contract.Input B → Prop
  | .call msg (.mintPusd ..) => msg.sender = D.wallet.address
  | _ => False

instance (i : ArcBridge.Contract.Input B) : Decidable (FromWallet D i) :=
  match i with
  | .call _ (.mintPusd ..) => inferInstanceAs (Decidable (_ = _))
  | .call _ (.burnPusd ..) | .call _ (.addValidator _) | .call _ (.removeValidator _)
  | .call _ (.setThreshold _) | .call _ (.setVolumeCap ..) | .call _ (.setChainMintCap ..)
  | .call _ .pause | .call _ .unpause | .elsewhere .. => .isFalse id

/-- What else happens to the bridge. No one but the relayer mints with its
key. -/
def invokeArc (i : ArcBridge.Contract.Input B) : Outcome Unit (Network Address W B) := do
  rejectIf (FromWallet D i) ()
  let arc ← lift (ArcBridge.Contract.step D.crypto D.erc20 D.arcContract s.arc i)
  pure { s with arc := arc }

def step (s : Network Address W B) :
    Input Address W B contract → Outcome Unit (Network Address W B)
  | .stellar txHash i => invokeStellar D s txHash i
  | .close => watch D s (.close s.pending) []
  | .getLatestLedger => watch D s .getLatestLedger s.pending
  | .getEvents => watch D s .getEvents s.pending
  | .mine event timestamp => mine D s event timestamp
  | .settle k result => do
    let processor ← lift (settle .stellar s.processor k result)
    pure { s with processor := processor }
  | .arc i => invokeArc D s i

end Suban.Relayer.Transfers

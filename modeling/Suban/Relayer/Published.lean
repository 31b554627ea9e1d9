import Suban.BridgeBurnMint.Transitions
import Suban.Relayer.Stellar

namespace Suban.Relayer.Published

open Suban.Basis.Calls Suban.Basis.Numbers Suban.Basis.Tables Suban.Soroban.Host
open Suban.BridgeBurnMint.Contract Suban.BridgeBurnMint.Transitions
open Suban.Relayer.Stellar hiding step Input

variable {Address W : Type} {contract : Address}

/-- The event as the server reports it. Addresses are written in their text
form. -/
def published (strkey : Address → String) (txHash : String) :
    Event Address → Published
  | .init admin threshold signerCount =>
    ⟨[.text "config", .text "init"],
      .several [strkey admin, toString threshold, toString signerCount], txHash⟩
  | .burn destination sender nonce amount =>
    ⟨[.text "burn", .text destination, .text (strkey sender), .integer nonce],
      .integer amount, txHash⟩
  | .mint sourceChain sourceNonce recipient amount =>
    ⟨[.text "mint", .text sourceChain, .integer sourceNonce, .text (strkey recipient)],
      .integer amount, txHash⟩
  | .signerAdd signer => ⟨[.text "signer", .text "add"], .text (strkey signer), txHash⟩
  | .signerRemove signer => ⟨[.text "signer", .text "remove"], .text (strkey signer), txHash⟩
  | .threshold threshold => ⟨[.text "config", .text "threshold"], .integer threshold, txHash⟩
  | .setCap cap => ⟨[.text "volume", .text "set_cap"], .integer cap, txHash⟩
  | .mintCap cap => ⟨[.text "config", .text "mint_cap"], .integer cap, txHash⟩

def burnsFor : Input Address W contract (Call Address) → Option String
  | .call _ (.burnPusd _ _ destination) => some destination
  | _ => none

def destinationOf : Event Address → Option String
  | .burn destination _ _ _ => some destination
  | _ => none

def burnedBy (chain : String) : Event Address → Int
  | .burn destination _ _ amount => if destination = chain then amount else 0
  | _ => 0

theorem events_step [DecidableEq Address] {T : StellarAsset Address W} {s t : Storage Address W}
    {i : Input Address W contract (Call Address)}
    (h : step T s i = .ok t) (chain : String) :
    ∃ events, t.events = s.events ++ events ∧
      t.burned chain = s.burned chain + (events.map (burnedBy chain)).sum ∧
      ∀ e ∈ events, 0 ≤ burnedBy chain e ∧
        ∀ destination, destinationOf e = some destination → burnsFor i = some destination := by
  cases i with
  | world w =>
    cases pure_eq_ok.mp h
    exact ⟨[], (List.append_nil _).symm, (add_zero _).symm, by simp⟩
  | call env c =>
    have hinvoke : invoke T env s c = .ok t := h
    cases invoke_transition hinvoke with
    | burn sender amount destination token w hp hpos =>
      refine ⟨[_], rfl, ?_, ?_⟩
      · simp only [Storage.burned, Storage.publish,
          readOr_insert, List.map_singleton, List.sum_singleton, burnedBy]
        by_cases hc : chain = destination
        · simp [hc]
        · simp [hc, Ne.symm hc]
      · intro e he
        cases List.mem_singleton.mp he
        refine ⟨?_, fun _ hd => hd⟩
        simp only [burnedBy]
        split
        · exact hpos.le
        · exact le_rfl
    | pause | unpause => exact ⟨[], (List.append_nil _).symm, (add_zero _).symm, by simp⟩
    | _ => exact ⟨[_], rfl, (add_zero _).symm, by simp [burnedBy, destinationOf]⟩

def worth (b : StellarBurnEvent) : Int :=
  if b.destinationChain = "arc" then (bigInt b.amount).getD 0 else 0

def directed (p : Published) : Int := ((parseBurnEvent ⟨p, 0⟩).map worth).getD 0

theorem parse_at (p : Published) (ledger : Nat) :
    parseBurnEvent ⟨p, ledger⟩ =
      (parseBurnEvent ⟨p, 0⟩).map (fun b => { b with ledger := ledger }) := by
  unfold parseBurnEvent
  dsimp only
  split
  next =>
    split
    · rfl
    · rfl
  next => rfl

theorem directed_eq (e : RpcEvent) :
    ((parseBurnEvent e).map worth).getD 0 = directed e.toPublished := by
  have hat : parseBurnEvent e = _ := parse_at e.toPublished e.ledger
  rw [hat, directed, Option.map_map]
  rfl

theorem parse_published (strkey : Address → String) (txHash : String)
    (e : Event Address) :
    (parseBurnEvent ⟨published strkey txHash e, 0⟩).map StellarBurnEvent.destinationChain =
      destinationOf e := by
  cases e <;> rfl

theorem destination_published {strkey : Address → String} {txHash : String}
    {e : Event Address} {b : StellarBurnEvent}
    (h : parseBurnEvent ⟨published strkey txHash e, 0⟩ = some b) :
    destinationOf e = some b.destinationChain := by
  rw [← parse_published strkey txHash e, h, Option.map_some]

theorem directed_published (strkey : Address → String) (txHash : String)
    (e : Event Address) :
    directed (published strkey txHash e) = burnedBy "arc" e := by
  cases e with
  | burn destination sender nonce amount =>
    have hamount : bigInt (Native.integer amount).toString = some amount := bigInt_toString amount
    have hworth : directed (published strkey txHash (.burn destination sender nonce amount)) =
        if destination = "arc" then (bigInt (Native.integer amount).toString).getD 0 else 0 := rfl
    rw [hworth, hamount]
    rfl
  | _ => rfl

end Suban.Relayer.Published

import Suban.ArcBridge.Contract
import Suban.Basis.Numbers

namespace Suban.Relayer.Arc

open Suban.Basis.Numbers Suban.Evm.Host Suban.ArcBridge.Contract

structure EventLog where
  event : Event
  transactionHash : String
  blockNumber : Nat

/-- The destination is an indexed text, of which the log has the hash only. -/
structure ArcBurnEvent where
  destinationChain : Word
  sender : Account
  amount : String
  nonce : Number
  txHash : String
  blockNumber : Nat
  deriving DecidableEq

def parseBurnEvent (K : Crypto) (log : EventLog) : Option ArcBurnEvent :=
  match log.event with
  | .pusdBurned destChain sender amount nonce => some {
      destinationChain := K.keccak256 destChain
      sender := sender
      amount := toString amount.toNat
      nonce := parseInt (toString nonce.toNat)
      txHash := log.transactionHash
      blockNumber := log.blockNumber }
  | _ => none

end Suban.Relayer.Arc

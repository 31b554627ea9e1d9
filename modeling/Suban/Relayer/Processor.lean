import Suban.Basis.Tables
import Suban.Relayer.Arc
import Suban.Relayer.Stellar

namespace Suban.Relayer.Processor

open Suban.Basis.Numbers Suban.Basis.Tables Suban.Relayer.Stellar Suban.Relayer.Arc

inductive BurnEvent where
  | stellar (event : StellarBurnEvent)
  | arc (event : ArcBurnEvent)
  deriving DecidableEq

inductive SourceChain where
  | stellar
  | arc
  deriving DecidableEq

inductive Status where
  | pending
  | processing
  | completed
  | failed
  deriving DecidableEq

structure ProcessedEvent where
  id : String
  sourceChain : SourceChain
  status : Status
  txHash : Option String
  error : Option String

inductive Progress where
  | inFlight
  | minted
  | failed
  deriving DecidableEq

structure Attempt (β : Type) where
  burn : β
  progress : Progress

/-- The processor's map, next to the submissions that it has made. -/
structure EventProcessor (β : Type) where
  processedEvents : Table String ProcessedEvent
  attempts : List (Attempt β)

def stellarId (event : StellarBurnEvent) : String :=
  "stellar-" ++ event.txHash ++ "-" ++ String.ofList (toText event.nonce)

def arcId (event : ArcBurnEvent) : String :=
  "arc-" ++ event.txHash ++ "-" ++ String.ofList (toText event.nonce)

def eventId : BurnEvent → String
  | .stellar event => stellarId event
  | .arc event => arcId event

variable {β : Type} (parsed : β → BurnEvent) (p : EventProcessor β)

namespace EventProcessor

def fresh : EventProcessor β where
  processedEvents := ∅
  attempts := []

def isProcessed (eventId : String) : Bool := (p.processedEvents.lookup eventId).isSome

end EventProcessor

/-- What both kinds of burns go through until their mint is submitted. -/
def processBurn (burn : β) (eventId : String) (sourceChain : SourceChain) : EventProcessor β :=
  if p.isProcessed eventId then p
  else {
    processedEvents := p.processedEvents.insert eventId {
      id := eventId
      sourceChain := sourceChain
      status := .processing
      txHash := none
      error := none }
    attempts := p.attempts ++ [⟨burn, .inFlight⟩] }

def processStellarBurn (burn : β) (event : StellarBurnEvent) : EventProcessor β :=
  processBurn p burn (stellarId event) .stellar

def processArcBurn (burn : β) (event : ArcBurnEvent) : EventProcessor β :=
  processBurn p burn (arcId event) .arc

def deliver (burn : β) : EventProcessor β :=
  match parsed burn with
  | .stellar event => processStellarBurn p burn event
  | .arc event => processArcBurn p burn event

abbrev Result := Except String String

def buildStellarMint : Result :=
  .error "Arc->Stellar mint is disabled: signer authorization entries are not implemented"

def settled (processed : ProcessedEvent) : Result → ProcessedEvent
  | .ok txHash => { processed with status := .completed, txHash := some txHash }
  | .error message => { processed with status := .failed, error := some message }

def progressOf : Result → Progress
  | .ok _ => .minted
  | .error _ => .failed

/-- The mint on the other chain succeeds or fails, whichever chain that is. -/
def resultFor (result : Result) : BurnEvent → Result
  | .stellar _ => result
  | .arc _ => buildStellarMint

def settle (k : Nat) (result : Result) : Except Unit (EventProcessor β) :=
  match p.attempts[k]? with
  | some ⟨burn, .inFlight⟩ =>
    let eventId := eventId (parsed burn)
    let result := resultFor result (parsed burn)
    match p.processedEvents.lookup eventId with
    | some processed => .ok {
        processedEvents := p.processedEvents.insert eventId (settled processed result)
        attempts := p.attempts.set k ⟨burn, progressOf result⟩ }
    | none => .error ()
  | _ => .error ()

inductive Input (β : Type) where
  | deliver (burn : β)
  | settle (k : Nat) (result : Result)

def step (p : EventProcessor β) : Input β → Except Unit (EventProcessor β)
  | .deliver burn => .ok (deliver parsed p burn)
  | .settle k result => settle parsed p k result

end Suban.Relayer.Processor

import Suban.Indexer.Database

namespace Suban.Indexer.Webhooks

open Suban.Basis.Rows Suban.Basis.Runs Suban.Indexer.Database

structure WebhookConfig where
  maxAttempts : Nat
  baseBackoffMs : Nat
  maxBackoffMs : Nat

section Store

variable (h : Host)

def getSubscription (id : String) : Option WebhookSubscription :=
  h.webhookSubscriptions.find? (·.id = id)

def due (now limit : Nat) : List WebhookDelivery :=
  let pending := h.webhookDeliveries.filter fun d =>
    d.status = .pending ∧ d.nextAttemptAt ≤ now
  (pending.mergeSort fun a b => a.nextAttemptAt ≤ b.nextAttemptAt).take limit

def setDelivery (id : Nat) (change : WebhookDelivery → WebhookDelivery) : Host :=
  { h with webhookDeliveries := h.webhookDeliveries.map fun d => if d.id = id then change d else d }

def markDelivered (id : Nat) : Host :=
  setDelivery h id fun d => { d with status := .delivered, lastError := none }

/-- The status is left as it is. -/
def markRetry (id attempts nextAttemptAt : Nat) (error : String) : Host :=
  setDelivery h id fun d => { d with
    attempts := attempts
    nextAttemptAt := nextAttemptAt
    lastError := some (String.ofList (error.toList.take 1000)) }

def markFailed (id attempts : Nat) (error : String) : Host :=
  setDelivery h id fun d => { d with
    status := .failed
    attempts := attempts
    lastError := some (String.ofList (error.toList.take 1000)) }

end Store

/-- How far a run is with a delivery. -/
inductive Place where
  | between
  | posting (d : WebhookDelivery)
  | reading (d : WebhookDelivery) (status : Nat)

def Place.delivery : Place → Option WebhookDelivery
  | .between => none
  | .posting d | .reading d _ => some d

/-- A run of the dispatcher, with the rows of its snapshot that it has not come
to yet. -/
structure Dispatch where
  now : Nat
  place : Place
  ahead : List WebhookDelivery
  delivered : Nat

/-- What has been done about deliveries, from the oldest to the newest. -/
inductive Entry where
  | posted (id : Nat)
  | delivered (id : Nat)
  deriving DecidableEq

structure Dispatcher where
  host : Host
  runs : List Dispatch
  log : List Entry

def Dispatcher.start : Dispatcher := ⟨Host.fresh, [], []⟩

inductive Outcome where
  | response (status : Nat)
  | aborted
  | rejected (message : String)

/-- The timer starts runs at any time. A run goes on where it is, and while it
waits the others do, and the rest of the process. -/
inductive Input where
  | dispatchOnce (now : Nat)
  | turn (n : Nat)
  | respond (n : Nat) (outcome : Outcome)
  | readText (n : Nat) (text : String)
  | other (c : Statement)

section Steps

variable (config : WebhookConfig)

def handleFailure (h : Host) (d : WebhookDelivery) (attempts : Nat) (message : String)
    (now : Nat) : Host :=
  if config.maxAttempts ≤ attempts then markFailed h d.id attempts message
  else
    let delay := min config.maxBackoffMs (config.baseBackoffMs * 2 ^ (attempts - 1))
    markRetry h d.id attempts (now + (delay + 999) / 1000) message

variable (s : Dispatcher) (n : Nat) (r : Dispatch) (d : WebhookDelivery)

def turn (ahead : List WebhookDelivery) : Dispatcher :=
  if (getSubscription s.host d.subscriptionId).any WebhookSubscription.active then
    ⟨s.host, s.runs.set n { r with place := .posting d, ahead := ahead },
      s.log ++ [.posted d.id]⟩
  else
    ⟨markFailed s.host d.id d.attempts "subscription inactive or missing",
      s.runs.set n { r with ahead := ahead }, s.log⟩

/-- The attempts are counted from the snapshot. -/
def fail (message : String) : Dispatcher :=
  ⟨handleFailure config s.host d (d.attempts + 1) message r.now,
    s.runs.set n { r with place := .between }, s.log⟩

def respond : Outcome → Dispatcher
  | .response status =>
    if 200 ≤ status ∧ status ≤ 299 then
      ⟨markDelivered s.host d.id,
        s.runs.set n { r with place := .between, delivered := r.delivered + 1 },
        s.log ++ [.delivered d.id]⟩
    else { s with runs := s.runs.set n { r with place := .reading d status } }
  | .aborted => fail config s n r d "timeout"
  | .rejected message => fail config s n r d message

def failureText (status : Nat) (text : String) : String :=
  if text = "" then "HTTP " ++ toString status
  else "HTTP " ++ toString status ++ ": " ++ String.ofList (text.toList.take 200)

/-- Only the dispatcher writes to deliveries that are there. -/
def other (c : Statement) : Except Unit Dispatcher :=
  match c with
  | .updateDelivery _ _ _ _ _ => .error ()
  | c => .ok { s with host := (exec c s.host).2 }

end Steps

def step (config : WebhookConfig) (s : Dispatcher) : Input → Except Unit Dispatcher
  | .dispatchOnce now => .ok { s with runs := s.runs ++ [⟨now, .between, due s.host now 50, 0⟩] }
  | .turn n =>
    match s.runs[n]? with
    | some ⟨now, .between, d :: ahead, delivered⟩ =>
      .ok (turn s n ⟨now, .between, d :: ahead, delivered⟩ d ahead)
    | _ => .error ()
  | .respond n outcome =>
    match s.runs[n]? with
    | some ⟨now, .posting d, ahead, delivered⟩ =>
      .ok (respond config s n ⟨now, .posting d, ahead, delivered⟩ d outcome)
    | _ => .error ()
  | .readText n text =>
    match s.runs[n]? with
    | some ⟨now, .reading d status, ahead, delivered⟩ =>
      .ok (fail config s n ⟨now, .reading d status, ahead, delivered⟩ d (failureText status text))
    | _ => .error ()
  | .other c => other s c

end Suban.Indexer.Webhooks

import Suban.Basis.Catalogues
import Suban.Basis.Runs
import Suban.Soroban.Host

namespace Suban.EventRegistry

open Suban.Basis.Calls Suban.Basis.Tables Suban.Basis.Catalogues Suban.Basis.Runs
open Suban.Soroban.Host

structure EventRecord (Address : Type) where
  eventId : Nat
  primitive : String
  eventType : String
  contractAddress : Address
  actor : Address
  data : String
  ledger : Nat
  timestamp : Nat
  deriving DecidableEq

inductive RegistryError where
  | notAdmin
  | alreadyInitialized
  | eventNotFound
  deriving DecidableEq

inductive Event where
  | registered (eventId : Nat) (primitive : String)

structure Storage (Address : Type) [DecidableEq Address] where
  admin : Option Address
  eventCount : Nat
  event : Table Nat (EventRecord Address)
  primitiveIndex : Table (String × Nat) Nat
  contractIndex : Table (Address × Nat) Nat
  actorIndex : Table (Address × Nat) Nat
  published : List Event

variable {Address : Type} [DecidableEq Address] {contract : Address}

namespace Storage

def fresh : Storage Address where
  admin := none
  eventCount := 0
  event := ∅
  primitiveIndex := ∅
  contractIndex := ∅
  actorIndex := ∅
  published := []

variable (s : Storage Address)

def publish (e : Event) : Storage Address := { s with published := s.published ++ [e] }

def readAdmin : Outcome RegistryError Address := unwrap s.admin

end Storage

section Calls

variable (env : Env Address contract) (s : Storage Address)

def nextEventId : Outcome RegistryError (Storage Address × Nat) := do
  let count ← checkedUInt 64 (s.eventCount + 1)
  pure ({ s with eventCount := count }, s.eventCount)

/-- The counter starts anew, whatever was registered before. -/
def initialise (admin : Address) : Outcome RegistryError (Storage Address) := do
  panicIf s.admin.isSome
  requireAuth env admin
  pure { s with admin := some admin, eventCount := 0 }

/-- The contract that the event is about has to authorise the registration. -/
def registerEvent (primitive eventType : String) (contractAddress actor : Address)
    (data : String) : Outcome RegistryError (Storage Address × Nat) := do
  requireAuth env contractAddress
  let (s, eventId) ← nextEventId s
  let record : EventRecord Address := ⟨eventId, primitive, eventType, contractAddress, actor, data,
    env.sequence, env.timestamp⟩
  let s := { s with
    event := s.event.insert eventId record
    primitiveIndex := s.primitiveIndex.insert (primitive, eventId) eventId
    contractIndex := s.contractIndex.insert (contractAddress, eventId) eventId
    actorIndex := s.actorIndex.insert (actor, eventId) eventId }
  pure (s.publish (.registered eventId record.primitive), eventId)

def getEvent (eventId : Nat) : Outcome RegistryError (EventRecord Address) :=
  okOr (s.event.lookup eventId) .eventNotFound

def listBy (keep : EventRecord Address → Bool) (limit : Nat) : List (EventRecord Address) :=
  newest s.event keep limit s.eventCount 0 []

def listByPrimitive (primitive : String) (limit : Nat) : List (EventRecord Address) :=
  listBy s (fun record => record.primitive = primitive) limit

def listByContract (contractAddress : Address) (limit : Nat) : List (EventRecord Address) :=
  listBy s (fun record => record.contractAddress = contractAddress) limit

def listByActor (actor : Address) (limit : Nat) : List (EventRecord Address) :=
  listBy s (fun record => record.actor = actor) limit

def listRecent (limit : Nat) : List (EventRecord Address) := listBy s (fun _ => true) limit

inductive Call (Address : Type) where
  | initialise (admin : Address)
  | registerEvent (primitive eventType : String) (contractAddress actor : Address) (data : String)

def step : Env Address contract × Call Address → Outcome RegistryError (Storage Address)
  | (env, .initialise admin) => initialise env s admin
  | (env, .registerEvent primitive eventType contractAddress actor data) => do
    let (s, _) ← registerEvent env s primitive eventType contractAddress actor data
    pure s

end Calls

variable {env : Env Address contract} {s t : Storage Address}

abbrev Input (Address : Type) (contract : Address) := Env Address contract × Call Address

def recordAt (env : Env Address contract) (n : Nat) (primitive eventType : String)
    (contractAddress actor : Address) (data : String) : EventRecord Address :=
  ⟨n, primitive, eventType, contractAddress, actor, data, env.sequence, env.timestamp⟩

def logged (log : List (EventRecord Address)) :
    Input Address contract → List (EventRecord Address)
  | (_, .initialise _) => []
  | (env, .registerEvent primitive eventType contractAddress actor data) =>
    log ++ [recordAt env log.length primitive eventType contractAddress actor data]

structure Keeps (s : Storage Address) (log : List (EventRecord Address)) : Prop where
  count : s.eventCount = log.length
  entries : Catalogued s.event log
  numbered : ∀ k (h : k < log.length), log[k].eventId = k
  indexed : ∀ k (h : k < log.length), s.primitiveIndex.lookup (log[k].primitive, k) = some k ∧
    s.contractIndex.lookup (log[k].contractAddress, k) = some k ∧
    s.actorIndex.lookup (log[k].actor, k) = some k

theorem registerEvent_ok {primitive eventType data : String} {contractAddress actor : Address}
    {id : Nat}
    (h : registerEvent env s primitive eventType contractAddress actor data = .ok (t, id)) :
    env.auths contractAddress = true ∧ id = s.eventCount ∧
      t = ({ s with
        eventCount := s.eventCount + 1
        event := s.event.insert s.eventCount
          (recordAt env s.eventCount primitive eventType contractAddress actor data)
        primitiveIndex := s.primitiveIndex.insert (primitive, s.eventCount) s.eventCount
        contractIndex := s.contractIndex.insert (contractAddress, s.eventCount) s.eventCount
        actorIndex := s.actorIndex.insert (actor, s.eventCount) s.eventCount }).publish
          (.registered s.eventCount primitive) := by
  simp only [registerEvent, nextEventId, bind_eq_ok, requireAuth_eq_ok, checkedUInt_eq_ok,
    pure_eq_ok, Prod.mk.injEq] at h
  obtain ⟨_, ha, _, ⟨_, ⟨-, rfl⟩, rfl⟩, rfl, rfl⟩ := h
  exact ⟨ha, rfl, rfl⟩

omit [DecidableEq Address] in
theorem indexed_push {κ : Type} [DecidableEq κ] {index : Table (κ × Nat) Nat}
    {log : List (EventRecord Address)} {key : EventRecord Address → κ} {r : EventRecord Address}
    (h : ∀ k (hk : k < log.length), index.lookup (key log[k], k) = some k) (k : Nat)
    (hk : k < (log ++ [r]).length) :
    (index.insert (key r, log.length) log.length).lookup (key (log ++ [r])[k], k) = some k := by
  by_cases hlast : k = log.length
  · have hself : (log ++ [r])[k] = r := List.getElem_concat_length hlast hk
    rw [hself, hlast, AList.lookup_insert]
  · have hlt : k < log.length := by
      rw [List.length_append, List.length_singleton] at hk
      omega
    rw [AList.lookup_insert_ne (by simp [hlast]), List.getElem_append_left hlt]
    exact h k hlt

theorem keeps_push {log : List (EventRecord Address)} {r : EventRecord Address}
    (h : Keeps s log) (hid : r.eventId = log.length) (hcount : t.eventCount = s.eventCount + 1)
    (hevent : t.event = s.event.insert log.length r)
    (hprimitive : t.primitiveIndex = s.primitiveIndex.insert (r.primitive, log.length) log.length)
    (hcontract : t.contractIndex =
      s.contractIndex.insert (r.contractAddress, log.length) log.length)
    (hactor : t.actorIndex = s.actorIndex.insert (r.actor, log.length) log.length) :
    Keeps t (log ++ [r]) where
  count := by rw [hcount, h.count, List.length_append, List.length_singleton]
  entries := hevent ▸ h.entries.push r
  numbered k hk := by
    by_cases hlast : k = log.length
    · subst hlast
      simpa using hid
    · have hlt : k < log.length := by
        rw [List.length_append, List.length_singleton] at hk
        omega
      rw [List.getElem_append_left hlt]
      exact h.numbered k hlt
  indexed k hk := by
    rw [hprimitive, hcontract, hactor]
    exact ⟨indexed_push (fun k hk => (h.indexed k hk).1) k hk,
      indexed_push (fun k hk => (h.indexed k hk).2.1) k hk,
      indexed_push (fun k hk => (h.indexed k hk).2.2) k hk⟩

theorem keeps_step {i : Input Address contract} {log : List (EventRecord Address)}
    (h : step s i = .ok t) (hs : Keeps s log) : Keeps t (logged log i) := by
  obtain ⟨env, c⟩ := i
  cases c with
  | initialise admin =>
    simp only [step, initialise, bind_eq_ok, pure_eq_ok] at h
    obtain ⟨_, -, _, -, rfl⟩ := h
    exact ⟨rfl, catalogued_nil _, fun k hk => absurd hk (Nat.not_lt_zero k), fun k hk =>
      absurd hk (Nat.not_lt_zero k)⟩
  | registerEvent primitive eventType contractAddress actor data =>
    obtain ⟨⟨u, id⟩, h, hu⟩ := bind_eq_ok.mp h
    cases pure_eq_ok.mp hu
    obtain ⟨-, -, rfl⟩ := registerEvent_ok h
    rw [logged, ← hs.count]
    refine keeps_push hs hs.count rfl ?_ ?_ ?_ ?_ <;> rw [hs.count] <;> rfl

/-- A registration is one that its contract has authorised. -/
def Authentic : Input Address contract → Prop
  | (env, .registerEvent _ _ contractAddress _ _) => env.auths contractAddress = true
  | _ => True

theorem authentic_step {i : Input Address contract} (h : step s i = .ok t) : Authentic i := by
  obtain ⟨env, c⟩ := i
  cases c with
  | initialise => trivial
  | registerEvent primitive eventType contractAddress actor data =>
    obtain ⟨⟨u, id⟩, h, -⟩ := bind_eq_ok.mp h
    exact (registerEvent_ok h).1

structure Shows (s : Storage Address) (log : List (EventRecord Address)) : Prop where
  count : s.eventCount = log.length
  found : ∀ k (h : k < log.length), getEvent s k = .ok log[k] ∧ log[k].eventId = k
  byPrimitive : ∀ primitive limit, listByPrimitive s primitive limit =
    (log.reverse.filter (fun r => r.primitive = primitive)).take limit
  byContract : ∀ contractAddress limit, listByContract s contractAddress limit =
    (log.reverse.filter (fun r => r.contractAddress = contractAddress)).take limit
  byActor : ∀ actor limit, listByActor s actor limit =
    (log.reverse.filter (fun r => r.actor = actor)).take limit
  recent : ∀ limit, listRecent s limit = log.reverse.take limit

theorem Keeps.listBy_eq {log : List (EventRecord Address)} (h : Keeps s log)
    (keep : EventRecord Address → Bool) (limit : Nat) :
    listBy s keep limit = (log.reverse.filter keep).take limit := by
  rw [listBy, h.count]
  exact newest_eq h.entries keep limit

theorem Keeps.found {log : List (EventRecord Address)} (h : Keeps s log) {k : Nat}
    (hk : k < log.length) : getEvent s k = .ok log[k] := by
  rw [getEvent, okOr_eq_ok, h.entries k hk]
  exact List.getElem?_eq_getElem hk

theorem Keeps.shows {log : List (EventRecord Address)} (h : Keeps s log) : Shows s log where
  count := h.count
  found k hk := ⟨h.found hk, h.numbered k hk⟩
  byPrimitive primitive limit := h.listBy_eq _ limit
  byContract contractAddress limit := h.listBy_eq _ limit
  byActor actor limit := h.listBy_eq _ limit
  recent limit := by rw [listRecent, h.listBy_eq, List.filter_true]

def logOf (is : List (Input Address contract)) : List (EventRecord Address) :=
  (accepted step .fresh is).foldl logged []

theorem keeps_run (is : List (Input Address contract)) :
    Keeps (run step .fresh is) (logOf is) := by
  have hfresh : Keeps (Storage.fresh : Storage Address) [] := ⟨rfl, catalogued_nil _, nofun, nofun⟩
  have hstep : ∀ (s : Storage Address) (i : Input Address contract) t log, step s i = .ok t →
      Keeps s log → Keeps t (logged log i) := fun _ _ _ _ h hs => keeps_step h hs
  exact account_run hstep hfresh is

/-- After any calls on a registry from its deployment on, its lookups and its
listings show the registrations that were accepted since it was initialised,
the listings newest first, and each was authorised by the contract it names. -/
theorem shows_log (is : List (Input Address contract)) :
    Shows (run step .fresh is) (logOf is) ∧ (accepted step .fresh is).Forall Authentic := by
  refine ⟨(keeps_run is).shows, ?_⟩
  rw [List.forall_iff_forall_mem]
  exact forall_accepted (fun _ _ _ h => authentic_step h) _ is

theorem isSome_admin_step {i : Input Address contract} (h : step s i = .ok t)
    (hs : s.admin.isSome = true) :
    t.admin.isSome = true ∧ ∀ log, log <+: logged log i := by
  obtain ⟨env, c⟩ := i
  cases c with
  | initialise admin =>
    simp [step, initialise, panicIf, hs, bind, Except.bind] at h
  | registerEvent primitive eventType contractAddress actor data =>
    obtain ⟨⟨u, id⟩, h, hu⟩ := bind_eq_ok.mp h
    cases pure_eq_ok.mp hu
    obtain ⟨-, -, rfl⟩ := registerEvent_ok h
    exact ⟨hs, fun log => List.prefix_append _ _⟩

theorem prefix_logged {is : List (Input Address contract)} (hs : s.admin.isSome = true)
    (log : List (EventRecord Address)) :
    log <+: (accepted step s is).foldl logged log := by
  induction is generalizing s log with
  | nil => exact List.prefix_refl log
  | cons i is ih =>
    cases hi : step s i with
    | error e =>
      rw [accepted_error hi]
      exact ih hs log
    | ok t =>
      obtain ⟨ht, hmore⟩ := isSome_admin_step hi hs
      rw [accepted_ok hi]
      exact (hmore log).trans (ih ht _)

/-- Once the registry is initialised its log only grows, and what it shows for
an event stays. -/
theorem log_append_only {is : List (Input Address contract)}
    (hopen : (run step .fresh is).admin.isSome = true) (js : List (Input Address contract)) :
    logOf is <+: logOf (is ++ js) ∧ ∀ k < (run step .fresh is).eventCount,
      getEvent (run step .fresh (is ++ js)) k = getEvent (run step .fresh is) k := by
  have hinit : logOf is <+: logOf (is ++ js) := by
    rw [logOf, logOf, accepted_append, List.foldl_append]
    exact prefix_logged hopen _
  refine ⟨hinit, fun k hk => ?_⟩
  rw [(keeps_run is).count] at hk
  have hlater : k < (logOf (is ++ js)).length := hk.trans_le hinit.length_le
  rw [(keeps_run is).found hk, (keeps_run (is ++ js)).found hlater]
  exact congrArg _ (hinit.getElem hk).symm

def sampleCalls : List (Input Nat 0) :=
  [(Env.signed 0 5, .registerEvent "amm" "swap" 7 8 "early"), (Env.signed 0 6, .initialise 1),
    (Env.signed 0 7, .registerEvent "lending" "borrow" 7 9 "first")]

theorem log_append_only_sample :
    logOf sampleCalls <+: logOf (sampleCalls ++ [(Env.signed 0 8, .initialise 2)]) :=
  (log_append_only (by decide +kernel) _).1

end Suban.EventRegistry

import Suban.Basis.Catalogues
import Suban.Basis.Runs
import Suban.Soroban.Host

namespace Suban.EscrowFactory

open Suban.Basis.Calls Suban.Basis.Tables Suban.Basis.Catalogues Suban.Basis.Runs
open Suban.Soroban.Host

structure EscrowInstance (Address : Type) where
  instanceId : Nat
  contractAddress : Address
  creator : Address
  name : String
  active : Bool
  createdAt : Nat
  deriving DecidableEq

inductive FactoryError where
  | notAdmin
  | alreadyInitialized
  | instanceNotFound
  | notCreator
  deriving DecidableEq

inductive Event (Address : Type) where
  | escrowNew (instanceId : Nat) (contractAddress : Address)
  | escrowReg (instanceId : Nat) (contractAddress : Address)
  | escrowRm (instanceId : Nat) (contractAddress : Address)

/-- What the host's deployer would make of a salt and an uploaded code. -/
abbrev Deployer (Bytes32 Address : Type) := Bytes32 → Bytes32 → Option Address

structure Storage (Address : Type) where
  admin : Option Address
  instanceCount : Nat
  instances : Table Nat (EscrowInstance Address)
  events : List (Event Address)

variable {Bytes32 Address : Type} [DecidableEq Address] {contract : Address}

namespace Storage

def fresh : Storage Address where
  admin := none
  instanceCount := 0
  instances := ∅
  events := []

variable (s : Storage Address)

def publish (e : Event Address) : Storage Address := { s with events := s.events ++ [e] }

def readAdmin : Outcome FactoryError Address := unwrap s.admin

def readInstance (instanceId : Nat) : Outcome FactoryError (EscrowInstance Address) :=
  okOr (s.instances.lookup instanceId) .instanceNotFound

end Storage

section Calls

variable (env : Env Address contract) (s : Storage Address)

def nextInstanceId : Outcome FactoryError (Storage Address × Nat) := do
  let count ← checkedUInt 32 (s.instanceCount + 1)
  pure ({ s with instanceCount := count }, s.instanceCount)

/-- The counter starts anew, whatever was created before. -/
def initialise (admin : Address) : Outcome FactoryError (Storage Address) := do
  panicIf s.admin.isSome
  requireAuth env admin
  pure { s with admin := some admin, instanceCount := 0 }

def createEscrow (deployer : Deployer Bytes32 Address) (caller : Address)
    (wasmHash salt : Bytes32) (name : String) :
    Outcome FactoryError (Storage Address × Nat × Address) := do
  requireAuth env caller
  let contractAddress ← unwrap (deployer salt wasmHash)
  let (s, instanceId) ← nextInstanceId s
  let entry : EscrowInstance Address :=
    ⟨instanceId, contractAddress, caller, name, true, env.timestamp⟩
  let s := { s with instances := s.instances.insert instanceId entry }
  pure (s.publish (.escrowNew instanceId contractAddress), instanceId, contractAddress)

def registerEscrow (admin contractAddress : Address) (name : String) :
    Outcome FactoryError (Storage Address × Nat) := do
  let currentAdmin ← s.readAdmin
  rejectIf (admin ≠ currentAdmin) .notAdmin
  requireAuth env admin
  let (s, instanceId) ← nextInstanceId s
  let entry : EscrowInstance Address :=
    ⟨instanceId, contractAddress, admin, name, true, env.timestamp⟩
  let s := { s with instances := s.instances.insert instanceId entry }
  pure (s.publish (.escrowReg instanceId contractAddress), instanceId)

def removeEscrow (caller : Address) (instanceId : Nat) :
    Outcome FactoryError (Storage Address) := do
  requireAuth env caller
  let entry ← s.readInstance instanceId
  let admin ← s.readAdmin
  rejectIf (caller ≠ entry.creator ∧ caller ≠ admin) .notCreator
  let s := { s with instances := s.instances.insert instanceId { entry with active := false } }
  pure (s.publish (.escrowRm instanceId entry.contractAddress))

def getEscrow (instanceId : Nat) : Outcome FactoryError (EscrowInstance Address) :=
  s.readInstance instanceId

def listEscrows : List (EscrowInstance Address) :=
  listing s.instances (fun entry => entry.active) s.instanceCount

def listAllEscrows : List (EscrowInstance Address) :=
  listing s.instances (fun _ => true) s.instanceCount

inductive Call (Bytes32 Address : Type) where
  | initialise (admin : Address)
  | createEscrow (caller : Address) (wasmHash salt : Bytes32) (name : String)
  | registerEscrow (admin contractAddress : Address) (name : String)
  | removeEscrow (caller : Address) (instanceId : Nat)

/-- One invocation: what the host says about it, what its deployer would make,
and the call. -/
structure Invocation (Bytes32 Address : Type) (contract : Address) where
  env : Env Address contract
  deployer : Deployer Bytes32 Address
  call : Call Bytes32 Address

def step (s : Storage Address) (i : Invocation Bytes32 Address contract) :
    Outcome FactoryError (Storage Address) :=
  match i.call with
  | .initialise admin => initialise i.env s admin
  | .createEscrow caller wasmHash salt name => do
    let r ← createEscrow i.env s i.deployer caller wasmHash salt name
    pure r.1
  | .registerEscrow admin contractAddress name => do
    let r ← registerEscrow i.env s admin contractAddress name
    pure r.1
  | .removeEscrow caller instanceId => removeEscrow i.env s caller instanceId

end Calls

variable {env : Env Address contract} {s t : Storage Address}
variable {log : List (EscrowInstance Address)}

def deactivate (entry : EscrowInstance Address) : EscrowInstance Address :=
  { entry with active := false }

def added (i : Invocation Bytes32 Address contract) : Option (Address × Address × String) :=
  match i.call with
  | .createEscrow caller wasmHash salt name =>
    (i.deployer salt wasmHash).map fun contractAddress => (contractAddress, caller, name)
  | .registerEscrow admin contractAddress name => some (contractAddress, admin, name)
  | _ => none

def catalogued (log : List (EscrowInstance Address)) (i : Invocation Bytes32 Address contract) :
    List (EscrowInstance Address) :=
  match i.call with
  | .initialise _ => []
  | .removeEscrow _ instanceId => log.modify instanceId deactivate
  | _ => log ++ (added i).toList.map fun (contractAddress, creator, name) =>
      ⟨log.length, contractAddress, creator, name, true, i.env.timestamp⟩

/-- The call asks for a new escrow on behalf of its creator. -/
def Creates (creator : Address) : Call Bytes32 Address → Prop
  | .createEscrow caller _ _ _ => caller = creator
  | _ => False

inductive Effect (s : Storage Address) (i : Invocation Bytes32 Address contract) :
    Storage Address → Prop where
  | initialise (admin : Address) (hcall : i.call = .initialise admin) (hnew : s.admin = none) :
      Effect s i { s with admin := some admin, instanceCount := 0 }
  | add (contractAddress creator : Address) (name : String) (e : Event Address)
      (hcatalogued : ∀ log : List (EscrowInstance Address), catalogued log i =
        log ++ [⟨log.length, contractAddress, creator, name, true, i.env.timestamp⟩])
      (hauth : i.env.auths creator = true)
      (hcreator : Creates creator i.call ∨ s.admin = some creator) :
      Effect s i ({ s with
        instanceCount := s.instanceCount + 1
        instances := s.instances.insert s.instanceCount
          ⟨s.instanceCount, contractAddress, creator, name, true, i.env.timestamp⟩ }.publish e)
  | remove (caller admin : Address) (instanceId : Nat) (entry : EscrowInstance Address)
      (hcall : i.call = .removeEscrow caller instanceId) (hauth : i.env.auths caller = true)
      (hentry : s.instances.lookup instanceId = some entry) (hadmin : s.admin = some admin)
      (hcaller : caller = entry.creator ∨ caller = admin) :
      Effect s i ({ s with
        instances := s.instances.insert instanceId (deactivate entry) }.publish
          (.escrowRm instanceId entry.contractAddress))

omit [DecidableEq Address] in
theorem nextInstanceId_ok {r : Storage Address × Nat} (h : nextInstanceId s = .ok r) :
    r = ({ s with instanceCount := s.instanceCount + 1 }, s.instanceCount) := by
  simp only [nextInstanceId, bind_eq_ok, checkedUInt_eq_ok, pure_eq_ok] at h
  obtain ⟨_, ⟨-, rfl⟩, rfl⟩ := h
  rfl

theorem step_effect {i : Invocation Bytes32 Address contract} (h : step s i = .ok t) :
    Effect s i t := by
  obtain ⟨env, deployer, c⟩ := i
  cases c with
  | initialise admin =>
    simp only [step, initialise, bind_eq_ok, panicIf_eq_ok, pure_eq_ok] at h
    obtain ⟨_, hnew, _, -, rfl⟩ := h
    exact .initialise admin rfl (by simpa using hnew)
  | createEscrow caller wasmHash salt name =>
    simp only [step, createEscrow, bind_eq_ok, requireAuth_eq_ok, unwrap_eq_ok, pure_eq_ok] at h
    obtain ⟨_, ⟨_, ha, contractAddress, hdeploy, _, hnext, rfl⟩, rfl⟩ := h
    rw [nextInstanceId_ok hnext]
    exact .add contractAddress caller name _ (fun log => by simp [catalogued, added, hdeploy]) ha
      (.inl rfl)
  | registerEscrow admin contractAddress name =>
    simp only [step, registerEscrow, Storage.readAdmin, bind_eq_ok, unwrap_eq_ok,
      requireAuth_eq_ok, rejectIf_eq_ok, pure_eq_ok, not_not] at h
    obtain ⟨_, ⟨_, hadmin, _, rfl, _, ha, _, hnext, rfl⟩, rfl⟩ := h
    rw [nextInstanceId_ok hnext]
    exact .add contractAddress admin name _ (fun log => by simp [catalogued, added]) ha
      (.inr hadmin)
  | removeEscrow caller instanceId =>
    simp only [step, removeEscrow, Storage.readInstance, Storage.readAdmin, bind_eq_ok,
      requireAuth_eq_ok, okOr_eq_ok, unwrap_eq_ok, rejectIf_eq_ok, pure_eq_ok] at h
    obtain ⟨_, ha, entry, hentry, admin, hadmin, _, hcaller, rfl⟩ := h
    refine .remove caller admin instanceId entry rfl ha hentry hadmin ?_
    rwa [not_and_or, not_not, not_not] at hcaller

structure Keeps (s : Storage Address) (log : List (EscrowInstance Address)) : Prop where
  count : s.instanceCount = log.length
  entries : Catalogued s.instances log
  numbered : ∀ k (h : k < log.length), log[k].instanceId = k

theorem keeps_step {i : Invocation Bytes32 Address contract} (h : step s i = .ok t)
    (hs : Keeps s log) : Keeps t (catalogued log i) := by
  cases step_effect h with
  | initialise admin hcall =>
    rw [catalogued, hcall]
    exact ⟨rfl, catalogued_nil _, nofun⟩
  | add contractAddress creator name e hcatalogued =>
    rw [hcatalogued]
    refine ⟨?_, ?_, ?_⟩
    · simp [Storage.publish, hs.count]
    · simp only [Storage.publish, hs.count]
      exact hs.entries.push _
    · intro k hk
      by_cases hlast : k = log.length
      · rw [List.getElem_concat_length hlast hk, hlast]
      · have hlt : k < log.length := by
          rw [List.length_append, List.length_singleton] at hk
          omega
        rw [List.getElem_append_left hlt]
        exact hs.numbered k hlt
  | remove caller admin id entry hcall hauth hentry hadmin hcaller =>
    rw [catalogued, hcall]
    refine ⟨?_, hs.entries.modify hentry deactivate, ?_⟩
    · simp [Storage.publish, hs.count]
    · intro k hk
      rw [List.length_modify] at hk
      rw [List.getElem_modify]
      split
      · exact hs.numbered k hk
      · exact hs.numbered k hk

def catalogueOf (is : List (Invocation Bytes32 Address contract)) :
    List (EscrowInstance Address) :=
  (accepted step .fresh is).foldl catalogued []

theorem keeps_run (is : List (Invocation Bytes32 Address contract)) :
    Keeps (run step .fresh is) (catalogueOf is) := by
  have hfresh : Keeps (Storage.fresh : Storage Address) [] := ⟨rfl, catalogued_nil _, nofun⟩
  have hstep : ∀ (s : Storage Address) (i : Invocation Bytes32 Address contract) t log,
      step s i = .ok t → Keeps s log → Keeps t (catalogued log i) :=
    fun _ _ _ _ h hs => keeps_step h hs
  exact account_run hstep hfresh is

structure Shows (s : Storage Address) (log : List (EscrowInstance Address)) : Prop where
  count : s.instanceCount = log.length
  found : ∀ k (h : k < log.length), getEscrow s k = .ok log[k] ∧ log[k].instanceId = k
  all : listAllEscrows s = log
  offered : listEscrows s = log.filter (fun entry => entry.active)

omit [DecidableEq Address] in
theorem Keeps.found (h : Keeps s log) {k : Nat} (hk : k < log.length) :
    getEscrow s k = .ok log[k] := by
  rw [getEscrow, Storage.readInstance, okOr_eq_ok, h.entries k hk]
  exact List.getElem?_eq_getElem hk

omit [DecidableEq Address] in
theorem Keeps.shows (h : Keeps s log) : Shows s log where
  count := h.count
  found k hk := ⟨h.found hk, h.numbered k hk⟩
  all := by rw [listAllEscrows, h.count, listing_eq h.entries le_rfl, List.take_length,
    List.filter_true]
  offered := by rw [listEscrows, h.count, listing_eq h.entries le_rfl, List.take_length]

/-- A call that takes an escrow off the list was made by the escrow's creator or
by the administrator, and a call that puts one there by its creator, who is the
administrator unless it is a new one. -/
def Entitled (x : Storage Address × Invocation Bytes32 Address contract × Storage Address) : Prop :=
  (∀ id, getEscrow x.2.2 id ≠ getEscrow x.1 id →
    ∃ caller, x.2.1.env.auths caller = true ∧
      ((∃ entry, getEscrow x.1 id = .ok entry ∧ getEscrow x.2.2 id = .ok (deactivate entry) ∧
          (caller = entry.creator ∨ x.1.admin = some caller)) ∨
        ∃ entry, id = x.1.instanceCount ∧ getEscrow x.2.2 id = .ok entry ∧
          entry.active = true ∧ entry.creator = caller ∧
          (Creates caller x.2.1.call ∨ x.1.admin = some caller)))

theorem entitled_step {i : Invocation Bytes32 Address contract} (h : step s i = .ok t) :
    Entitled (s, i, t) := by
  intro id hne
  cases step_effect h with
  | initialise => exact absurd rfl hne
  | add contractAddress creator name e hcatalogued hauth hcreator =>
    by_cases hid : id = s.instanceCount
    · refine ⟨creator, hauth, .inr
        ⟨⟨s.instanceCount, contractAddress, creator, name, true, i.env.timestamp⟩, hid, ?_, rfl,
          rfl, hcreator⟩⟩
      rw [getEscrow, Storage.readInstance, okOr_eq_ok, hid]
      exact AList.lookup_insert _
    · refine absurd ?_ hne
      simp only [getEscrow, Storage.readInstance, Storage.publish]
      rw [AList.lookup_insert_ne hid]
  | remove caller admin instanceId entry hcall hauth hentry hadmin hcaller =>
    by_cases hid : id = instanceId
    · subst hid
      refine ⟨caller, hauth, .inl ⟨entry, ?_, ?_, ?_⟩⟩
      · rw [getEscrow, Storage.readInstance, okOr_eq_ok, hentry]
      · rw [getEscrow, Storage.readInstance, okOr_eq_ok]
        exact AList.lookup_insert _
      · refine hcaller.imp_right fun heq => ?_
        rw [heq, hadmin]
    · refine absurd ?_ hne
      simp only [getEscrow, Storage.readInstance, Storage.publish]
      rw [AList.lookup_insert_ne hid]

/-- After any calls on a factory from its deployment on, its lookups and its
listings show the escrows added since it was initialised, less those removed. -/
theorem shows_catalogue (is : List (Invocation Bytes32 Address contract)) :
    Shows (run step .fresh is) (catalogueOf is) ∧ (history step .fresh is).Forall Entitled := by
  refine ⟨(keeps_run is).shows, ?_⟩
  rw [List.forall_iff_forall_mem]
  intro x hx
  exact entitled_step (step_of_mem_history hx)

/-- Every entry is still there, as it was or taken off the list. -/
def Outlived (log log' : List (EscrowInstance Address)) : Prop :=
  ∀ (k : Nat) (entry : EscrowInstance Address), log[k]? = some entry →
    log'[k]? = some entry ∨ log'[k]? = some (deactivate entry)

omit [DecidableEq Address] in
theorem Outlived.trans {log log' log'' : List (EscrowInstance Address)} (h : Outlived log log')
    (h' : Outlived log' log'') : Outlived log log'' := by
  intro k entry hk
  obtain hsame | hoff := h k entry hk
  · exact h' k entry hsame
  · exact .inr ((h' k (deactivate entry) hoff).elim id id)

theorem outlived_step {i : Invocation Bytes32 Address contract} (h : step s i = .ok t)
    (hs : s.admin.isSome = true) (log : List (EscrowInstance Address)) :
    t.admin.isSome = true ∧ Outlived log (catalogued log i) := by
  cases step_effect h with
  | initialise admin hcall hnew => simp [hnew] at hs
  | add contractAddress creator name e hcatalogued =>
    refine ⟨hs, fun k entry hk => .inl ?_⟩
    rw [hcatalogued, List.getElem?_append_left (List.getElem?_eq_some_iff.mp hk).1, hk]
  | remove caller admin id entry hcall =>
    refine ⟨hs, fun k entry hk => ?_⟩
    rw [catalogued, hcall]
    by_cases hid : id = k
    · rw [hid, List.getElem?_modify_eq, hk]
      exact .inr rfl
    · rw [List.getElem?_modify_ne _ _ hid]
      exact .inl hk

theorem outlived_accepted {is : List (Invocation Bytes32 Address contract)}
    (hs : s.admin.isSome = true) (log : List (EscrowInstance Address)) :
    Outlived log ((accepted step s is).foldl catalogued log) := by
  induction is generalizing s log with
  | nil => exact fun k entry hk => .inl hk
  | cons i is ih =>
    cases hi : step s i with
    | error e =>
      rw [accepted_error hi]
      exact ih hs log
    | ok t =>
      obtain ⟨ht, hlater⟩ := outlived_step hi hs log
      rw [accepted_ok hi]
      exact hlater.trans (ih ht _)

/-- Once the factory is initialised, an escrow keeps its place and its data, and
one that was taken off the list is never offered again. -/
theorem removal_is_final {is : List (Invocation Bytes32 Address contract)}
    (hopen : (run step .fresh is).admin.isSome = true)
    (js : List (Invocation Bytes32 Address contract)) :
    Outlived (catalogueOf is) (catalogueOf (is ++ js)) ∧
      ∀ entry ∈ catalogueOf is, entry.active = false →
        getEscrow (run step .fresh (is ++ js)) entry.instanceId = .ok entry := by
  have hlasts : Outlived (catalogueOf is) (catalogueOf (is ++ js)) := by
    rw [catalogueOf, catalogueOf, accepted_append, List.foldl_append]
    exact outlived_accepted hopen _
  refine ⟨hlasts, fun entry hentry hoff => ?_⟩
  obtain ⟨k, hk, rfl⟩ := List.getElem_of_mem hentry
  have hsame : deactivate (catalogueOf is)[k] = (catalogueOf is)[k] := by
    rw [deactivate, ← hoff]
  have hthere := hlasts k _ (List.getElem?_eq_getElem hk)
  rw [hsame, or_self] at hthere
  obtain ⟨hlater, heq⟩ := List.getElem?_eq_some_iff.mp hthere
  rw [(keeps_run is).numbered k hk, (keeps_run (is ++ js)).found hlater, heq]

def sampleCalls : List (Invocation Nat Nat 0) :=
  [⟨Env.signed 0 1, fun salt _ => some (100 + salt), .initialise 1⟩,
    ⟨Env.signed 0 2, fun salt _ => some (100 + salt), .createEscrow 5 9 3 "shop"⟩,
    ⟨Env.signed 0 3, fun _ _ => none, .removeEscrow 5 0⟩]

theorem removal_is_final_sample :
    getEscrow (run step .fresh (sampleCalls ++
        [⟨Env.signed 0 4, fun _ _ => none, .registerEscrow 1 103 "again"⟩])) 0 =
      .ok ⟨0, 103, 5, "shop", false, 2⟩ := by
  have hopen : (run step .fresh sampleCalls).admin.isSome = true := by decide +kernel
  have hcatalogue : catalogueOf sampleCalls = [⟨0, 103, 5, "shop", false, 2⟩] := by decide +kernel
  exact (removal_is_final hopen _).2 ⟨0, 103, 5, "shop", false, 2⟩
    (hcatalogue ▸ List.mem_singleton_self _) rfl

end Suban.EscrowFactory

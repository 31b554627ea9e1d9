import Suban.Basis.Catalogues
import Suban.Basis.Runs
import Suban.Soroban.Host

namespace Suban.IdentityResolver

open Suban.Basis.Calls Suban.Basis.Tables Suban.Basis.Catalogues Suban.Basis.Runs
open Suban.Soroban.Host

structure Identity (Address : Type) where
  piAccount : String
  sorobanAddress : Address
  verified : Bool
  registeredAt : Nat
  metadata : String
  deriving DecidableEq

inductive IdentityError where
  | notAdmin
  | alreadyInitialized
  | identityNotFound
  | alreadyRegistered
  | notVerified
  deriving DecidableEq

inductive Event (Address : Type) where
  | registered (sorobanAddress : Address) (piAccount : String)

/-- The instance storage of the resolver. An identity is stored three times. -/
structure Storage (Address : Type) [DecidableEq Address] where
  admin : Option Address
  identityByPi : Table String (Identity Address)
  identityBySoroban : Table Address (Identity Address)
  allIdentities : Table Nat (Identity Address)
  identityCount : Nat
  events : List (Event Address)

variable {Address : Type} [DecidableEq Address] {contract : Address}

namespace Storage

def fresh : Storage Address where
  admin := none
  identityByPi := ∅
  identityBySoroban := ∅
  allIdentities := ∅
  identityCount := 0
  events := []

variable (s : Storage Address)

def publish (e : Event Address) : Storage Address := { s with events := s.events ++ [e] }

def readAdmin : Outcome IdentityError Address := unwrap s.admin

end Storage

section Calls

variable (env : Env Address contract) (s : Storage Address)

def initialise (admin : Address) : Outcome IdentityError (Storage Address) := do
  panicIf s.admin.isSome
  requireAuth env admin
  pure { s with admin := some admin, identityCount := 0 }

def registerIdentity (piAccount : String) (sorobanAddress : Address) (metadata : String) :
    Outcome IdentityError (Storage Address) := do
  let admin ← s.readAdmin
  requireAuth env admin
  rejectIf (s.identityByPi.lookup piAccount).isSome .alreadyRegistered
  rejectIf (s.identityBySoroban.lookup sorobanAddress).isSome .alreadyRegistered
  let identity : Identity Address := ⟨piAccount, sorobanAddress, true, env.timestamp, metadata⟩
  let count ← checkedUInt 32 (s.identityCount + 1)
  let s := { s with
    identityByPi := s.identityByPi.insert piAccount identity
    identityBySoroban := s.identityBySoroban.insert sorobanAddress identity
    allIdentities := s.allIdentities.insert s.identityCount identity
    identityCount := count }
  pure (s.publish (.registered identity.sorobanAddress identity.piAccount))

/-- The copy in the list of all identities is left as it is. -/
def verifyIdentity (piAccount : String) : Outcome IdentityError (Storage Address) := do
  let admin ← s.readAdmin
  requireAuth env admin
  let identity ← okOr (s.identityByPi.lookup piAccount) .identityNotFound
  let identity := { identity with verified := true }
  pure { s with
    identityByPi := s.identityByPi.insert identity.piAccount identity
    identityBySoroban := s.identityBySoroban.insert identity.sorobanAddress identity }

def resolveByPi (piAccount : String) : Outcome IdentityError (Identity Address) :=
  okOr (s.identityByPi.lookup piAccount) .identityNotFound

def resolveBySoroban (sorobanAddress : Address) : Outcome IdentityError (Identity Address) :=
  okOr (s.identityBySoroban.lookup sorobanAddress) .identityNotFound

def isVerified (piAccount : String) : Bool :=
  ((s.identityByPi.lookup piAccount).map (fun identity => identity.verified)).getD false

def listIdentities (limit : Nat) : List (Identity Address) :=
  listing s.allIdentities (fun _ => true) (min s.identityCount limit)

inductive Call (Address : Type) where
  | initialise (admin : Address)
  | registerIdentity (piAccount : String) (sorobanAddress : Address) (metadata : String)
  | verifyIdentity (piAccount : String)

def step : Env Address contract × Call Address → Outcome IdentityError (Storage Address)
  | (env, .initialise admin) => initialise env s admin
  | (env, .registerIdentity piAccount sorobanAddress metadata) =>
    registerIdentity env s piAccount sorobanAddress metadata
  | (env, .verifyIdentity piAccount) => verifyIdentity env s piAccount

end Calls

variable {env : Env Address contract} {s t : Storage Address} {known : List (Identity Address)}

abbrev Input (Address : Type) (contract : Address) := Env Address contract × Call Address

def registered (known : List (Identity Address)) :
    Input Address contract → List (Identity Address)
  | (env, .registerIdentity piAccount sorobanAddress metadata) =>
    known ++ [⟨piAccount, sorobanAddress, true, env.timestamp, metadata⟩]
  | _ => known

structure Knows (s : Storage Address) (known : List (Identity Address)) : Prop where
  unopened : s.admin = none → known = []
  count : s.identityCount = known.length
  all : Catalogued s.allIdentities known
  verified : ∀ identity ∈ known, identity.verified = true
  byPi : ∀ piAccount identity, s.identityByPi.lookup piAccount = some identity ↔
    identity ∈ known ∧ identity.piAccount = piAccount
  bySoroban : ∀ sorobanAddress identity, s.identityBySoroban.lookup sorobanAddress = some identity ↔
    identity ∈ known ∧ identity.sorobanAddress = sorobanAddress
  onePi : (known.map (fun identity => identity.piAccount)).Nodup
  oneSoroban : (known.map (fun identity => identity.sorobanAddress)).Nodup

section Index

variable {κ : Type} {key : Identity Address → κ} {identity : Identity Address} {j : κ}

omit [DecidableEq Address] in
theorem nodup_push (h : (known.map key).Nodup) (hnew : key identity ∉ known.map key) :
    ((known ++ [identity]).map key).Nodup := by
  rw [List.map_append, List.map_singleton, List.nodup_append]
  refine ⟨h, List.nodup_singleton _, ?_⟩
  rintro a ha b hb rfl
  exact hnew (List.mem_singleton.mp hb ▸ ha)

variable [DecidableEq κ] {index : Table κ (Identity Address)}

omit [DecidableEq Address] in
theorem key_not_mem (h : ∀ k i, index.lookup k = some i ↔ i ∈ known ∧ key i = k)
    (hnew : index.lookup j = none) : j ∉ known.map key := by
  intro hmem
  obtain ⟨i, hi, hkey⟩ := List.mem_map.mp hmem
  have hsome := (h j i).mpr ⟨hi, hkey⟩
  rw [hnew] at hsome
  cases hsome

omit [DecidableEq Address] in
theorem lookup_push (h : ∀ k i, index.lookup k = some i ↔ i ∈ known ∧ key i = k)
    (hnew : index.lookup j = none) (hkey : key identity = j) (k : κ) (i : Identity Address) :
    (index.insert j identity).lookup k = some i ↔ i ∈ known ++ [identity] ∧ key i = k := by
  rw [lookup_insert_eq_some, h, List.mem_append, List.mem_singleton]
  constructor
  · rintro (⟨rfl, rfl⟩ | ⟨hne, hi, rfl⟩)
    · exact ⟨.inr rfl, hkey⟩
    · exact ⟨.inl hi, rfl⟩
  · rintro ⟨hi | rfl, rfl⟩
    · refine .inr ⟨fun heq => ?_, hi, rfl⟩
      exact key_not_mem h hnew (heq ▸ List.mem_map_of_mem hi)
    · exact .inl ⟨hkey, rfl⟩

omit [DecidableEq Address] in
theorem lookup_restore (h : index.lookup j = some identity) (k : κ) :
    (index.insert j identity).lookup k = index.lookup k := by
  by_cases hk : k = j
  · rw [hk, AList.lookup_insert, h]
  · rw [AList.lookup_insert_ne hk]

end Index

theorem knows_step {i : Input Address contract} (h : step s i = .ok t) (hs : Knows s known) :
    Knows t (registered known i) := by
  obtain ⟨env, c⟩ := i
  cases c with
  | initialise admin =>
    simp only [step, initialise, bind_eq_ok, panicIf_eq_ok, pure_eq_ok] at h
    obtain ⟨_, hnew, _, -, rfl⟩ := h
    have hnone : known = [] := hs.unopened (by simpa using hnew)
    have hzero : (0 : Nat) = known.length := by rw [hnone, List.length_nil]
    have hopen : some admin ≠ (none : Option Address) := Option.some_ne_none admin
    exact ⟨fun h => absurd h hopen, hzero, hs.all, hs.verified, hs.byPi, hs.bySoroban, hs.onePi,
      hs.oneSoroban⟩
  | registerIdentity piAccount sorobanAddress metadata =>
    simp only [step, registerIdentity, Storage.readAdmin, bind_eq_ok, unwrap_eq_ok,
      requireAuth_eq_ok, rejectIf_eq_ok, checkedUInt_eq_ok, pure_eq_ok, Bool.not_eq_true,
      Option.isSome_eq_false_iff, Option.isNone_iff_eq_none] at h
    obtain ⟨admin, hadmin, _, -, _, hpi, _, hsoroban, _, ⟨-, rfl⟩, rfl⟩ := h
    refine ⟨fun hnone => ?_, ?_, ?_, ?_, ?_, ?_, ?_, ?_⟩
    · exact absurd (hadmin.symm.trans hnone) (by simp)
    · simp [registered, Storage.publish, hs.count]
    · simp only [Storage.publish, registered, hs.count]
      exact hs.all.push _
    · rw [registered, List.forall_mem_append]
      exact ⟨hs.verified, List.forall_mem_singleton.mpr rfl⟩
    · exact lookup_push hs.byPi hpi rfl
    · exact lookup_push hs.bySoroban hsoroban rfl
    · exact nodup_push hs.onePi (key_not_mem hs.byPi hpi)
    · exact nodup_push hs.oneSoroban (key_not_mem hs.bySoroban hsoroban)
  | verifyIdentity piAccount =>
    simp only [step, verifyIdentity, Storage.readAdmin, bind_eq_ok, unwrap_eq_ok, okOr_eq_ok,
      requireAuth_eq_ok, pure_eq_ok] at h
    obtain ⟨admin, hadmin, _, -, identity, hfound, rfl⟩ := h
    -- everybody in the list is verified already, so the same identity is stored again
    obtain ⟨hmem, rfl⟩ := (hs.byPi piAccount identity).mp hfound
    have hsame : { identity with verified := true } = identity := by
      rw [← hs.verified identity hmem]
    have hback := (hs.bySoroban identity.sorobanAddress identity).mpr ⟨hmem, rfl⟩
    refine ⟨hs.unopened, hs.count, hs.all, hs.verified, fun p i => ?_, fun a i => ?_, hs.onePi,
      hs.oneSoroban⟩
    · simp only [hsame]
      rw [lookup_restore hfound]
      exact hs.byPi p i
    · simp only [hsame]
      rw [lookup_restore hback]
      exact hs.bySoroban a i

def knownOf (is : List (Input Address contract)) : List (Identity Address) :=
  (accepted step .fresh is).foldl registered []

theorem knows_run (is : List (Input Address contract)) :
    Knows (run step .fresh is) (knownOf is) := by
  have hfresh : Knows (Storage.fresh : Storage Address) [] :=
    ⟨fun _ => rfl, rfl, catalogued_nil _, nofun, by simp [Storage.fresh], by simp [Storage.fresh],
      List.nodup_nil, List.nodup_nil⟩
  have hstep : ∀ (s : Storage Address) (i : Input Address contract) t known, step s i = .ok t →
      Knows s known → Knows t (registered known i) := fun _ _ _ _ h hs => knows_step h hs
  exact account_run hstep hfresh is

/-- What a reader of the resolver finds are the identities that it knows. The
two resolutions are inverse to each other. -/
structure Resolves (s : Storage Address) (known : List (Identity Address)) : Prop where
  count : s.identityCount = known.length
  byPi : ∀ piAccount identity, resolveByPi s piAccount = .ok identity ↔
    identity ∈ known ∧ identity.piAccount = piAccount
  bySoroban : ∀ sorobanAddress identity, resolveBySoroban s sorobanAddress = .ok identity ↔
    identity ∈ known ∧ identity.sorobanAddress = sorobanAddress
  inverse : ∀ identity, resolveByPi s identity.piAccount = .ok identity ↔
    resolveBySoroban s identity.sorobanAddress = .ok identity
  onePi : (known.map (fun identity => identity.piAccount)).Nodup
  oneSoroban : (known.map (fun identity => identity.sorobanAddress)).Nodup
  verified : ∀ piAccount, isVerified s piAccount = true ↔
    piAccount ∈ known.map (fun identity => identity.piAccount)
  listed : ∀ limit, listIdentities s limit = known.take limit

theorem Knows.isVerified_iff (h : Knows s known) (piAccount : String) :
    isVerified s piAccount = true ↔ piAccount ∈ known.map (fun identity => identity.piAccount) := by
  cases hfound : s.identityByPi.lookup piAccount with
  | none =>
    have hnot := key_not_mem h.byPi hfound
    simp only [isVerified, hfound, Option.map_none, Option.getD_none, Bool.false_eq_true, hnot]
  | some identity =>
    obtain ⟨hmem, hkey⟩ := (h.byPi piAccount identity).mp hfound
    rw [isVerified, hfound, Option.map_some, Option.getD_some, h.verified identity hmem]
    exact iff_of_true rfl (hkey ▸ List.mem_map_of_mem hmem)

theorem Knows.listIdentities_eq (h : Knows s known) (limit : Nat) :
    listIdentities s limit = known.take limit := by
  rw [listIdentities, h.count, listing_eq h.all (min_le_left _ _), List.filter_true, min_comm,
    ← List.take_eq_take_min]

theorem Knows.resolves (h : Knows s known) : Resolves s known where
  count := h.count
  byPi piAccount identity := by rw [resolveByPi, okOr_eq_ok, h.byPi]
  bySoroban sorobanAddress identity := by rw [resolveBySoroban, okOr_eq_ok, h.bySoroban]
  inverse identity := by
    rw [resolveByPi, resolveBySoroban, okOr_eq_ok, okOr_eq_ok, h.byPi, h.bySoroban]
    simp only [and_true]
  onePi := h.onePi
  oneSoroban := h.oneSoroban
  verified := h.isVerified_iff
  listed := h.listIdentities_eq

omit [DecidableEq Address] in
theorem prefix_registered (is : List (Input Address contract)) (known : List (Identity Address)) :
    known <+: is.foldl registered known := by
  induction is generalizing known with
  | nil => exact List.prefix_refl known
  | cons i is ih =>
    refine List.IsPrefix.trans ?_ (ih (registered known i))
    obtain ⟨env, c⟩ := i
    cases c with
    | registerIdentity => exact List.prefix_append _ _
    | initialise | verifyIdentity => exact List.prefix_refl known

def Obeyed (s : Storage Address)
    (past : List (Storage Address × Input Address contract × Storage Address)) : Prop :=
  past.Forall fun x => ∃ a, s.admin = some a ∧ x.2.1.1.auths a = true

/-- An administrator stays and has to authorise every call. The first call names
one. -/
theorem admin_step {i : Input Address contract} (h : step s i = .ok t) :
    (∃ a, t.admin = some a ∧ i.1.auths a = true) ∧ (s.admin = none ∨ t.admin = s.admin) := by
  obtain ⟨env, c⟩ := i
  cases c with
  | initialise admin =>
    simp only [step, initialise, bind_eq_ok, panicIf_eq_ok, requireAuth_eq_ok, pure_eq_ok] at h
    obtain ⟨_, hnew, _, ha, rfl⟩ := h
    exact ⟨⟨admin, rfl, ha⟩, .inl (by simpa using hnew)⟩
  | registerIdentity piAccount sorobanAddress metadata =>
    simp only [step, registerIdentity, Storage.readAdmin, bind_eq_ok, unwrap_eq_ok,
      requireAuth_eq_ok, pure_eq_ok] at h
    obtain ⟨admin, hadmin, _, ha, _, -, _, -, _, -, rfl⟩ := h
    exact ⟨⟨admin, hadmin, ha⟩, .inr rfl⟩
  | verifyIdentity piAccount =>
    simp only [step, verifyIdentity, Storage.readAdmin, bind_eq_ok, unwrap_eq_ok,
      requireAuth_eq_ok, pure_eq_ok] at h
    obtain ⟨admin, hadmin, _, ha, _, -, rfl⟩ := h
    exact ⟨⟨admin, hadmin, ha⟩, .inr rfl⟩

theorem obeyed_step {i : Input Address contract}
    {past : List (Storage Address × Input Address contract × Storage Address)}
    (hs : Obeyed s past) (h : step s i = .ok t) : Obeyed t (past ++ [(s, i, t)]) := by
  obtain ⟨hsigned, hadmin⟩ := admin_step h
  rw [Obeyed, List.forall_iff_forall_mem] at hs ⊢
  rw [List.forall_mem_append]
  refine ⟨fun x hx => ?_, List.forall_mem_singleton.mpr hsigned⟩
  obtain ⟨a, hstored, ha⟩ := hs x hx
  obtain hnone | hsame := hadmin
  · exact absurd (hstored.symm.trans hnone) (by simp)
  · exact ⟨a, hsame.trans hstored, ha⟩

/-- After any calls on a resolver from its deployment on, it resolves exactly the
identities registered, one for each account and for each address, both ways
alike. It keeps them from then on, and its administrator has authorised all. -/
theorem resolves_registered (is : List (Input Address contract)) :
    Resolves (run step .fresh is) (knownOf is) ∧ (∀ js, knownOf is <+: knownOf (is ++ js)) ∧
      Obeyed (run step .fresh is) (history step .fresh is) := by
  refine ⟨(knows_run is).resolves, fun js => ?_, ?_⟩
  · rw [knownOf, knownOf, accepted_append, List.foldl_append]
    exact prefix_registered _ _
  · have hfresh : Obeyed (Storage.fresh : Storage Address)
        ([] : List (Storage Address × Input Address contract × Storage Address)) := trivial
    have hstep : ∀ (s : Storage Address) (i : Input Address contract) t past, Obeyed s past →
        True → step s i = .ok t → Obeyed t (past ++ [(s, i, t)]) :=
      fun _ _ _ _ hs _ h => obeyed_step hs h
    exact history_of_along hstep hfresh (along_true _ is)

end Suban.IdentityResolver

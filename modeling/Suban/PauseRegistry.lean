import Suban.Basis.Runs
import Suban.Basis.Tables
import Suban.Soroban.Host

namespace Suban.PauseRegistry

open Suban.Basis.Calls Suban.Basis.Tables Suban.Basis.Runs Suban.Soroban.Host

inductive Primitive where
  | amm
  | lending
  | escrow
  | bridge
  | all
  deriving DecidableEq

inductive PauseError where
  | notAdmin
  | alreadyPaused
  | notPaused
  | cannotPauseAll
  deriving DecidableEq

def primitiveTopic : Primitive → String
  | .amm => "amm"
  | .lending => "lend"
  | .escrow => "escrow"
  | .bridge => "bridge"
  | .all => "all"

inductive Event (Address : Type) where
  | pause (topic : String) (admin : Address)
  | unpause (topic : String) (admin : Address)

structure Storage (Address : Type) where
  admin : Option Address
  paused : Table Primitive Bool
  events : List (Event Address)

variable {Address : Type} [DecidableEq Address] {contract : Address}

namespace Storage

def fresh : Storage Address where
  admin := none
  paused := ∅
  events := []

variable (s : Storage Address)

def publish (e : Event Address) : Storage Address := { s with events := s.events ++ [e] }

def readAdmin : Outcome PauseError Address := unwrap s.admin

end Storage

section Calls

variable (env : Env Address contract) (s : Storage Address)

def initialise (admin : Address) : Outcome PauseError (Storage Address) := do
  panicIf s.admin.isSome
  requireAuth env admin
  pure { s with admin := some admin }

def requireAdmin (admin : Address) : Outcome PauseError Unit := do
  let currentAdmin ← s.readAdmin
  rejectIf (admin ≠ currentAdmin) .notAdmin
  requireAuth env admin

/-- The flag of the primitive itself. A pause of all primitives is a flag of its
own beside the others. -/
def isPaused (primitive : Primitive) : Bool := readOr s.paused primitive false

def pause (admin : Address) (primitive : Primitive) : Outcome PauseError (Storage Address) := do
  requireAdmin env s admin
  rejectIf (isPaused s primitive) .alreadyPaused
  let s := { s with paused := s.paused.insert primitive true }
  pure (s.publish (.pause (primitiveTopic primitive) admin))

def unpause (admin : Address) (primitive : Primitive) : Outcome PauseError (Storage Address) := do
  requireAdmin env s admin
  rejectIf (¬ isPaused s primitive) .notPaused
  let s := { s with paused := s.paused.insert primitive false }
  pure (s.publish (.unpause (primitiveTopic primitive) admin))

def setAdmin (admin newAdmin : Address) : Outcome PauseError (Storage Address) := do
  requireAdmin env s admin
  pure { s with admin := some newAdmin }

inductive Call (Address : Type) where
  | initialise (admin : Address)
  | pause (admin : Address) (primitive : Primitive)
  | unpause (admin : Address) (primitive : Primitive)
  | setAdmin (admin newAdmin : Address)

def step : Env Address contract × Call Address → Outcome PauseError (Storage Address)
  | (env, .initialise admin) => initialise env s admin
  | (env, .pause admin primitive) => pause env s admin primitive
  | (env, .unpause admin primitive) => unpause env s admin primitive
  | (env, .setAdmin admin newAdmin) => setAdmin env s admin newAdmin

end Calls

variable {env : Env Address contract} {s t : Storage Address} {p : Primitive}

abbrev Input (Address : Type) (contract : Address) := Env Address contract × Call Address

/-- What a call says about the primitive: that it is paused, or that it is not. -/
def tells (p : Primitive) : Input Address contract → Option Bool
  | (_, .pause _ primitive) => if primitive = p then some true else none
  | (_, .unpause _ primitive) => if primitive = p then some false else none
  | _ => none

def announced : Input Address contract → Option (Event Address)
  | (_, .pause admin primitive) => some (.pause (primitiveTopic primitive) admin)
  | (_, .unpause admin primitive) => some (.unpause (primitiveTopic primitive) admin)
  | _ => none

/-- As many turns as the number tells, the first of them a pause. -/
def turns (n : Nat) : List Bool := (List.range n).map (fun k => k % 2 = 0)

theorem turns_succ (n : Nat) : turns (n + 1) = turns n ++ [decide (n % 2 = 0)] := by
  rw [turns, List.range_succ, List.map_append, List.map_singleton, turns]

theorem requireAdmin_eq_ok {admin : Address} {u : Unit} :
    requireAdmin env s admin = .ok u ↔ s.admin = some admin ∧ env.auths admin = true := by
  simp only [requireAdmin, Storage.readAdmin, bind_eq_ok, unwrap_eq_ok, rejectIf_eq_ok,
    requireAuth_eq_ok, not_not]
  constructor
  · rintro ⟨_, hs, _, rfl, ha⟩
    exact ⟨hs, ha⟩
  · rintro ⟨hs, ha⟩
    exact ⟨admin, hs, (), rfl, ha⟩

omit [DecidableEq Address] in
theorem isPaused_insert (primitive : Primitive) (flag : Bool) :
    readOr (s.paused.insert primitive flag) p false =
      (if primitive = p then some flag else none).getD (isPaused s p) := by
  rw [readOr_insert]
  by_cases h : p = primitive
  · simp [h]
  · simp [h, Ne.symm h, isPaused]

/-- What an accepted call says about a primitive is news, and what it does not
speak of it leaves. -/
theorem isPaused_step {i : Input Address contract} (h : step s i = .ok t) (p : Primitive) :
    isPaused t p = (tells p i).getD (isPaused s p) ∧ tells p i ≠ some (isPaused s p) := by
  obtain ⟨env, c⟩ := i
  cases c with
  | initialise admin =>
    simp only [step, initialise, bind_eq_ok, pure_eq_ok] at h
    obtain ⟨_, -, _, -, rfl⟩ := h
    exact ⟨rfl, (Option.some_ne_none _).symm⟩
  | pause admin primitive =>
    simp only [step, pause, bind_eq_ok, rejectIf_eq_ok, pure_eq_ok, Bool.not_eq_true] at h
    obtain ⟨_, -, _, hopen, rfl⟩ := h
    refine ⟨isPaused_insert primitive true, ?_⟩
    simp only [tells]
    split
    next heq => simp [← heq, hopen]
    next => exact (Option.some_ne_none _).symm
  | unpause admin primitive =>
    simp only [step, unpause, bind_eq_ok, rejectIf_eq_ok, pure_eq_ok, not_not] at h
    obtain ⟨_, -, _, hpaused, rfl⟩ := h
    refine ⟨isPaused_insert primitive false, ?_⟩
    simp only [tells]
    split
    next heq => simp [← heq, hpaused]
    next => exact (Option.some_ne_none _).symm
  | setAdmin admin newAdmin =>
    simp only [step, setAdmin, bind_eq_ok, pure_eq_ok] at h
    obtain ⟨_, -, rfl⟩ := h
    exact ⟨rfl, (Option.some_ne_none _).symm⟩

/-- The calls on a primitive so far took turns, and the last of them is what it
is now. -/
def TookTurns (p : Primitive) (s : Storage Address) (said : List Bool) : Prop :=
  said = turns said.length ∧ isPaused s p = decide (said.length % 2 = 1)

theorem tookTurns_step {i : Input Address contract} {said : List Bool} (h : step s i = .ok t)
    (hs : TookTurns p s said) : TookTurns p t (said ++ (tells p i).toList) := by
  obtain ⟨hflag, hnews⟩ := isPaused_step h p
  cases htells : tells p i with
  | none =>
    rw [htells, Option.getD_none] at hflag
    rw [Option.toList_none, List.append_nil]
    exact ⟨hs.1, hflag.trans hs.2⟩
  | some flag =>
    rw [htells, Option.getD_some] at hflag
    rw [htells] at hnews
    have hflip : flag = !isPaused s p := by
      cases flag <;> cases hp : isPaused s p <;> simp_all
    have hparity : flag = decide (said.length % 2 = 0) := by
      rw [hflip, hs.2]
      obtain h0 | h1 := Nat.mod_two_eq_zero_or_one said.length
      · simp [h0]
      · simp [h1]
    refine ⟨?_, ?_⟩
    · rw [Option.toList_some, List.length_append, List.length_singleton, turns_succ, ← hs.1,
        hparity]
    · rw [hflag, Option.toList_some, List.length_append, List.length_singleton, hparity]
      obtain h0 | h1 := Nat.mod_two_eq_zero_or_one said.length
      · simp [h0, Nat.add_mod]
      · simp [h1, Nat.add_mod]

theorem events_step {i : Input Address contract} (h : step s i = .ok t) :
    t.events = s.events ++ (announced i).toList := by
  obtain ⟨env, c⟩ := i
  cases c with
  | initialise admin =>
    simp only [step, initialise, bind_eq_ok, pure_eq_ok] at h
    obtain ⟨_, -, _, -, rfl⟩ := h
    exact (List.append_nil _).symm
  | pause admin primitive =>
    simp only [step, pause, bind_eq_ok, pure_eq_ok] at h
    obtain ⟨_, -, _, -, rfl⟩ := h
    rfl
  | unpause admin primitive =>
    simp only [step, unpause, bind_eq_ok, pure_eq_ok] at h
    obtain ⟨_, -, _, -, rfl⟩ := h
    rfl
  | setAdmin admin newAdmin =>
    simp only [step, setAdmin, bind_eq_ok, pure_eq_ok] at h
    obtain ⟨_, -, rfl⟩ := h
    exact (List.append_nil _).symm

theorem foldl_toList {α β : Type} (f : α → Option β) (l : List α) (said : List β) :
    l.foldl (fun said a => said ++ (f a).toList) said = said ++ l.filterMap f := by
  induction l generalizing said with
  | nil => exact (List.append_nil _).symm
  | cons a l ih =>
    rw [List.foldl_cons, ih, List.filterMap_cons, List.append_assoc]
    cases f a <;> rfl

/-- A flag that an accepted call has changed was changed by the administrator
of the moment. -/
def Ruled (x : Storage Address × Input Address contract × Storage Address) : Prop :=
  ∀ p, isPaused x.2.2 p ≠ isPaused x.1 p → ∃ a, x.1.admin = some a ∧ x.2.1.1.auths a = true

theorem ruled_step {i : Input Address contract} (h : step s i = .ok t) : Ruled (s, i, t) := by
  intro p hne
  obtain ⟨hflag, -⟩ := isPaused_step h p
  obtain ⟨env, c⟩ := i
  cases c with
  | initialise | setAdmin => exact absurd hflag hne
  | pause admin primitive =>
    simp only [step, pause, bind_eq_ok, requireAdmin_eq_ok] at h
    obtain ⟨_, hadmin, -⟩ := h
    exact ⟨admin, hadmin⟩
  | unpause admin primitive =>
    simp only [step, unpause, bind_eq_ok, requireAdmin_eq_ok] at h
    obtain ⟨_, hadmin, -⟩ := h
    exact ⟨admin, hadmin⟩

/-- In any run of a registry from its deployment on, the pauses and the unpauses
of each primitive take turns, the first a pause, and the primitive is paused
exactly after an odd number of them, whatever is called on the others. These
calls are what is published. -/
theorem pauses_alternate (is : List (Input Address contract)) :
    (∀ p, TookTurns p (run step .fresh is) ((accepted step .fresh is).filterMap (tells p))) ∧
      (run step .fresh is).events = (accepted step .fresh is).filterMap announced ∧
      (history step .fresh is).Forall Ruled := by
  refine ⟨fun p => ?_, ?_, ?_⟩
  · have hfresh : TookTurns p (Storage.fresh : Storage Address) [] := ⟨rfl, rfl⟩
    have hstep : ∀ (s : Storage Address) (i : Input Address contract) t said, step s i = .ok t →
        TookTurns p s said → TookTurns p t (said ++ (tells p i).toList) :=
      fun _ _ _ _ h hs => tookTurns_step h hs
    have hrun := account_run hstep hfresh is
    rwa [foldl_toList, List.nil_append] at hrun
  · have hstep : ∀ (s : Storage Address) (i : Input Address contract) t events,
        step s i = .ok t → s.events = events → t.events = events ++ (announced i).toList :=
      fun _ _ _ _ h hs => hs ▸ events_step h
    have hrun := account_run hstep (rfl : (Storage.fresh : Storage Address).events = []) is
    rw [foldl_toList] at hrun
    exact hrun
  · rw [List.forall_iff_forall_mem]
    intro x hx
    exact ruled_step (step_of_mem_history hx)

end Suban.PauseRegistry

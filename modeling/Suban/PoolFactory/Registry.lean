import Mathlib.Data.Sym.Sym2
import Suban.Basis.Runs
import Suban.PoolFactory.Contract

namespace Suban.PoolFactory.Registry

open Suban.Basis.Calls Suban.Basis.Tables Suban.Basis.Runs Suban.Soroban.Host
open Suban.PoolFactory.Contract

variable {Address Bytes32 : Type} [LinearOrder Address] {contract : Address}
variable {s t : Storage Address}

def pairOf (info : PoolInfo Address) : Sym2 Address := s(info.tokenA, info.tokenB)

theorem pairKey_comm (a b : Address) : pairKey a b = pairKey b a := by
  unfold pairKey
  obtain h | rfl | h := lt_trichotomy a b
  · rw [if_pos h, if_neg h.asymm]
  · rfl
  · rw [if_neg h.asymm, if_pos h]

theorem mk_pairKey (a b : Address) : s((pairKey a b).1, (pairKey a b).2) = s(a, b) := by
  unfold pairKey
  split
  · rfl
  · exact Sym2.eq_swap

theorem pairKey_eq_iff {a b c d : Address} : pairKey a b = pairKey c d ↔ s(a, b) = s(c, d) := by
  refine ⟨fun h => ?_, fun h => ?_⟩
  · rw [← mk_pairKey a b, h, mk_pairKey]
  · obtain ⟨rfl, rfl⟩ | ⟨rfl, rfl⟩ := Sym2.eq_iff.mp h
    · rfl
    · exact pairKey_comm _ _

def createdPair : Call Bytes32 Address → Option (Sym2 Address)
  | .createPool _ _ _ tokenA tokenB _ _ _ => some s(tokenA, tokenB)
  | .registerPool _ _ tokenA tokenB _ _ => some s(tokenA, tokenB)
  | .removePool _ _ => none
  | .reactivatePool _ _ => none

def created (s : Storage Address) (calls : List (Invocation Bytes32 Address contract)) :
    List (Sym2 Address) :=
  (accepted step s calls).filterMap (fun i => createdPair i.call)

/-- An accepted call adds a pool under the next id, for a pair that had none,
or switches one that is there on or off. -/
inductive Effect (s : Storage Address) : Option (Sym2 Address) → Storage Address → Prop where
  | add {t : Storage Address} (info : PoolInfo Address) (hid : info.poolId = s.poolCount)
      (hnew : s.pairIndex.lookup (pairKey info.tokenA info.tokenB) = none)
      (hpool : t.pool = s.pool.insert s.poolCount info)
      (hpair : t.pairIndex = s.pairIndex.insert (pairKey info.tokenA info.tokenB) s.poolCount)
      (hcount : t.poolCount = s.poolCount + 1) : Effect s (some (pairOf info)) t
  | mark {t : Storage Address} (id : Nat) (info : PoolInfo Address) (active : Bool)
      (hold : s.pool.lookup id = some info)
      (hpool : t.pool = s.pool.insert id { info with active := active })
      (hpair : t.pairIndex = s.pairIndex) (hcount : t.poolCount = s.poolCount) : Effect s none t

omit [LinearOrder Address] in
theorem nextPoolId_ok {r : Storage Address × Nat} (h : nextPoolId s = .ok r) :
    r = ({ s with poolCount := s.poolCount + 1 }, s.poolCount) := by
  simp only [nextPoolId, bind_eq_ok, checkedUInt_eq_ok, pure_eq_ok] at h
  obtain ⟨_, ⟨-, rfl⟩, rfl⟩ := h
  rfl

theorem step_effect {i : Invocation Bytes32 Address contract} (h : step s i = .ok t) :
    Effect s (createdPair i.call) t := by
  obtain ⟨env, deployer, c⟩ := i
  cases c with
  | createPool caller wasmHash salt tokenA tokenB poolType feeBps name =>
    simp only [step, createPool, bind_eq_ok, rejectIf_eq_ok, pure_eq_ok] at h
    obtain ⟨_, ⟨_, -, _, -, ptype, -, _, hnew, address, -, _, hnext, rfl⟩, rfl⟩ := h
    cases nextPoolId_ok hnext
    exact .add ⟨s.poolCount, address, tokenA, tokenB, ptype, feeBps, caller, name, true⟩ rfl
      (Option.not_isSome_iff_eq_none.mp hnew) rfl rfl rfl
  | registerPool admin poolAddress tokenA tokenB poolType feeBps =>
    simp only [step, registerPool, bind_eq_ok, rejectIf_eq_ok, pure_eq_ok] at h
    obtain ⟨_, ⟨_, -, _, -, _, -, _, -, ptype, -, _, hnew, _, hnext, rfl⟩, rfl⟩ := h
    cases nextPoolId_ok hnext
    exact .add ⟨s.poolCount, poolAddress, tokenA, tokenB, ptype, feeBps, admin, "legacy", true⟩ rfl
      (Option.not_isSome_iff_eq_none.mp hnew) rfl rfl rfl
  | removePool caller poolId =>
    simp only [step, removePool, Storage.readPool, bind_eq_ok, okOr_eq_ok, pure_eq_ok] at h
    obtain ⟨_, -, info, hold, _, -, _, -, rfl⟩ := h
    exact .mark poolId info false hold rfl rfl rfl
  | reactivatePool admin poolId =>
    simp only [step, reactivatePool, Storage.readPool, bind_eq_ok, okOr_eq_ok, pure_eq_ok] at h
    obtain ⟨_, -, _, -, _, -, info, hold, rfl⟩ := h
    exact .mark poolId info true hold rfl rfl rfl

/-- The pools fill the ids below the counter, and the index leads from the key
of a pair to the one pool of that pair. -/
structure Registered (s : Storage Address) : Prop where
  dense : ∀ id, (s.pool.lookup id).isSome ↔ id < s.poolCount
  keyed : ∀ id info, s.pool.lookup id = some info → info.poolId = id
  indexed : ∀ a b id, s.pairIndex.lookup (pairKey a b) = some id ↔
    ∃ info, s.pool.lookup id = some info ∧ pairOf info = s(a, b)

theorem Registered.lookup_count (hs : Registered s) : s.pool.lookup s.poolCount = none :=
  Option.not_isSome_iff_eq_none.mp fun h => lt_irrefl _ ((hs.dense _).mp h)

theorem registered_add {info : PoolInfo Address} (hs : Registered s)
    (hid : info.poolId = s.poolCount)
    (hnew : s.pairIndex.lookup (pairKey info.tokenA info.tokenB) = none)
    (hpool : t.pool = s.pool.insert s.poolCount info)
    (hpair : t.pairIndex = s.pairIndex.insert (pairKey info.tokenA info.tokenB) s.poolCount)
    (hcount : t.poolCount = s.poolCount + 1) : Registered t where
  dense id := by
    rw [hpool, hcount, isSome_lookup_insert, hs.dense]
    omega
  keyed id x hx := by
    rw [hpool] at hx
    exact forall_insert (Q := fun id x => x.poolId = id) hid hs.keyed id x hx
  indexed a b id := by
    rw [hpool, hpair, lookup_insert_eq_some, hs.indexed, pairKey_eq_iff]
    constructor
    · rintro (⟨hab, rfl⟩ | ⟨-, x, hx, hxab⟩)
      · exact ⟨info, AList.lookup_insert _, hab.symm⟩
      · refine ⟨x, ?_, hxab⟩
        refine lookup_insert_eq_some.mpr (.inr ⟨?_, hx⟩)
        rintro rfl
        exact absurd hx (by rw [hs.lookup_count]; exact nofun)
    · rintro ⟨x, hx, hxab⟩
      obtain ⟨rfl, rfl⟩ | ⟨-, hx⟩ := lookup_insert_eq_some.mp hx
      · exact .inl ⟨hxab.symm, rfl⟩
      · refine .inr ⟨fun hab => ?_, x, hx, hxab⟩
        -- an older pool of the new pair would be in the index
        have hold := (hs.indexed info.tokenA info.tokenB id).mpr
          ⟨x, hx, hxab.trans (pairKey_eq_iff.mp hab)⟩
        exact absurd hold (by rw [hnew]; exact nofun)

theorem registered_mark {id : Nat} {info : PoolInfo Address} {active : Bool} (hs : Registered s)
    (hold : s.pool.lookup id = some info)
    (hpool : t.pool = s.pool.insert id { info with active := active })
    (hpair : t.pairIndex = s.pairIndex) (hcount : t.poolCount = s.poolCount) : Registered t where
  dense j := by
    rw [hpool, hcount, isSome_lookup_insert, ← hs.dense]
    refine ⟨?_, .inr⟩
    rintro (rfl | h)
    · rw [hold]; rfl
    · exact h
  keyed j x hx := by
    rw [hpool] at hx
    exact forall_insert (Q := fun j x => x.poolId = j) (hs.keyed id info hold) hs.keyed j x hx
  indexed a b j := by
    rw [hpool, hpair, hs.indexed]
    constructor
    · rintro ⟨x, hx, hxab⟩
      by_cases hj : j = id
      · subst hj
        cases hold.symm.trans hx
        exact ⟨_, AList.lookup_insert _, hxab⟩
      · exact ⟨x, lookup_insert_eq_some.mpr (.inr ⟨hj, hx⟩), hxab⟩
    · rintro ⟨x, hx, hxab⟩
      obtain ⟨rfl, rfl⟩ | ⟨-, hx⟩ := lookup_insert_eq_some.mp hx
      · exact ⟨info, hold, hxab⟩
      · exact ⟨x, hx, hxab⟩

theorem registered_effect {p : Option (Sym2 Address)} (h : Effect s p t) (hs : Registered s) :
    Registered t := by
  cases h with
  | add info hid hnew hpool hpair hcount => exact registered_add hs hid hnew hpool hpair hcount
  | mark id info active hold hpool hpair hcount => exact registered_mark hs hold hpool hpair hcount

def Listed (s : Storage Address) (p : Sym2 Address) : Prop :=
  ∃ a b, p = s(a, b) ∧ (s.pairIndex.lookup (pairKey a b)).isSome

theorem listed_mk {a b : Address} :
    Listed s s(a, b) ↔ (s.pairIndex.lookup (pairKey a b)).isSome := by
  refine ⟨?_, fun h => ⟨a, b, rfl, h⟩⟩
  rintro ⟨c, d, heq, h⟩
  rwa [pairKey_eq_iff.mpr heq]

theorem listed_effect {o : Option (Sym2 Address)} (h : Effect s o t) (p : Sym2 Address) :
    Listed t p ↔ Listed s p ∨ o = some p := by
  induction p with
  | h a b =>
  rw [listed_mk, listed_mk]
  cases h with
  | add info hid hnew hpool hpair hcount =>
    rw [hpair, isSome_lookup_insert, pairKey_eq_iff, Option.some_inj, pairOf, or_comm,
      eq_comm (a := s(a, b))]
  | mark id info active hold hpool hpair hcount =>
    rw [hpair]
    simp

omit [LinearOrder Address] in
theorem foldl_collect (keep : PoolInfo Address → Bool) (ids : List Nat)
    (pools : List (PoolInfo Address)) :
    ids.foldl (collect s keep) pools = pools ++ (ids.filterMap s.pool.lookup).filter keep := by
  induction ids generalizing pools with
  | nil => exact (List.append_nil pools).symm
  | cons i ids ih =>
    rw [List.foldl_cons, ih, collect, List.filterMap_cons]
    cases s.pool.lookup i with
    | none => rfl
    | some info =>
      dsimp only
      rw [List.filter_cons]
      split
      · exact List.append_assoc _ _ _
      · rfl

omit [LinearOrder Address] in
theorem listPools_eq (s : Storage Address) :
    listPools s =
      ((List.range s.poolCount).filterMap s.pool.lookup).filter (fun info => info.active) :=
  foldl_collect _ _ _

/-- The registry as its readers see it. -/
structure Consistent (s : Storage Address) : Prop where
  stored : ∀ id, (∃ info, getPool s id = .ok info) ↔ id < s.poolCount
  keyed : ∀ id info, getPool s id = .ok info → info.poolId = id
  sole : ∀ i j x y, getPool s i = .ok x → getPool s j = .ok y → pairOf x = pairOf y → i = j
  find_comm : ∀ a b, findPool s a b = findPool s b a
  find : ∀ a b info,
    findPool s a b = .ok info ↔ (∃ id, getPool s id = .ok info) ∧ pairOf info = s(a, b)
  listed : ∀ info, info ∈ listPools s ↔ (∃ id, getPool s id = .ok info) ∧ info.active
  ordered : (listPools s).Pairwise (fun x y => x.poolId < y.poolId)

omit [LinearOrder Address] in
theorem getPool_ok {id : Nat} {info : PoolInfo Address} :
    getPool s id = .ok info ↔ s.pool.lookup id = some info := okOr_eq_ok

theorem findPool_ok (hs : Registered s) {a b : Address} {info : PoolInfo Address} :
    findPool s a b = .ok info ↔
      (∃ id, getPool s id = .ok info) ∧ pairOf info = s(a, b) := by
  simp only [findPool, getPool, Storage.readPool, bind_eq_ok, okOr_eq_ok, hs.indexed]
  constructor
  · rintro ⟨id, ⟨x, hx, hxab⟩, hinfo⟩
    cases hx.symm.trans hinfo
    exact ⟨⟨id, hx⟩, hxab⟩
  · rintro ⟨⟨id, hinfo⟩, hab⟩
    exact ⟨id, ⟨info, hinfo, hab⟩, hinfo⟩

theorem exists_findPool (hs : Registered s) {a b : Address} :
    (∃ info, findPool s a b = .ok info) ↔ Listed s s(a, b) := by
  simp only [findPool_ok hs, getPool_ok, listed_mk, Option.isSome_iff_exists, hs.indexed]
  constructor
  · rintro ⟨info, ⟨id, hid⟩, hab⟩
    exact ⟨id, info, hid, hab⟩
  · rintro ⟨id, info, hid, hab⟩
    exact ⟨info, ⟨id, hid⟩, hab⟩

theorem consistent_of_registered (hs : Registered s) : Consistent s where
  stored id := by
    rw [← hs.dense, Option.isSome_iff_exists]
    exact exists_congr fun info => getPool_ok
  keyed id info h := hs.keyed id info (getPool_ok.mp h)
  sole i j x y hx hy hxy := by
    have hi := (hs.indexed y.tokenA y.tokenB i).mpr ⟨x, getPool_ok.mp hx, hxy⟩
    have hj := (hs.indexed y.tokenA y.tokenB j).mpr ⟨y, getPool_ok.mp hy, rfl⟩
    exact Option.some_inj.mp (hi.symm.trans hj)
  find_comm a b := by rw [findPool, findPool, pairKey_comm]
  find a b info := findPool_ok hs
  listed info := by
    rw [listPools_eq, List.mem_filter, List.mem_filterMap]
    refine and_congr_left fun _ => exists_congr fun id => ?_
    rw [getPool_ok, List.mem_range]
    exact and_iff_right_of_imp fun h => (hs.dense id).mp (by rw [h]; rfl)
  ordered := by
    rw [listPools_eq]
    refine List.Pairwise.filter _ (List.Pairwise.filterMap _ ?_ List.pairwise_lt_range)
    intro i j hij x hx y hy
    rwa [hs.keyed i x hx, hs.keyed j y hy]

omit [LinearOrder Address] in
theorem initialise_ok {env : Env Address contract} {admin : Address}
    (h : initialise env Storage.fresh admin = .ok s) :
    s.pool = ∅ ∧ s.pairIndex = ∅ ∧ s.poolCount = 0 := by
  simp only [initialise, bind_eq_ok, pure_eq_ok] at h
  obtain ⟨_, -, _, -, rfl⟩ := h
  exact ⟨rfl, rfl, rfl⟩

/-- After any calls the registry is consistent, and a pool is found for two
tokens, named in either order, exactly where one was created for them. -/
theorem consistent_and_found_iff_created {env : Env Address contract} {admin : Address}
    (h : initialise env Storage.fresh admin = .ok s)
    (calls : List (Invocation Bytes32 Address contract)) :
    Consistent (run step s calls) ∧ ∀ a b,
      (∃ info, findPool (run step s calls) a b = .ok info) ↔ s(a, b) ∈ created s calls := by
  obtain ⟨hpool, hpair, hcount⟩ := initialise_ok h
  have hopen : Registered s := by
    refine ⟨fun id => ?_, fun id info hi => ?_, fun a b id => ?_⟩
    · simp [hpool, hcount]
    · simp [hpool] at hi
    · simp [hpool, hpair]
  have hrun : Registered (run step s calls) :=
    throughout_run (throughout_of_along (C := fun _ _ => True)
      (fun s i t hs _ hi => registered_effect (step_effect hi) hs) hopen (along_true s calls))
  refine ⟨consistent_of_registered hrun, fun a b => ?_⟩
  have hnone : ¬ Listed s s(a, b) := by simp [listed_mk, hpair]
  calc (∃ info, findPool (run step s calls) a b = .ok info)
      ↔ Listed (run step s calls) s(a, b) := exists_findPool hrun
    _ ↔ Listed s s(a, b) ∨ s(a, b) ∈ created s calls :=
        used_run Listed (fun s i t p hi => listed_effect (step_effect hi) p) s calls s(a, b)
    _ ↔ s(a, b) ∈ created s calls := or_iff_right hnone

def openFactory : Storage Nat := { Storage.fresh with admin := some 1 }

theorem initialise_openFactory :
    initialise (Env.signed 0 0) Storage.fresh 1 = .ok openFactory := rfl

/-- A pool is created, refused for the same tokens the other way round, and
switched off. -/
def factoryCalls : List (Invocation Nat Nat 0) :=
  [⟨.signed 0 0, fun salt _ => some (salt + 100), .createPool 2 7 8 5 6 0 30 "pool"⟩,
    ⟨.signed 0 1, fun _ _ => none, .registerPool 1 9 6 5 0 30⟩,
    ⟨.signed 0 2, fun _ _ => none, .removePool 2 0⟩]

theorem consistent_and_found_iff_created_sample :
    Consistent (run step openFactory factoryCalls) ∧ ∀ a b,
      (∃ info, findPool (run step openFactory factoryCalls) a b = .ok info) ↔
        s(a, b) ∈ created openFactory factoryCalls :=
  consistent_and_found_iff_created initialise_openFactory factoryCalls

example : (findPool (run step openFactory factoryCalls) 6 5).toOption.map (fun info =>
    (info.poolAddress, info.active)) = some (108, false) := by decide

end Suban.PoolFactory.Registry

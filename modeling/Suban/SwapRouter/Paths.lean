import Suban.Basis.Runs
import Suban.SwapRouter.Contract

namespace Suban.SwapRouter.Paths

open Suban.Basis.Calls Suban.Basis.Tables Suban.Basis.Runs Suban.Soroban.Host
open Suban.SwapRouter.Contract

variable {Address : Type} [DecidableEq Address] {contract : Address}
variable {s t : Storage Address} {route : PoolRoute Address}
variable {tokenIn tokenOut x : Address}

/-- Every id below the counter is a pool's. -/
def Dense (s : Storage Address) : Prop := ∀ i < s.poolCount, (s.pool.lookup i).isSome

def Joins (pools : List (PoolRoute Address)) (i : Nat) (route : PoolRoute Address)
    (x y : Address) : Prop :=
  pools[i]? = some route ∧
    (route.tokenA = x ∧ route.tokenB = y ∨ route.tokenB = x ∧ route.tokenA = y)

def Joined (pools : List (PoolRoute Address)) (x y : Address) : Prop :=
  ∃ i route, Joins pools i route x y

/-- One pool that trades between the tokens, or two different entries with a
token between them. -/
inductive IsPath (pools : List (PoolRoute Address)) (tokenIn tokenOut : Address) :
    SwapStep Address × Option (SwapStep Address) → Prop where
  | direct (i : Nat) (route : PoolRoute Address) (h : Joins pools i route tokenIn tokenOut) :
      IsPath pools tokenIn tokenOut (⟨route.poolAddress, tokenIn, tokenOut⟩, none)
  | through (x : Address) (i j : Nat) (route route2 : PoolRoute Address) (hne : i ≠ j)
      (h : Joins pools i route tokenIn x) (h2 : Joins pools j route2 x tokenOut) :
      IsPath pools tokenIn tokenOut
        (⟨route.poolAddress, tokenIn, x⟩, some ⟨route2.poolAddress, x, tokenOut⟩)

theorem matches_iff : route.matches tokenIn tokenOut = true ↔
    (route.tokenA = tokenIn ∧ route.tokenB = tokenOut ∨
      route.tokenB = tokenIn ∧ route.tokenA = tokenOut) := by
  simp [PoolRoute.matches]

theorem intermediate_eq_some : route.intermediate tokenIn = some x ↔
    (route.tokenA = tokenIn ∧ route.tokenB = x ∨
      route.tokenA ≠ tokenIn ∧ route.tokenB = tokenIn ∧ route.tokenA = x) := by
  unfold PoolRoute.intermediate
  split_ifs with ha hb
  · simp [ha]
  · simp [ha, hb]
  · simp [ha, hb]

theorem joined_iff {pools : List (PoolRoute Address)} : Joined pools tokenIn tokenOut ↔
    ∃ route ∈ pools, route.matches tokenIn tokenOut = true := by
  constructor
  · rintro ⟨i, route, hi, h⟩
    exact ⟨route, List.mem_of_getElem? hi, matches_iff.mpr h⟩
  · rintro ⟨route, hmem, h⟩
    obtain ⟨i, hi⟩ := List.getElem?_of_mem hmem
    exact ⟨i, route, hi, matches_iff.mp h⟩

/-- Where every id has a pool the loop is a search of their list. -/
theorem findPoolFrom_eq {ids : List Nat} (h : ∀ i ∈ ids, (s.pool.lookup i).isSome) :
    findPoolFrom s tokenIn tokenOut ids =
      okOr ((ids.filterMap s.pool.lookup).find? (·.matches tokenIn tokenOut)) .noPathFound := by
  induction ids with
  | nil => rfl
  | cons i ids ih =>
    obtain ⟨route, hroute⟩ := Option.isSome_iff_exists.mp (h i List.mem_cons_self)
    have hrest := ih fun j hj => h j (List.mem_cons_of_mem i hj)
    have hlist : (i :: ids).filterMap s.pool.lookup = route :: ids.filterMap s.pool.lookup := by
      simp only [List.filterMap_cons, hroute]
    rw [findPoolFrom, hroute, okOr, ok_bind, hlist, List.find?_cons]
    split
    next hm =>
      rw [hm]
      rfl
    next hm =>
      rw [Bool.eq_false_of_not_eq_true hm]
      exact hrest

theorem Dense.findPool_eq (hs : Dense s) : findPool s tokenIn tokenOut =
    okOr ((listPools s).find? (·.matches tokenIn tokenOut)) .noPathFound :=
  findPoolFrom_eq fun i hi => hs i (List.mem_range.mp hi)

def hop (pools : List (PoolRoute Address)) (tokenIn tokenOut : Address)
    (route : PoolRoute Address) : Option (SwapStep Address × Option (SwapStep Address)) :=
  (route.intermediate tokenIn).bind fun inter =>
    (pools.find? (·.matches inter tokenOut)).map fun route2 =>
      (⟨route.poolAddress, tokenIn, inter⟩, some ⟨route2.poolAddress, inter, tokenOut⟩)

theorem findPathFrom_eq (hs : Dense s) {ids : List Nat}
    (h : ∀ i ∈ ids, (s.pool.lookup i).isSome) :
    findPathFrom s tokenIn tokenOut ids =
      okOr ((ids.filterMap s.pool.lookup).findSome? (hop (listPools s) tokenIn tokenOut))
        .noPathFound := by
  induction ids with
  | nil => rfl
  | cons i ids ih =>
    obtain ⟨route, hroute⟩ := Option.isSome_iff_exists.mp (h i List.mem_cons_self)
    have hrest := ih fun j hj => h j (List.mem_cons_of_mem i hj)
    have hlist : (i :: ids).filterMap s.pool.lookup = route :: ids.filterMap s.pool.lookup := by
      simp only [List.filterMap_cons, hroute]
    rw [findPathFrom, hroute, okOr, ok_bind, hlist, List.findSome?_cons, hop]
    cases hinter : route.intermediate tokenIn with
    | none => exact hrest
    | some inter =>
      dsimp only [Option.bind]
      rw [hs.findPool_eq]
      cases hfind : (listPools s).find? (·.matches inter tokenOut) with
      | none => exact hrest
      | some route2 => rfl

/-- The search over the list of the pools: for one pool, then for two. -/
def search (pools : List (PoolRoute Address)) (tokenIn tokenOut : Address) :
    Option (SwapStep Address × Option (SwapStep Address)) :=
  match pools.find? (·.matches tokenIn tokenOut) with
  | some route => some (⟨route.poolAddress, tokenIn, tokenOut⟩, none)
  | none => pools.findSome? (hop pools tokenIn tokenOut)

theorem Dense.findPath_eq (hs : Dense s) : findPath s tokenIn tokenOut =
    okOr (search (listPools s) tokenIn tokenOut) .noPathFound := by
  rw [findPath, search, hs.findPool_eq]
  cases (listPools s).find? (·.matches tokenIn tokenOut) with
  | some route => rfl
  | none => exact findPathFrom_eq hs fun i hi => hs i (List.mem_range.mp hi)

section Search

variable {pools : List (PoolRoute Address)}

theorem find?_eq_none_iff :
    pools.find? (·.matches tokenIn tokenOut) = none ↔ ¬ Joined pools tokenIn tokenOut := by
  rw [List.find?_eq_none, joined_iff]
  simp

theorem joins_of_find? (h : pools.find? (·.matches tokenIn tokenOut) = some route) :
    ∃ i, Joins pools i route tokenIn tokenOut := by
  obtain ⟨i, hi⟩ := List.getElem?_of_mem (List.mem_of_find?_eq_some h)
  exact ⟨i, hi, matches_iff.mp (List.find?_eq_some_iff_append.mp h).1⟩

omit [DecidableEq Address] in
/-- A pool that can begin a path and also end it trades between the ends of the
path directly. -/
theorem joins_of_both {i : Nat} (hne : tokenIn ≠ tokenOut) (h : Joins pools i route tokenIn x)
    (h2 : Joins pools i route x tokenOut) : Joins pools i route tokenIn tokenOut := by
  obtain ⟨hi, hx⟩ := h
  obtain ⟨-, hout⟩ := h2
  refine ⟨hi, ?_⟩
  obtain ⟨rfl, rfl⟩ | ⟨rfl, rfl⟩ := hx
  · obtain ⟨h, hb⟩ | ⟨-, ha⟩ := hout
    · exact .inl ⟨rfl, hb⟩
    · exact absurd ha hne
  · obtain ⟨-, hb⟩ | ⟨h, ha⟩ := hout
    · exact absurd hb hne
    · exact .inr ⟨rfl, ha⟩

theorem hop_eq_some {p : SwapStep Address × Option (SwapStep Address)} :
    hop pools tokenIn tokenOut route = some p ↔ ∃ x route2,
      route.intermediate tokenIn = some x ∧ pools.find? (·.matches x tokenOut) = some route2 ∧
      p = (⟨route.poolAddress, tokenIn, x⟩, some ⟨route2.poolAddress, x, tokenOut⟩) := by
  simp only [hop, Option.bind_eq_some_iff, Option.map_eq_some_iff]
  constructor
  · rintro ⟨x, hinter, route2, hfind, rfl⟩
    exact ⟨x, route2, hinter, hfind, rfl⟩
  · rintro ⟨x, route2, hinter, hfind, rfl⟩
    exact ⟨x, hinter, route2, hfind, rfl⟩

theorem isPath_of_search (hne : tokenIn ≠ tokenOut)
    {p : SwapStep Address × Option (SwapStep Address)}
    (h : search pools tokenIn tokenOut = some p) : IsPath pools tokenIn tokenOut p := by
  unfold search at h
  split at h
  next route hfind =>
    cases h
    obtain ⟨i, hi⟩ := joins_of_find? hfind
    exact .direct i route hi
  next hnone =>
    rw [find?_eq_none_iff] at hnone
    obtain ⟨route, hmem, hhop⟩ := List.exists_of_findSome?_eq_some h
    obtain ⟨x, route2, hinter, hfind, rfl⟩ := hop_eq_some.mp hhop
    obtain ⟨i, hi⟩ := List.getElem?_of_mem hmem
    obtain ⟨j, hj⟩ := joins_of_find? hfind
    have hx : Joins pools i route tokenIn x := by
      refine ⟨hi, ?_⟩
      obtain ⟨ha, hb⟩ | ⟨-, hb, ha⟩ := intermediate_eq_some.mp hinter
      · exact .inl ⟨ha, hb⟩
      · exact .inr ⟨hb, ha⟩
    refine .through x i j route route2 ?_ hx hj
    rintro rfl
    have hroute : route2 = route := Option.some.inj (hj.1.symm.trans hi)
    rw [hroute] at hj
    exact hnone ⟨i, route, joins_of_both hne hx hj⟩

theorem exists_hop (hx : Joined pools tokenIn x) (hout : Joined pools x tokenOut) :
    ∃ route ∈ pools, (hop pools tokenIn tokenOut route).isSome := by
  obtain ⟨i, route, hi, hjoin⟩ := hx
  refine ⟨route, List.mem_of_getElem? hi, ?_⟩
  have hinter : route.intermediate tokenIn = some x := by
    rw [intermediate_eq_some]
    by_cases ha : route.tokenA = tokenIn
    · obtain ⟨-, hb⟩ | ⟨hb, hx⟩ := hjoin
      · exact .inl ⟨ha, hb⟩
      · exact .inl ⟨ha, hb.trans (ha.symm.trans hx)⟩
    · obtain ⟨h, -⟩ | ⟨hb, hx⟩ := hjoin
      · exact absurd h ha
      · exact .inr ⟨ha, hb, hx⟩
  cases hfind : pools.find? (·.matches x tokenOut) with
  | none => exact absurd hout (find?_eq_none_iff.mp hfind)
  | some route2 =>
    exact Option.isSome_iff_exists.mpr ⟨_, hop_eq_some.mpr ⟨x, route2, hinter, hfind, rfl⟩⟩

theorem search_direct (h : Joined pools tokenIn tokenOut) :
    ∃ step, search pools tokenIn tokenOut = some (step, none) := by
  unfold search
  split
  next route hfind => exact ⟨_, rfl⟩
  next hnone => exact absurd h (find?_eq_none_iff.mp hnone)

theorem exists_search (h : Joined pools tokenIn tokenOut ∨
    ∃ x, Joined pools tokenIn x ∧ Joined pools x tokenOut) :
    ∃ p, search pools tokenIn tokenOut = some p := by
  by_cases hdirect : Joined pools tokenIn tokenOut
  · obtain ⟨step, hstep⟩ := search_direct hdirect
    exact ⟨_, hstep⟩
  · obtain hjoin | ⟨x, hx, hout⟩ := h
    · exact absurd hjoin hdirect
    · obtain ⟨route, hmem, hhop⟩ := exists_hop hx hout
      rw [search, find?_eq_none_iff.mpr hdirect]
      exact Option.isSome_iff_exists.mp (List.findSome?_isSome_iff.mpr ⟨route, hmem, hhop⟩)

omit [DecidableEq Address] in
theorem IsPath.joined {p : SwapStep Address × Option (SwapStep Address)}
    (h : IsPath pools tokenIn tokenOut p) : Joined pools tokenIn tokenOut ∨
      ∃ x, Joined pools tokenIn x ∧ Joined pools x tokenOut := by
  cases h with
  | direct i route h => exact .inl ⟨i, route, h⟩
  | through x i j route route2 hne h h2 => exact .inr ⟨x, ⟨i, route, h⟩, j, route2, h2⟩

end Search

/-- Between two tokens a path is found exactly when there is one, a pool that
trades between them goes first, and every path found is one. -/
structure Finds (s : Storage Address) (tokenIn tokenOut : Address) : Prop where
  exists_iff : (∃ p, findPath s tokenIn tokenOut = .ok p) ↔
    Joined (listPools s) tokenIn tokenOut ∨
      ∃ x, Joined (listPools s) tokenIn x ∧ Joined (listPools s) x tokenOut
  direct : Joined (listPools s) tokenIn tokenOut →
    ∃ step, findPath s tokenIn tokenOut = .ok (step, none)
  isPath : ∀ p, findPath s tokenIn tokenOut = .ok p → IsPath (listPools s) tokenIn tokenOut p

theorem Dense.finds (hs : Dense s) (hne : tokenIn ≠ tokenOut) : Finds s tokenIn tokenOut := by
  have hok (p : SwapStep Address × Option (SwapStep Address)) :
      findPath s tokenIn tokenOut = .ok p ↔ search (listPools s) tokenIn tokenOut = some p := by
    rw [hs.findPath_eq, okOr_eq_ok]
  refine ⟨⟨?_, ?_⟩, ?_, fun p hp => isPath_of_search hne ((hok p).mp hp)⟩
  · rintro ⟨p, hp⟩
    exact (isPath_of_search hne ((hok p).mp hp)).joined
  · intro h
    obtain ⟨p, hp⟩ := exists_search h
    exact ⟨p, (hok p).mpr hp⟩
  · intro h
    obtain ⟨step, hstep⟩ := search_direct h
    exact ⟨step, (hok _).mpr hstep⟩

def registered (i : Invocation Address contract) : Option (PoolRoute Address) :=
  some ⟨i.poolAddress, i.tokenA, i.tokenB, i.feeBps⟩

theorem step_ok {i : Invocation Address contract} (h : step s i = .ok t) :
    t.poolCount = s.poolCount + 1 ∧
      t.pool = s.pool.insert s.poolCount ⟨i.poolAddress, i.tokenA, i.tokenB, i.feeBps⟩ := by
  simp only [step, registerPool, bind_eq_ok, checkedUInt_eq_ok, pure_eq_ok] at h
  obtain ⟨_, ⟨_, -, _, -, _, -, _, -, _, ⟨-, rfl⟩, rfl⟩, rfl⟩ := h
  exact ⟨rfl, rfl⟩

theorem dense_step {i : Invocation Address contract} (hs : Dense s) (h : step s i = .ok t) :
    Dense t := by
  obtain ⟨hcount, hpool⟩ := step_ok h
  intro j hj
  rw [hpool]
  by_cases hlast : j = s.poolCount
  · subst hlast
    rw [AList.lookup_insert]
    rfl
  · rw [AList.lookup_insert_ne hlast]
    exact hs j (by omega)

theorem listPools_step {i : Invocation Address contract} (h : step s i = .ok t) :
    listPools t = listPools s ++ (registered i).toList := by
  obtain ⟨hcount, hpool⟩ := step_ok h
  have hold : (List.range s.poolCount).filterMap t.pool.lookup = listPools s := by
    refine List.filterMap_congr fun j hj => ?_
    rw [hpool, AList.lookup_insert_ne (List.mem_range.mp hj).ne]
  rw [listPools, hcount, List.range_succ, List.filterMap_append, hold, hpool]
  simp [registered]

/-- After any calls to register pools the router lists the pools of those that
were accepted, and finds its paths among them. -/
theorem finds_registered {env : Env Address contract} {admin : Address}
    (h : initialise env .fresh admin = .ok s) (is : List (Invocation Address contract)) :
    listPools (run step s is) = (accepted step s is).filterMap registered ∧
      ∀ tokenIn tokenOut, tokenIn ≠ tokenOut → Finds (run step s is) tokenIn tokenOut := by
  simp only [initialise, bind_eq_ok, pure_eq_ok] at h
  obtain ⟨_, -, _, -, rfl⟩ := h
  have hopen : Dense { (Storage.fresh : Storage Address) with admin := some admin } :=
    fun j hj => absurd hj (Nat.not_lt_zero j)
  have hall : Throughout step Dense
      { (Storage.fresh : Storage Address) with admin := some admin } is :=
    throughout_of_along (fun _ _ _ hs _ ht => dense_step hs ht) hopen (along_true _ is)
  refine ⟨record_run (fun _ _ _ ht => listPools_step ht) _ is,
    fun _ _ hne => (throughout_run hall).finds hne⟩

def sampleStorage : Storage Nat := { Storage.fresh with admin := some 1 }

/-- A degenerate pool of one token, then two pools over the token at address 11. -/
def sampleRun : List (Invocation Nat 0) :=
  [⟨Env.signed 0 1, 1, 20, 10, 10, 30⟩, ⟨Env.signed 0 2, 1, 21, 11, 10, 30⟩,
    ⟨Env.signed 0 3, 1, 22, 11, 12, 1001⟩, ⟨Env.signed 0 4, 1, 23, 11, 12, 30⟩]

theorem finds_registered_sample : listPools (run step sampleStorage sampleRun) =
      (accepted step sampleStorage sampleRun).filterMap registered ∧
    ∀ tokenIn tokenOut, tokenIn ≠ tokenOut →
      Finds (run step sampleStorage sampleRun) tokenIn tokenOut :=
  finds_registered (rfl : initialise (Env.signed 0 0) .fresh 1 = .ok sampleStorage) sampleRun

example : findPath (run step sampleStorage sampleRun) 10 12 =
    .ok (⟨21, 10, 11⟩, some ⟨23, 11, 12⟩) := by decide +kernel

end Suban.SwapRouter.Paths

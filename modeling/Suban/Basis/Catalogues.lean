import Suban.Basis.Tables

namespace Suban.Basis.Catalogues

open Suban.Basis.Tables

variable {α : Type} {t : Table Nat α} {log : List α} {keep : α → Bool} {a : α} {n : Nat}

/-- The entries of the table that are numbered below the length of the list are
those of the list. What a table holds beyond them is left open. -/
def Catalogued (t : Table Nat α) (log : List α) : Prop :=
  ∀ k < log.length, t.lookup k = log[k]?

theorem catalogued_nil (t : Table Nat α) : Catalogued t [] := nofun

theorem Catalogued.push (h : Catalogued t log) (a : α) :
    Catalogued (t.insert log.length a) (log ++ [a]) := by
  intro k hk
  by_cases hlast : k = log.length
  · rw [hlast, AList.lookup_insert, List.getElem?_concat_length]
  · rw [List.length_append, List.length_singleton] at hk
    have hlt : k < log.length := by omega
    rw [AList.lookup_insert_ne hlast, h k hlt, List.getElem?_append_left hlt]

/-- Changing an entry where it is stored changes it in the list. An entry that is
stored beyond the list is out of its reach. -/
theorem Catalogued.modify (h : Catalogued t log) {i : Nat} (hi : t.lookup i = some a)
    (f : α → α) : Catalogued (t.insert i (f a)) (log.modify i f) := by
  intro k hk
  rw [List.length_modify] at hk
  by_cases hself : k = i
  · subst hself
    rw [AList.lookup_insert, List.getElem?_modify_eq, ← h k hk, hi]
    rfl
  · rw [AList.lookup_insert_ne hself, h k hk, List.getElem?_modify_ne _ _ (Ne.symm hself)]

def gather (t : Table Nat α) (keep : α → Bool) (results : List α) (i : Nat) : List α :=
  match t.lookup i with
  | some a => if keep a then results ++ [a] else results
  | none => results

def listing (t : Table Nat α) (keep : α → Bool) (n : Nat) : List α :=
  (List.range n).foldl (gather t keep) []

/-- The newest entries wanted among those numbered below `i`, until as many as
the limit are found. -/
def newest (t : Table Nat α) (keep : α → Bool) (limit : Nat) : Nat → Nat → List α → List α
  | 0, _, results => results
  | i + 1, found, results =>
    if found < limit then
      match t.lookup i with
      | some a =>
        if keep a then newest t keep limit i (found + 1) (results ++ [a])
        else newest t keep limit i found results
      | none => newest t keep limit i found results
    else results

theorem gather_of_some {i : Nat} (h : t.lookup i = some a) (results : List α) :
    gather t keep results i = results ++ [a].filter keep := by
  rw [gather, h]
  cases hk : keep a <;> simp [hk]

theorem listing_eq (h : Catalogued t log) (hn : n ≤ log.length) :
    listing t keep n = (log.take n).filter keep := by
  induction n with
  | zero => rfl
  | succ n ih =>
    have hlook : t.lookup n = some log[n] := by rw [h n hn, List.getElem?_eq_getElem hn]
    have hrest : listing t keep n = (log.take n).filter keep := ih (by omega)
    rw [listing, List.range_succ, List.foldl_append, List.foldl_cons, List.foldl_nil, ← listing,
      hrest, gather_of_some hlook, List.take_succ_eq_append_getElem hn, List.filter_append]

theorem newest_full {limit found : Nat} (h : limit ≤ found) (i : Nat) (results : List α) :
    newest t keep limit i found results = results := by
  cases i with
  | zero => rfl
  | succ i => rw [newest, if_neg (not_lt.mpr h)]

/-- The search takes what the limit leaves of the wanted entries, newest first. -/
theorem newest_eq_append (h : Catalogued t log) {limit : Nat} {i : Nat} (hi : i ≤ log.length)
    (found : Nat) (results : List α) :
    newest t keep limit i found results =
      results ++ (((log.take i).reverse).filter keep).take (limit - found) := by
  induction i generalizing found results with
  | zero => simp [newest]
  | succ i ih =>
    have hlook : t.lookup i = some log[i] := by rw [h i hi, List.getElem?_eq_getElem hi]
    have hrest := fun found results => ih (by omega) found results
    by_cases hlimit : found < limit
    · rw [newest, if_pos hlimit, hlook, List.take_succ_eq_append_getElem hi, List.reverse_append,
        List.reverse_singleton, List.singleton_append, List.filter_cons]
      dsimp only
      split
      · rw [hrest, show limit - found = limit - (found + 1) + 1 by omega, List.take_succ_cons,
          List.append_assoc, List.singleton_append]
      · exact hrest found results
    · rw [newest_full (not_lt.mp hlimit), Nat.sub_eq_zero_of_le (not_lt.mp hlimit), List.take_zero,
        List.append_nil]

theorem newest_eq (h : Catalogued t log) (keep : α → Bool) (limit : Nat) :
    newest t keep limit log.length 0 [] = (log.reverse.filter keep).take limit := by
  rw [newest_eq_append h le_rfl, List.take_length, List.nil_append, Nat.sub_zero]

end Suban.Basis.Catalogues

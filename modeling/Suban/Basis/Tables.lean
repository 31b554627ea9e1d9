import Mathlib.Algebra.BigOperators.Group.List.Basic
import Mathlib.Algebra.Order.BigOperators.Group.List
import Mathlib.Algebra.Order.Ring.Int
import Mathlib.Data.Finset.Card
import Mathlib.Data.List.AList
import Mathlib.Tactic.Ring

namespace Suban.Basis.Tables

variable {κ ν : Type} [DecidableEq κ]

/-- A storage map: finitely many entries, at most one for each key. -/
abbrev Table (κ ν : Type) := AList (fun _ : κ => ν)

def readOr (t : Table κ ν) (k : κ) (d : ν) : ν := (t.lookup k).getD d

/-- The sum of a weight over the entries that are stored. -/
def total (f : ν → Int) (t : Table κ ν) : Int := (t.entries.map (fun e => f e.2)).sum

def size (t : Table κ ν) : Nat := t.keys.length

@[simp] theorem readOr_empty (k : κ) (d : ν) : readOr (∅ : Table κ ν) k d = d := rfl

omit [DecidableEq κ] in
@[simp] theorem total_empty (f : ν → Int) : total f (∅ : Table κ ν) = 0 := rfl

theorem readOr_insert (t : Table κ ν) (k j : κ) (v d : ν) :
    readOr (t.insert k v) j d = if j = k then v else readOr t j d := by
  by_cases h : j = k
  · subst h
    simp [readOr]
  · rw [readOr, AList.lookup_insert_ne h, if_neg h, readOr]

theorem forall_readOr_insert {t : Table κ ν} {P : ν → Prop} {d : ν}
    (h : ∀ j, P (readOr t j d)) (k : κ) {v : ν} (hv : P v) (j : κ) :
    P (readOr (t.insert k v) j d) := by
  rw [readOr_insert]
  split
  · exact hv
  · exact h j

theorem forall_insert {t : Table κ ν} {Q : κ → ν → Prop} {k : κ} {v : ν} (hv : Q k v)
    (h : ∀ j u, t.lookup j = some u → Q j u) (j : κ) (u : ν)
    (hj : (t.insert k v).lookup j = some u) : Q j u := by
  by_cases hjk : j = k
  · subst hjk
    rw [AList.lookup_insert] at hj
    cases hj
    exact hv
  · rw [AList.lookup_insert_ne hjk] at hj
    exact h j u hj

theorem lookup_insert_eq_some {t : Table κ ν} {k j : κ} {v u : ν} :
    (t.insert k v).lookup j = some u ↔ j = k ∧ v = u ∨ j ≠ k ∧ t.lookup j = some u := by
  by_cases h : j = k
  · subst h
    simp
  · simp [h, AList.lookup_insert_ne h]

theorem isSome_lookup_insert {t : Table κ ν} {k j : κ} {v : ν} :
    ((t.insert k v).lookup j).isSome = true ↔ j = k ∨ (t.lookup j).isSome = true := by
  by_cases h : j = k
  · subst h
    simp
  · simp [h, AList.lookup_insert_ne h]

theorem sum_kerase (f : ν → Int) (k : κ) (l : List (Sigma fun _ : κ => ν)) :
    ((l.kerase k).map (fun e => f e.2)).sum =
      (l.map (fun e => f e.2)).sum - ((l.dlookup k).map f).getD 0 := by
  induction l with
  | nil => simp
  | cons e l ih =>
    by_cases h : k = e.1
    · subst h
      rw [List.kerase_cons_eq rfl, List.dlookup_cons_eq]
      simp
    · rw [List.kerase_cons_ne h, List.dlookup_cons_ne _ _ h]
      simp only [List.map_cons, List.sum_cons, ih]
      ring

theorem total_insert (f : ν → Int) (t : Table κ ν) (k : κ) (v : ν) :
    total f (t.insert k v) = total f t - ((t.lookup k).map f).getD 0 + f v := by
  unfold total
  rw [AList.entries_insert, List.map_cons, List.sum_cons, sum_kerase]
  exact add_comm _ _

theorem total_insert_readOr {f : ν → Int} {d : ν} (hd : f d = 0) (t : Table κ ν) (k : κ) (v : ν) :
    total f (t.insert k v) = total f t - f (readOr t k d) + f v := by
  rw [total_insert, readOr]
  cases t.lookup k with
  | none => simp [hd]
  | some u => rfl

omit [DecidableEq κ] in
@[simp] theorem size_empty : size (∅ : Table κ ν) = 0 := rfl

theorem size_insert_new {t : Table κ ν} {k : κ} (h : t.lookup k = none) (v : ν) :
    size (t.insert k v) = size t + 1 := by
  have hk : k ∉ t.keys := AList.lookup_eq_none.mp h
  rw [size, AList.keys_insert, List.length_cons, List.erase_of_not_mem hk, size]

theorem size_insert_old {t : Table κ ν} {k : κ} {u : ν} (h : t.lookup k = some u) (v : ν) :
    size (t.insert k v) = size t := by
  have hk : k ∈ t.keys := AList.lookup_isSome.mp (by rw [h]; rfl)
  rw [size, AList.keys_insert, List.length_cons, List.length_erase_of_mem hk, size]
  exact Nat.sub_add_cancel (List.length_pos_of_mem hk)

theorem weights_nonneg (f : ν → Int) (t : Table κ ν)
    (h : ∀ k v, t.lookup k = some v → 0 ≤ f v) :
    ∀ x ∈ t.entries.map (fun e => f e.2), 0 ≤ x := by
  intro x hx
  obtain ⟨e, he, rfl⟩ := List.mem_map.mp hx
  exact h e.1 e.2 (AList.mem_lookup_iff.mpr he)

theorem total_nonneg (f : ν → Int) (t : Table κ ν)
    (h : ∀ k v, t.lookup k = some v → 0 ≤ f v) : 0 ≤ total f t :=
  List.sum_nonneg (weights_nonneg f t h)

theorem le_total (f : ν → Int) (t : Table κ ν) (h : ∀ k v, t.lookup k = some v → 0 ≤ f v)
    {k : κ} {v : ν} (hk : t.lookup k = some v) : f v ≤ total f t :=
  List.single_le_sum (weights_nonneg f t h) _
    (List.mem_map.mpr ⟨⟨k, v⟩, AList.mem_lookup_iff.mp hk, rfl⟩)

theorem total_eq_zero_iff (f : ν → Int) (t : Table κ ν)
    (h : ∀ k v, t.lookup k = some v → 0 ≤ f v) :
    total f t = 0 ↔ ∀ k v, t.lookup k = some v → f v = 0 := by
  refine ⟨?_, ?_⟩
  · intro hz k v hk
    exact le_antisymm (hz ▸ le_total f t h hk) (h k v hk)
  · intro hz
    apply List.sum_eq_zero
    intro x hx
    obtain ⟨e, he, rfl⟩ := List.mem_map.mp hx
    exact hz e.1 e.2 (AList.mem_lookup_iff.mpr he)

omit [DecidableEq κ] in
theorem total_mono {f g : ν → Int} (t : Table κ ν) (h : ∀ v, f v ≤ g v) :
    total f t ≤ total g t :=
  List.sum_le_sum (fun e _ => h e.2)

omit [DecidableEq κ] in
theorem total_combine (f g : ν → Int) (a b : Int) (t : Table κ ν) :
    total (fun v => f v * a - b * g v) t = total f t * a - b * total g t := by
  unfold total
  induction t.entries with
  | nil => simp
  | cons e es ih =>
    simp only [List.map_cons, List.sum_cons, ih]
    ring

/-- The sum of all entries of a map of amounts. -/
abbrev sum (t : Table κ Int) : Int := total id t

theorem sum_insert (t : Table κ Int) (k : κ) (v : Int) :
    sum (t.insert k v) = sum t - readOr t k 0 + v := by
  unfold sum
  rw [total_insert]
  simp [readOr]

theorem lookup_nonneg {t : Table κ Int} (h : ∀ k, 0 ≤ readOr t k 0) (k : κ) (v : Int)
    (hk : t.lookup k = some v) : 0 ≤ id v := by
  simpa [readOr, hk] using h k

theorem sum_nonneg (t : Table κ Int) (h : ∀ k, 0 ≤ readOr t k 0) : 0 ≤ sum t :=
  total_nonneg id t (lookup_nonneg h)

theorem le_sum (t : Table κ Int) (h : ∀ k, 0 ≤ readOr t k 0) (k : κ) :
    readOr t k 0 ≤ sum t := by
  cases hk : t.lookup k with
  | none => simpa [readOr, hk] using sum_nonneg t h
  | some v => simpa [readOr, hk] using le_total id t (lookup_nonneg h) hk

theorem sum_eq_zero (t : Table κ Int) (h : ∀ k, readOr t k 0 = 0) : sum t = 0 := by
  refine (total_eq_zero_iff id t (lookup_nonneg fun k => (h k).ge)).mpr ?_
  intro k v hk
  simpa [readOr, hk] using h k

theorem sum_eq_of_sole (t : Table κ Int) (k : κ) (h : ∀ j, j ≠ k → readOr t j 0 = 0) :
    sum t = readOr t k 0 := by
  have hz : sum (t.insert k 0) = 0 := by
    apply sum_eq_zero
    intro j
    rw [readOr_insert]
    split
    · rfl
    next hj => exact h j hj
  rw [sum_insert] at hz
  omega

section Members

variable {t : Table κ Bool} {a : κ}

def members (t : Table κ Bool) : Finset κ := t.keys.toFinset.filter (fun a => readOr t a false)

@[simp] theorem mem_members : a ∈ members t ↔ readOr t a false = true := by
  simp only [members, Finset.mem_filter, List.mem_toFinset, and_iff_right_iff_imp]
  intro h
  rw [← AList.mem_keys, ← AList.lookup_isSome]
  unfold readOr at h
  cases hl : t.lookup a with
  | none => simp [hl] at h
  | some b => rfl

@[simp] theorem members_empty : members (∅ : Table κ Bool) = ∅ := rfl

theorem members_insert_true (t : Table κ Bool) (a : κ) :
    members (t.insert a true) = insert a (members t) := by
  ext b
  by_cases h : b = a <;> simp [readOr_insert, h]

theorem members_insert_false (t : Table κ Bool) (a : κ) :
    members (t.insert a false) = (members t).erase a := by
  ext b
  by_cases h : b = a <;> simp [readOr_insert, h]

theorem members_foldl (l : List κ) (t : Table κ Bool) :
    members (l.foldl (fun t a => t.insert a true) t) = l.toFinset ∪ members t := by
  induction l generalizing t with
  | nil => simp
  | cons b l ih =>
    rw [List.foldl_cons, ih, members_insert_true, List.toFinset_cons]
    ext c
    simp only [Finset.mem_union, Finset.mem_insert]
    tauto

theorem card_toFinset_eq_iff (l : List κ) : l.toFinset.card = l.length ↔ l.Nodup :=
  Multiset.toFinset_card_eq_card_iff_nodup

theorem exists_card_iff {l : List κ} (hl : l.Nodup) (p : κ → Bool) (n : Nat) :
    (∃ S : Finset κ, n ≤ S.card ∧ ∀ a ∈ S, p a = true ∧ a ∈ l) ↔ n ≤ l.countP p := by
  have hcard : (l.filter p).toFinset.card = l.countP p := by
    rw [List.toFinset_card_of_nodup (hl.filter p), List.countP_eq_length_filter]
  refine ⟨?_, ?_⟩
  · rintro ⟨S, hn, hS⟩
    rw [← hcard]
    refine hn.trans (Finset.card_le_card fun a ha => ?_)
    obtain ⟨hp, hmem⟩ := hS a ha
    exact List.mem_toFinset.mpr (List.mem_filter.mpr ⟨hmem, hp⟩)
  · intro hn
    refine ⟨(l.filter p).toFinset, hcard.symm ▸ hn, fun a ha => ?_⟩
    obtain ⟨hmem, hp⟩ := List.mem_filter.mp (List.mem_toFinset.mp ha)
    exact ⟨hp, hmem⟩

end Members

end Suban.Basis.Tables

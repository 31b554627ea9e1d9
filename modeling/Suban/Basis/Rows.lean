import Mathlib.Data.List.Nodup

namespace Suban.Basis.Rows

variable {α κ : Type} [DecidableEq κ] {key : α → κ} {a b : α} {rows table : List α}

/-- A row is added at the end of a table, unless there is one with its key. -/
def insertOrIgnore (key : α → κ) (row : α) (table : List α) : List α :=
  if table.any (fun r => key r = key row) then table else table ++ [row]

def insertAll (key : α → κ) (rows table : List α) : List α :=
  rows.foldl (fun table row => insertOrIgnore key row table) table

def HasKey (key : α → κ) (table : List α) (k : κ) : Prop := ∃ r ∈ table, key r = k

instance (k : κ) : Decidable (HasKey key table k) :=
  inferInstanceAs (Decidable (∃ r ∈ table, key r = k))

theorem insertOrIgnore_of_hasKey (h : HasKey key table (key a)) :
    insertOrIgnore key a table = table := by
  rw [insertOrIgnore, if_pos]
  simpa [HasKey] using h

theorem insertOrIgnore_of_new (h : ¬ HasKey key table (key a)) :
    insertOrIgnore key a table = table ++ [a] := by
  rw [insertOrIgnore, if_neg]
  simpa [HasKey] using h

theorem subset_insertOrIgnore : table ⊆ insertOrIgnore key a table := by
  intro r hr
  unfold insertOrIgnore
  split
  · exact hr
  · exact List.mem_append_left _ hr

theorem of_mem_insertOrIgnore (h : b ∈ insertOrIgnore key a table) : b ∈ table ∨ b = a := by
  unfold insertOrIgnore at h
  split at h
  · exact .inl h
  · exact (List.mem_append.mp h).imp_right List.mem_singleton.mp

theorem hasKey_insertOrIgnore : HasKey key (insertOrIgnore key a table) (key a) := by
  by_cases h : HasKey key table (key a)
  · rwa [insertOrIgnore_of_hasKey h]
  · rw [insertOrIgnore_of_new h]
    exact ⟨a, List.mem_append_right _ (List.mem_singleton_self a), rfl⟩

theorem nodup_insertOrIgnore (h : (table.map key).Nodup) :
    ((insertOrIgnore key a table).map key).Nodup := by
  by_cases hkey : HasKey key table (key a)
  · rwa [insertOrIgnore_of_hasKey hkey]
  · rw [insertOrIgnore_of_new hkey, List.map_append, List.map_singleton]
    refine List.nodup_append.mpr ⟨h, List.pairwise_singleton _ _, ?_⟩
    rintro k hk k' hk' rfl
    rw [List.mem_singleton.mp hk'] at hk
    exact hkey (List.mem_map.mp hk)

omit [DecidableEq κ] in
theorem HasKey.mono {k : κ} (h : HasKey key table k) (hsub : table ⊆ rows) :
    HasKey key rows k :=
  h.imp fun _ hr => ⟨hsub hr.1, hr.2⟩

omit [DecidableEq κ] in
theorem exists_sources {β : Type} {R : α → β → Prop} (source : β → κ)
    (hR : ∀ r b, R r b → key r = source b) (h : ∀ r ∈ table, ∃ b, R r b)
    (hnodup : (table.map key).Nodup) : ∃ bs : List β, bs.Nodup ∧ List.Forall₂ R table bs := by
  have hall : ∃ bs : List β, List.Forall₂ R table bs ∧ table.map key = bs.map source := by
    clear hnodup
    induction table with
    | nil => exact ⟨[], .nil, rfl⟩
    | cons r table ih =>
      obtain ⟨⟨b, hb⟩, hrest⟩ := List.forall_mem_cons.mp h
      obtain ⟨bs, hbs, hmap⟩ := ih hrest
      refine ⟨b :: bs, .cons hb hbs, ?_⟩
      rw [List.map_cons, List.map_cons, hR r b hb, hmap]
  obtain ⟨bs, hbs, hmap⟩ := hall
  rw [hmap] at hnodup
  exact ⟨bs, hnodup.of_map, hbs⟩

theorem subset_insertAll : table ⊆ insertAll key rows table := by
  induction rows generalizing table with
  | nil => exact List.Subset.refl table
  | cons a rows ih => exact List.Subset.trans subset_insertOrIgnore ih

theorem insertAll_eq_append (key : α → κ) (rows table : List α) :
    ∃ added, added.Sublist rows ∧ insertAll key rows table = table ++ added := by
  induction rows generalizing table with
  | nil => exact ⟨[], .slnil, (List.append_nil table).symm⟩
  | cons a rows ih =>
    obtain ⟨added, hsub, heq⟩ := ih (insertOrIgnore key a table)
    rw [insertAll, List.foldl_cons, ← insertAll, heq]
    by_cases hkey : HasKey key table (key a)
    · exact ⟨added, hsub.cons a, by rw [insertOrIgnore_of_hasKey hkey]⟩
    · refine ⟨a :: added, hsub.cons_cons a, ?_⟩
      rw [insertOrIgnore_of_new hkey, List.append_assoc, List.singleton_append]

theorem of_mem_insertAll (h : b ∈ insertAll key rows table) : b ∈ table ∨ b ∈ rows := by
  obtain ⟨added, hsub, heq⟩ := insertAll_eq_append key rows table
  rw [heq] at h
  exact (List.mem_append.mp h).imp_right fun hb => hsub.subset hb

theorem hasKey_insertAll (h : a ∈ rows) : HasKey key (insertAll key rows table) (key a) := by
  induction rows generalizing table with
  | nil => cases h
  | cons b rows ih =>
    obtain rfl | h := List.mem_cons.mp h
    · exact hasKey_insertOrIgnore.mono subset_insertAll
    · exact ih h

theorem insertAll_of_nodup (h : ((table ++ rows).map key).Nodup) :
    insertAll key rows table = table ++ rows := by
  induction rows generalizing table with
  | nil => exact (List.append_nil table).symm
  | cons a rows ih =>
    have hnew : ¬ HasKey key table (key a) := by
      rintro ⟨r, hr, hkey⟩
      rw [List.map_append] at h
      exact (List.nodup_append.mp h).2.2 (key r) (List.mem_map_of_mem hr) (key a)
        (List.mem_map_of_mem List.mem_cons_self) hkey
    rw [List.append_cons] at h ⊢
    rw [← ih h, ← insertOrIgnore_of_new hnew]
    rfl

theorem find?_eq_iff {p q : α → Bool} {l : List α}
    (hpq : ∀ x ∈ l, p x = true → q x = true) :
    l.find? p = l.find? q ↔ ∀ x, l.find? q = some x → p x = true := by
  refine ⟨fun h x hx => List.find?_some (h ▸ hx), fun h => ?_⟩
  induction l with
  | nil => rfl
  | cons x l ih =>
    have hrest : ∀ y ∈ l, p y = true → q y = true := fun y hy =>
      hpq y (List.mem_cons_of_mem x hy)
    by_cases hp : p x = true
    · rw [List.find?_cons_of_pos hp, List.find?_cons_of_pos (hpq x List.mem_cons_self hp)]
    · by_cases hq : q x = true
      · exact absurd (h x (List.find?_cons_of_pos hq)) hp
      · rw [List.find?_cons_of_neg hq] at h
        rw [List.find?_cons_of_neg hp, List.find?_cons_of_neg hq]
        exact ih hrest h

theorem find?_eq_iff_behind {p q : α → Bool} {l : List α}
    (hpq : ∀ x ∈ l, p x = true → q x = true) :
    l.find? p = l.find? q ↔ ∀ front x back, l = front ++ x :: back → q x = true →
      p x = false → ∃ y ∈ front, p y = true := by
  rw [find?_eq_iff hpq]
  refine ⟨fun h front x back hl hq hp => ?_, fun h x hx => ?_⟩
  · cases hfind : front.find? q with
    | some y =>
      have hfirst : l.find? q = some y := by
        rw [hl, List.find?_append, hfind, Option.some_or]
      exact ⟨y, List.mem_of_find?_eq_some hfind, h y hfirst⟩
    | none =>
      have hfirst : l.find? q = some x := by
        rw [hl, List.find?_append, hfind, Option.none_or, List.find?_cons_of_pos hq]
      rw [h x hfirst] at hp
      cases hp
  · obtain ⟨hq, front, back, hl, hfront⟩ := List.find?_eq_some_iff_append.mp hx
    by_contra hp
    obtain ⟨y, hy, hpy⟩ := h front x back hl hq (by simpa using hp)
    have hmem : y ∈ l := hl ▸ List.mem_append_left _ hy
    have hnot := hfront y hy
    rw [hpq y hmem hpy] at hnot
    cases hnot

end Suban.Basis.Rows

import Mathlib.Data.List.Basic
import Mathlib.Data.List.Sort
import Mathlib.Order.Basic

namespace Suban.Basis.Pages

section Walk

variable {σ β : Type} {serve : σ → Nat → List β × Bool} {view : σ → List β} {limit offset : Nat}
variable {s : σ} {later states : List σ}

/-- The server answers with the page at the offset of what there is to see, and
says whether there is more behind it. -/
structure Paged (serve : σ → Nat → List β × Bool) (view : σ → List β) (limit : Nat) : Prop where
  rows : ∀ s offset, (serve s offset).1 = ((view s).drop offset).take limit
  more : ∀ s offset, (serve s offset).2 = true ↔ offset + limit < (view s).length

/-- A client asks for one page after the other until it is told that there is
no more. Each request meets the server in a state of its own. -/
def walk (serve : σ → Nat → List β × Bool) (limit : Nat) : Nat → List σ → List β × Bool
  | _, [] => ([], false)
  | offset, s :: later =>
    let (page, more) := serve s offset
    if more then
      let (rest, ended) := walk serve limit (offset + limit) later
      (page ++ rest, ended)
    else (page, true)

/-- What there is to see never goes away. -/
def Growing (view : σ → List β) (states : List σ) : Prop :=
  states.Pairwise (fun s t => (view s).Sublist (view t))

theorem walk_more (hp : Paged serve view limit) (h : offset + limit < (view s).length)
    (later : List σ) : walk serve limit offset (s :: later) =
      (((view s).drop offset).take limit ++ (walk serve limit (offset + limit) later).1,
        (walk serve limit (offset + limit) later).2) := by
  simp only [walk, (hp.more s offset).mpr h, hp.rows, if_true]

theorem walk_last (hp : Paged serve view limit) (h : (view s).length ≤ offset + limit)
    (later : List σ) :
    walk serve limit offset (s :: later) = ((view s).drop offset, true) := by
  have hmore : ¬ (serve s offset).2 = true := fun hm =>
    absurd ((hp.more s offset).mp hm) (not_lt.mpr h)
  have hshort : ((view s).drop offset).length ≤ limit := by
    rw [List.length_drop]
    omega
  simp only [walk, if_neg hmore, hp.rows, List.take_of_length_le hshort]

/-- A walk to the end has seen everything that there was when it began, in order. -/
theorem walk_covers (hp : Paged serve view limit) (hgrow : Growing view (s :: later))
    (hend : (walk serve limit offset (s :: later)).2 = true) :
    ((view s).drop offset).Sublist (walk serve limit offset (s :: later)).1 := by
  induction later generalizing s offset with
  | nil =>
    by_cases h : offset + limit < (view s).length
    · rw [walk_more hp h] at hend
      cases hend
    · rw [walk_last hp (not_lt.mp h)]
  | cons t later ih =>
    by_cases h : offset + limit < (view s).length
    · rw [walk_more hp h] at hend ⊢
      obtain ⟨hnext, hrest⟩ := List.pairwise_cons.mp hgrow
      have hlater : ((view s).drop (offset + limit)).Sublist
          (walk serve limit (offset + limit) (t :: later)).1 :=
        ((hnext t List.mem_cons_self).drop (offset + limit)).trans (ih hrest hend)
      -- what is behind the page can only have moved further back
      have hsplit : (view s).drop offset =
          ((view s).drop offset).take limit ++ (view s).drop (offset + limit) := by
        rw [← List.drop_drop, List.take_append_drop]
      conv_lhs => rw [hsplit]
      exact (List.Sublist.refl _).append hlater
    · rw [walk_last hp (not_lt.mp h)]

theorem walk_genuine (hp : Paged serve view limit) {b : β}
    (hb : b ∈ (walk serve limit offset states).1) : ∃ s ∈ states, b ∈ view s := by
  induction states generalizing offset with
  | nil => cases hb
  | cons s later ih =>
    by_cases h : offset + limit < (view s).length
    · rw [walk_more hp h] at hb
      obtain hb | hb := List.mem_append.mp hb
      · exact ⟨s, List.mem_cons_self, List.mem_of_mem_drop (List.mem_of_mem_take hb)⟩
      · obtain ⟨t, ht, hmem⟩ := ih hb
        exact ⟨t, List.mem_cons_of_mem s ht, hmem⟩
    · rw [walk_last hp (not_lt.mp h)] at hb
      exact ⟨s, List.mem_cons_self, List.mem_of_mem_drop hb⟩

/-- A list that is no longer than all the pages together comes to an end. -/
theorem walk_ends (hp : Paged serve view limit) (hne : states ≠ [])
    (hlength : ∀ s ∈ states, (view s).length ≤ offset + states.length * limit) :
    (walk serve limit offset states).2 = true := by
  induction states generalizing offset with
  | nil => exact absurd rfl hne
  | cons s later ih =>
    by_cases h : offset + limit < (view s).length
    · have hrest : ∀ t ∈ s :: later, (view t).length ≤ offset + limit + later.length * limit := by
        intro t ht
        refine (hlength t ht).trans ?_
        rw [List.length_cons, Nat.succ_mul, Nat.add_assoc, Nat.add_comm limit]
      have hlater : later ≠ [] := by
        rintro rfl
        have hlast := hrest s List.mem_cons_self
        simp only [List.length_nil, Nat.zero_mul, Nat.add_zero] at hlast
        omega
      rw [walk_more hp h]
      exact ih hlater fun t ht => hrest t (List.mem_cons_of_mem s ht)
    · rw [walk_last hp (not_lt.mp h)]

/-- As long as nothing changes, everything is seen once. -/
theorem walk_still (hp : Paged serve view limit) {v : List β} (hv : ∀ s ∈ states, view s = v)
    (hend : (walk serve limit offset states).2 = true) :
    (walk serve limit offset states).1 = v.drop offset := by
  induction states generalizing offset with
  | nil => cases hend
  | cons s later ih =>
    obtain ⟨rfl, hrest⟩ := List.forall_mem_cons.mp hv
    by_cases h : offset + limit < (view s).length
    · rw [walk_more hp h] at hend ⊢
      dsimp only
      rw [ih hrest hend, ← List.drop_drop, List.take_append_drop]
    · rw [walk_last hp (not_lt.mp h)]

/-- What a walk through the pages is good for, from the first state on. -/
structure Walked (view : σ → List β) (limit : Nat) (states : List σ) (result : List β × Bool) :
    Prop where
  genuine : ∀ b ∈ result.1, ∃ s ∈ states, b ∈ view s
  covers : result.2 = true → ∀ s ∈ states.head?, (view s).Sublist result.1
  still : result.2 = true → ∀ v, (∀ s ∈ states, view s = v) → result.1 = v
  ends : states ≠ [] → (∀ s ∈ states, (view s).length ≤ states.length * limit) → result.2 = true

theorem walked (hp : Paged serve view limit) (hgrow : Growing view states) :
    Walked view limit states (walk serve limit 0 states) where
  genuine _ hb := walk_genuine hp hb
  covers hend s hs := by
    obtain ⟨later, rfl⟩ := List.head?_eq_some_iff.mp hs
    exact walk_covers hp hgrow hend
  still hend _ hv := walk_still hp hv hend
  ends hne hlength := walk_ends hp hne fun s hs => by
    rw [Nat.zero_add]
    exact hlength s hs

end Walk

section Mapping

variable {α β : Type} {f : α → Option β} {l : List α}

theorem length_filterMap_of_isSome (h : ∀ a ∈ l, (f a).isSome) :
    (l.filterMap f).length = l.length := by
  induction l with
  | nil => rfl
  | cons a l ih =>
    obtain ⟨ha, hl⟩ := List.forall_mem_cons.mp h
    obtain ⟨b, hb⟩ := Option.isSome_iff_exists.mp ha
    rw [List.filterMap_cons_some hb, List.length_cons, List.length_cons, ih hl]

/-- Where every entry is kept, it does not matter whether a page is cut first. -/
theorem filterMap_page (h : ∀ a ∈ l, (f a).isSome) (offset limit : Nat) :
    ((l.drop offset).take limit).filterMap f = ((l.filterMap f).drop offset).take limit := by
  induction l generalizing offset limit with
  | nil => simp
  | cons a l ih =>
    obtain ⟨ha, hl⟩ := List.forall_mem_cons.mp h
    obtain ⟨b, hb⟩ := Option.isSome_iff_exists.mp ha
    rw [List.filterMap_cons_some hb]
    cases offset with
    | succ offset => exact ih hl offset limit
    | zero =>
      cases limit with
      | zero => rfl
      | succ limit =>
        have hrest := ih hl 0 limit
        simp only [List.drop_zero, List.take_succ_cons] at hrest ⊢
        rw [List.filterMap_cons_some hb, hrest]

end Mapping

section Sorting

variable {α : Type} {r : α → α → Prop} [DecidableRel r] {l m : List α}

theorem orderedInsert_eq_filter [IsTrans α r] (a : α) (h : l.Pairwise r) :
    l.orderedInsert r a = l.filter (fun b => ¬ r a b) ++ a :: l.filter (fun b => r a b) := by
  induction l with
  | nil => rfl
  | cons b l ih =>
    obtain ⟨hb, hrest⟩ := List.pairwise_cons.mp h
    by_cases hab : r a b
    · have hall : ∀ c ∈ b :: l, r a c :=
        List.forall_mem_cons.mpr ⟨hab, fun c hc => IsTrans.trans a b c hab (hb c hc)⟩
      have hnone : (b :: l).filter (fun c => ¬ r a c) = [] := by
        rw [List.filter_eq_nil_iff]
        intro c hc
        simpa using hall c hc
      have hsome : (b :: l).filter (fun c => r a c) = b :: l := by
        rw [List.filter_eq_self]
        intro c hc
        simpa using hall c hc
      rw [hnone, hsome, List.orderedInsert_cons, if_pos hab]
      rfl
    · rw [List.orderedInsert_cons, if_neg hab, ih hrest]
      simp [hab]

/-- The sort is stable, so what is added to a list leaves the order of the rest. -/
theorem insertionSort_sublist (htotal : ∀ a b, r a b ∨ r b a)
    (htrans : ∀ a b c, r a b → r b c → r a c) (h : l.Sublist m) :
    (l.insertionSort r).Sublist (m.insertionSort r) := by
  have : Std.Total r := ⟨htotal⟩
  have : IsTrans α r := ⟨htrans⟩
  induction h with
  | slnil => exact List.Sublist.refl _
  | cons a _ ih => exact ih.trans (List.sublist_orderedInsert a _)
  | cons_cons a _ ih =>
    rw [List.insertionSort_cons, List.insertionSort_cons,
      orderedInsert_eq_filter a (List.pairwise_insertionSort r _),
      orderedInsert_eq_filter a (List.pairwise_insertionSort r _)]
    exact (ih.filter _).append ((ih.filter _).cons_cons a)

end Sorting

end Suban.Basis.Pages

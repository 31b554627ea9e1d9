import Mathlib.Data.List.Sort
import Mathlib.Order.Basic

namespace Suban.Basis.Spans

variable {α κ : Type} [LinearOrder κ] {key : α → κ} {first last current : κ}
variable {l added : List α}

/-- What has a key after the first bound, up to the last one. -/
def window (key : α → κ) (first last : κ) (l : List α) : List α :=
  l.filter (fun a => first < key a ∧ key a ≤ last)

def Ordered (key : α → κ) (l : List α) : Prop := l.Pairwise (fun a b => key a ≤ key b)

theorem mem_window {a : α} :
    a ∈ window key first last l ↔ a ∈ l ∧ first < key a ∧ key a ≤ last := by
  simp [window]

theorem window_nil (h : last ≤ first) (l : List α) : window key first last l = [] := by
  refine List.eq_nil_iff_forall_not_mem.mpr fun a ha => ?_
  obtain ⟨-, hfirst, hlast⟩ := mem_window.mp ha
  exact absurd (hfirst.trans_le (hlast.trans h)) (lt_irrefl first)

theorem window_append (l added : List α) :
    window key first last (l ++ added) = window key first last l ++ window key first last added :=
  List.filter_append l added

theorem window_append_later (h : ∀ a ∈ added, last < key a) (l : List α) :
    window key first last (l ++ added) = window key first last l := by
  have hnone : window key first last added = [] := by
    refine List.eq_nil_iff_forall_not_mem.mpr fun a ha => ?_
    obtain ⟨hmem, -, hlast⟩ := mem_window.mp ha
    exact absurd (h a hmem) (not_lt.mpr hlast)
  rw [window_append, hnone, List.append_nil]

theorem window_split (hl : Ordered key l) (hfirst : first ≤ last) (hlast : last ≤ current) :
    window key first current l = window key first last l ++ window key last current l := by
  induction l with
  | nil => rfl
  | cons a l ih =>
    obtain ⟨ha, hrest⟩ := List.pairwise_cons.mp hl
    have ih := ih hrest
    by_cases hold : key a ≤ last
    · have hout : ¬ (last < key a ∧ key a ≤ current) := fun h => absurd h.1 (not_lt.mpr hold)
      have hsame : (first < key a ∧ key a ≤ current) ↔ (first < key a ∧ key a ≤ last) :=
        and_congr_right fun _ => iff_of_true (hold.trans hlast) hold
      simp only [window, List.filter_cons, hsame, decide_eq_true_eq, if_neg hout] at ih ⊢
      split
      · rw [ih, List.cons_append]
      · exact ih
    · -- everything from here on is after the first window
      have hafter : window key first last (a :: l) = [] := by
        refine List.eq_nil_iff_forall_not_mem.mpr fun b hb => ?_
        obtain ⟨hmem, -, hle⟩ := mem_window.mp hb
        obtain rfl | hmem := List.mem_cons.mp hmem
        · exact hold hle
        · exact hold ((ha b hmem).trans hle)
      rw [hafter, List.nil_append]
      refine List.filter_congr fun b hb => ?_
      have hlater : last < key b := by
        obtain rfl | hmem := List.mem_cons.mp hb
        · exact not_le.mp hold
        · exact (not_le.mp hold).trans_le (ha b hmem)
      exact decide_eq_decide.mpr
        (and_congr_left fun _ => iff_of_true (hfirst.trans_lt hlater) hlater)

theorem Ordered.append {k : κ} (hl : Ordered key l) (hle : ∀ a ∈ l, key a ≤ k)
    (hadded : ∀ a ∈ added, key a = k) : Ordered key (l ++ added) := by
  refine List.pairwise_append.mpr ⟨hl, ?_, ?_⟩
  · exact List.pairwise_of_forall_mem_list fun a ha b hb =>
      ((hadded a ha).trans (hadded b hb).symm).le
  · intro a ha b hb
    rw [hadded b hb]
    exact hle a ha

end Suban.Basis.Spans

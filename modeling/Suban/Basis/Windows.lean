import Mathlib.Algebra.BigOperators.Group.List.Basic
import Mathlib.Algebra.Order.BigOperators.Group.List
import Mathlib.Algebra.Order.Ring.Int
import Mathlib.Tactic.Linarith

namespace Suban.Basis.Windows

/-- An amount that was let through, with its time and the start of the window
that it was counted in. -/
structure Entry where
  start : Nat
  time : Nat
  amount : Int

def volume (p : Entry → Prop) [DecidablePred p] (l : List Entry) : Int :=
  ((l.filter p).map Entry.amount).sum

variable {p q r : Entry → Prop} [DecidablePred p] [DecidablePred q] [DecidablePred r]
variable {l : List Entry} {e : Entry} {width start time v : Nat} {cap used amount : Int}

@[simp] theorem volume_nil : volume p [] = 0 := rfl

theorem volume_cons (e : Entry) (l : List Entry) :
    volume p (e :: l) = (if p e then e.amount else 0) + volume p l := by
  by_cases h : p e <;> simp [volume, h]

theorem volume_eq_zero (h : ∀ e ∈ l, ¬ p e) : volume p l = 0 := by
  induction l with
  | nil => rfl
  | cons e l ih =>
    obtain ⟨he, hl⟩ := List.forall_mem_cons.mp h
    rw [volume_cons, if_neg he, ih hl, zero_add]

theorem volume_le_add (hpos : ∀ e ∈ l, 0 ≤ e.amount) (h : ∀ e ∈ l, p e → q e ∨ r e) :
    volume p l ≤ volume q l + volume r l := by
  induction l with
  | nil => simp
  | cons e l ih =>
    obtain ⟨hamount, hpos⟩ := List.forall_mem_cons.mp hpos
    obtain ⟨he, h⟩ := List.forall_mem_cons.mp h
    have hrest := ih hpos h
    simp only [volume_cons]
    by_cases hp : p e
    · obtain hq | hr := he hp
      · rw [if_pos hp, if_pos hq]
        split <;> linarith
      · rw [if_pos hp, if_pos hr]
        split <;> linarith
    · rw [if_neg hp]
      split <;> split <;> linarith

/-- The entries that a limiter lets through from a state on, in which a window
is open with some of the cap used: windows of one width open one after the
other, and each takes in no more than the cap. -/
structure Limited (width : Nat) (cap : Int) (start : Nat) (used : Int) (l : List Entry) : Prop where
  inside : ∀ e ∈ l, e.start ≤ e.time ∧ e.time < e.start + width
  positive : ∀ e ∈ l, 0 ≤ e.amount
  later : ∀ e ∈ l, e.start = start ∨ start + width ≤ e.start
  apart : ∀ e ∈ l, ∀ f ∈ l, e.start < f.start → e.start + width ≤ f.start
  current : volume (fun e => e.start = start) l ≤ cap - used
  others : ∀ v, v ≠ start → volume (fun e => e.start = v) l ≤ cap

theorem limited_nil (h0 : 0 ≤ cap) (hused : used ≤ cap) : Limited width cap start used [] where
  inside _ h := absurd h List.not_mem_nil
  positive _ h := absurd h List.not_mem_nil
  later _ h := absurd h List.not_mem_nil
  apart _ h := absurd h List.not_mem_nil
  current := sub_nonneg.mpr hused
  others _ _ := h0

theorem apart_cons (hlater : ∀ f ∈ l, f.start = e.start ∨ e.start + width ≤ f.start)
    (hapart : ∀ e ∈ l, ∀ f ∈ l, e.start < f.start → e.start + width ≤ f.start) :
    ∀ f ∈ e :: l, ∀ g ∈ e :: l, f.start < g.start → f.start + width ≤ g.start := by
  intro f hf g hg hlt
  obtain rfl | hfl := List.mem_cons.mp hf
  · obtain rfl | hgl := List.mem_cons.mp hg
    · exact absurd hlt (lt_irrefl _)
    · exact (hlater g hgl).resolve_left hlt.ne'
  · obtain rfl | hgl := List.mem_cons.mp hg
    · obtain heq | hle := hlater f hfl <;> omega
    · exact hapart f hfl g hgl hlt

theorem Limited.count (h : Limited width cap start (used + amount) l) (hstart : start ≤ time)
    (htime : time < start + width) (hamount : 0 ≤ amount) :
    Limited width cap start used (⟨start, time, amount⟩ :: l) where
  inside := List.forall_mem_cons.mpr ⟨⟨hstart, htime⟩, h.inside⟩
  positive := List.forall_mem_cons.mpr ⟨hamount, h.positive⟩
  later := List.forall_mem_cons.mpr ⟨.inl rfl, h.later⟩
  apart := apart_cons h.later h.apart
  current := by
    have hcurrent := h.current
    rw [volume_cons, if_pos rfl]
    linarith
  others v hv := by
    rw [volume_cons, if_neg hv.symm, zero_add]
    exact h.others v hv

theorem Limited.reopen (h : Limited width cap time amount l) (hwidth : 0 < width)
    (hover : start + width ≤ time) (hamount : 0 ≤ amount) (hused : used ≤ cap) :
    Limited width cap start used (⟨time, time, amount⟩ :: l) where
  inside := List.forall_mem_cons.mpr ⟨⟨le_rfl, Nat.lt_add_of_pos_right hwidth⟩, h.inside⟩
  positive := List.forall_mem_cons.mpr ⟨hamount, h.positive⟩
  later := by
    refine List.forall_mem_cons.mpr ⟨.inr hover, fun e he => ?_⟩
    obtain heq | hle := h.later e he <;> omega
  apart := apart_cons h.later h.apart
  current := by
    rw [volume_eq_zero]
    · exact sub_nonneg.mpr hused
    · refine List.forall_mem_cons.mpr ⟨by simp only; omega, fun e he => ?_⟩
      obtain heq | hle := h.later e he <;> omega
  others v hv := by
    rw [volume_cons]
    by_cases htime : time = v
    · have hcurrent := h.current
      subst htime
      rw [if_pos rfl]
      linarith
    · rw [if_neg htime, zero_add]
      exact h.others v (Ne.symm htime)

theorem Limited.window_le (h : Limited width cap start used l) (h0 : 0 ≤ used) (v : Nat) :
    volume (fun e => e.start = v) l ≤ cap := by
  by_cases hv : v = start
  · rw [hv]
    exact h.current.trans (sub_le_self cap h0)
  · exact h.others v hv

/-- A stretch of time as long as a window meets two windows at most. -/
theorem Limited.sliding_le (h : Limited width cap start used l) (h0 : 0 ≤ used) (hused : used ≤ cap)
    (n : Nat) : volume (fun e => n ≤ e.time ∧ e.time < n + width) l ≤ 2 * cap := by
  have hcap : 0 ≤ cap := h0.trans hused
  by_cases hnone : ∃ e ∈ l, n ≤ e.time ∧ e.time < n + width
  · obtain ⟨e, he, hetime⟩ := hnone
    have hewindow := h.inside e he
    by_cases hsecond : ∃ f ∈ l, (n ≤ f.time ∧ f.time < n + width) ∧ f.start ≠ e.start
    · obtain ⟨f, hf, hftime, hne⟩ := hsecond
      have hfwindow := h.inside f hf
      have hef := h.apart e he f hf
      have hfe := h.apart f hf e he
      have htwo : ∀ g ∈ l, n ≤ g.time ∧ g.time < n + width →
          g.start = e.start ∨ g.start = f.start := by
        intro g hg hgtime
        have hgwindow := h.inside g hg
        by_contra hneither
        rw [not_or] at hneither
        have hge := h.apart g hg e he
        have heg := h.apart e he g hg
        have hgf := h.apart g hg f hf
        have hfg := h.apart f hf g hg
        omega
      have hle := volume_le_add h.positive htwo
      have hwe := h.window_le h0 e.start
      have hwf := h.window_le h0 f.start
      linarith
    · have hone : ∀ g ∈ l, n ≤ g.time ∧ g.time < n + width →
          g.start = e.start ∨ g.start = e.start := by
        intro g hg hgtime
        exact .inl (not_not.mp fun hne => hsecond ⟨g, hg, hgtime, hne⟩)
      have hle := volume_le_add h.positive hone
      have hwe := h.window_le h0 e.start
      linarith
  · rw [volume_eq_zero fun e he hp => hnone ⟨e, he, hp⟩]
    linarith

end Suban.Basis.Windows

import Suban.Basis.Runs

namespace Suban.Basis.Twins

open Suban.Basis.Runs

/-- A call of two runs that are set side by side: both make it, or only one of
them does. -/
inductive Move (ι : Type) where
  | both (i : ι)
  | first (i : ι)
  | second (i : ι)

variable {σ ι δ : Type}

def firsts : List (Move ι) → List ι
  | [] => []
  | .both i :: ms => i :: firsts ms
  | .first i :: ms => i :: firsts ms
  | .second _ :: ms => firsts ms

def seconds : List (Move ι) → List ι
  | [] => []
  | .both i :: ms => i :: seconds ms
  | .first _ :: ms => seconds ms
  | .second i :: ms => i :: seconds ms

variable (step : σ → ι → Except δ σ)

/-- The two runs as one system. A call that both make is accepted if it is in
both of them. -/
def twin (x : σ × σ) : Move ι → Except δ (σ × σ)
  | .both i => step x.1 i >>= fun s => step x.2 i >>= fun t => .ok (s, t)
  | .first i => step x.1 i >>= fun s => .ok (s, x.2)
  | .second i => step x.2 i >>= fun t => .ok (x.1, t)

/-- A call that both runs make is accepted in both of them or in none. -/
def Even (x : σ × σ) : Move ι → Prop
  | .both i => (∃ s, step x.1 i = .ok s) ↔ ∃ t, step x.2 i = .ok t
  | .first _ => True
  | .second _ => True

def Matched : σ × σ → List (Move ι) → Prop
  | _, [] => True
  | x, m :: ms => Even step x m ∧ Matched (next (twin step) x m) ms

/-- Each run meets the condition when it moves. -/
def Each (C : σ → ι → Prop) (x : σ × σ) : Move ι → Prop
  | .both i => C x.1 i ∧ C x.2 i
  | .first i => C x.1 i
  | .second i => C x.2 i

def Alone (C : σ → ι → Prop) (x : σ × σ) : Move ι → Prop
  | .both _ => True
  | .first i => C x.1 i
  | .second i => C x.2 i

variable {step} {x y : σ × σ} {i : ι} {ms : List (Move ι)}

theorem twin_both :
    twin step x (.both i) = .ok y ↔ step x.1 i = .ok y.1 ∧ step x.2 i = .ok y.2 := by
  obtain ⟨s, t⟩ := y
  cases hs : step x.1 i <;> cases ht : step x.2 i <;>
    simp [twin, hs, ht, bind, Except.bind]

theorem twin_first : twin step x (.first i) = .ok y ↔ step x.1 i = .ok y.1 ∧ x.2 = y.2 := by
  obtain ⟨s, t⟩ := y
  cases hs : step x.1 i <;> simp [twin, hs, bind, Except.bind]

theorem twin_second : twin step x (.second i) = .ok y ↔ x.1 = y.1 ∧ step x.2 i = .ok y.2 := by
  obtain ⟨s, t⟩ := y
  cases ht : step x.2 i <;> simp [twin, ht, bind, Except.bind]

theorem next_both (h : Even step x (.both i)) :
    next (twin step) x (.both i) = (next step x.1 i, next step x.2 i) := by
  cases hs : step x.1 i with
  | ok s =>
    obtain ⟨t, ht⟩ := h.mp ⟨s, hs⟩
    have hy : twin step x (.both i) = .ok (s, t) := twin_both.mpr ⟨hs, ht⟩
    rw [next_ok hs, next_ok ht, next_ok hy]
  | error e =>
    cases ht : step x.2 i with
    | ok t =>
      obtain ⟨s, hs'⟩ := h.mpr ⟨t, ht⟩
      cases hs.symm.trans hs'
    | error e' =>
      rw [next_error hs, next_error ht]
      exact next_error (e := e) (by simp [twin, hs, bind, Except.bind])

theorem next_first : next (twin step) x (.first i) = (next step x.1 i, x.2) := by
  cases hs : step x.1 i with
  | ok s =>
    have hy : twin step x (.first i) = .ok (s, x.2) := twin_first.mpr ⟨hs, rfl⟩
    rw [next_ok hs, next_ok hy]
  | error e =>
    rw [next_error hs]
    exact next_error (e := e) (by simp [twin, hs, bind, Except.bind])

theorem next_second : next (twin step) x (.second i) = (x.1, next step x.2 i) := by
  cases ht : step x.2 i with
  | ok t =>
    have hy : twin step x (.second i) = .ok (x.1, t) := twin_second.mpr ⟨rfl, ht⟩
    rw [next_ok ht, next_ok hy]
  | error e =>
    rw [next_error ht]
    exact next_error (e := e) (by simp [twin, ht, bind, Except.bind])

theorem run_twin (h : Matched step x ms) :
    run (twin step) x ms = (run step x.1 (firsts ms), run step x.2 (seconds ms)) := by
  induction ms generalizing x with
  | nil => rfl
  | cons m ms ih =>
    have hrest : run (twin step) x (m :: ms) = run (twin step) (next (twin step) x m) ms := rfl
    rw [hrest, ih h.2]
    cases m with
    | both i => rw [next_both h.1]; rfl
    | first i => rw [next_first]; rfl
    | second i => rw [next_second]; rfl

theorem along_twin {C : σ → ι → Prop} (h : Matched step x ms)
    (hfirst : Along step C x.1 (firsts ms)) (hsecond : Along step C x.2 (seconds ms)) :
    Along (twin step) (Each C) x ms := by
  induction ms generalizing x with
  | nil => trivial
  | cons m ms ih =>
    cases m with
    | both i =>
      refine ⟨fun y hy => ?_, ih h.2 ?_ ?_⟩
      · obtain ⟨hs, ht⟩ := twin_both.mp hy
        exact ⟨hfirst.1 _ hs, hsecond.1 _ ht⟩
      · rw [next_both h.1]
        exact hfirst.2
      · rw [next_both h.1]
        exact hsecond.2
    | first i =>
      refine ⟨fun y hy => hfirst.1 _ (twin_first.mp hy).1, ih h.2 ?_ ?_⟩
      · rw [next_first]
        exact hfirst.2
      · rw [next_first]
        exact hsecond
    | second i =>
      refine ⟨fun y hy => hsecond.1 _ (twin_second.mp hy).2, ih h.2 ?_ ?_⟩
      · rw [next_second]
        exact hfirst
      · rw [next_second]
        exact hsecond.2

end Suban.Basis.Twins

import Suban.Basis.Calls

namespace Suban.Basis.Iteration

open Suban.Basis.Calls

variable {α ε : Type}

/-- Improves a guess until two guesses are close, for so many rounds at most. -/
def iterate (next : α → Outcome ε α) (close : α → α → Bool) : Nat → α → Outcome ε α
  | 0, d => pure d
  | rounds + 1, d => do
    let e ← next d
    if close e d then pure e else iterate next close rounds e

variable {next : α → Outcome ε α} {close : α → α → Bool} {rounds : Nat} {d w : α}

/-- What a round keeps of a guess, given the number of rounds that are left, leads
to what the last guess has. -/
theorem iterate_rule {I : Nat → α → Prop} {R : α → Prop} (hout : ∀ d, I 0 d → R d)
    (hstop : ∀ rounds d e, I (rounds + 1) d → next d = .ok e → close e d = true → R e)
    (hgo : ∀ rounds d e, I (rounds + 1) d → next d = .ok e → close e d = false → I rounds e)
    (hd : I rounds d) (h : iterate next close rounds d = .ok w) : R w := by
  induction rounds generalizing d with
  | zero =>
    cases pure_eq_ok.mp h
    exact hout _ hd
  | succ rounds ih =>
    simp only [iterate, bind_eq_ok] at h
    obtain ⟨e, he, h⟩ := h
    by_cases hclose : close e d = true
    · rw [if_pos hclose, pure_eq_ok] at h
      exact h ▸ hstop rounds d e hd he hclose
    · rw [if_neg hclose] at h
      exact ih (hgo rounds d e hd he (by simpa using hclose)) h

theorem iterate_last {I : α → Prop} (hstep : ∀ d e, I d → next d = .ok e → I e) (hd : I d)
    (h : iterate next close (rounds + 1) d = .ok w) : ∃ e, I e ∧ next e = .ok w := by
  refine iterate_rule (I := fun rounds d => I d ∧ (rounds = 0 → ∃ e, I e ∧ next e = .ok d))
    (fun _ hd => hd.2 rfl) (fun _ d _ hd he _ => ⟨d, hd.1, he⟩) ?_ ⟨hd, by omega⟩ h
  exact fun _ d e hd he _ => ⟨hstep d e hd.1 he, fun _ => ⟨d, hd.1, he⟩⟩

theorem iterate_ne_error {I : α → Prop} {f : Failure ε} (hnext : ∀ d, I d → next d ≠ .error f)
    (hgo : ∀ d e, I d → next d = .ok e → close e d = false → I e) (hd : I d) :
    iterate next close rounds d ≠ .error f := by
  induction rounds generalizing d with
  | zero => exact pure_ne_error d f
  | succ rounds ih =>
    refine bind_ne_error (hnext d hd) fun e he => ?_
    by_cases hclose : close e d = true
    · rw [if_pos hclose]
      exact pure_ne_error e f
    · rw [if_neg hclose]
      exact ih (hgo d e hd he (by simpa using hclose))

/-- The same rounds, with a result only where two guesses are close. -/
def settle (next : α → Outcome ε α) (close : α → α → Bool) : Nat → α → Outcome ε (Option α)
  | 0, _ => pure none
  | rounds + 1, d => do
    let e ← next d
    if close e d then pure (some e) else settle next close rounds e

/-- The rounds settle when each that is reached, with some left, ends them well or
leads to another of the kind. -/
theorem settle_rule {I : Nat → α → Prop} {R : α → Prop} (hnone : ∀ d, ¬ I 0 d)
    (hstep : ∀ rounds d e, I (rounds + 1) d → next d = .ok e →
      if close e d then R e else I rounds e)
    (hd : I rounds d) (h : iterate next close rounds d = .ok w) :
    settle next close rounds d = .ok (some w) ∧ R w := by
  induction rounds generalizing d with
  | zero => exact absurd hd (hnone d)
  | succ rounds ih =>
    obtain ⟨e, he, h⟩ := bind_eq_ok.mp h
    have hround := hstep rounds d e hd he
    rw [settle, he, ok_bind]
    by_cases hclose : close e d = true
    · rw [if_pos hclose, pure_eq_ok] at h
      rw [if_pos hclose] at hround ⊢
      exact ⟨by rw [h]; rfl, h ▸ hround⟩
    · rw [if_neg hclose] at h hround ⊢
      exact ih hround h

theorem iterate_of_settle (h : settle next close rounds d = .ok (some w)) :
    iterate next close rounds d = .ok w := by
  induction rounds generalizing d with
  | zero => cases h
  | succ rounds ih =>
    obtain ⟨e, he, h⟩ := bind_eq_ok.mp h
    rw [iterate, he, ok_bind]
    by_cases hclose : close e d = true
    · rw [if_pos hclose] at h ⊢
      cases h
      rfl
    · rw [if_neg hclose] at h ⊢
      exact ih h

end Suban.Basis.Iteration

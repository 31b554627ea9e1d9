import Suban.Basis.Runs
import Suban.Soroban.Host

namespace Suban.Soroban.Ledgers

open Suban.Basis.Runs Suban.Soroban.Host

variable {Address W C σ δ γ : Type} {contract : Address}

def OnTime (ledger : Nat) : Input Address W contract C → Prop
  | .call env _ => ledger ≤ env.sequence
  | .world _ => True

/-- The ledgers of the calls do not run back. -/
def InOrder : Nat → List (Input Address W contract C) → Prop
  | _, [] => True
  | ledger, .world _ :: is => InOrder ledger is
  | ledger, .call env _ :: is => ledger ≤ env.sequence ∧ InOrder env.sequence is

def clock (ledger : Nat) : σ × Input Address W contract C × σ → Nat
  | (_, .call env _, _) => env.sequence
  | (_, .world _, _) => ledger

theorem inOrder_mono {m n : Nat} (hle : m ≤ n) {is : List (Input Address W contract C)}
    (h : InOrder n is) : InOrder m is := by
  induction is with
  | nil => trivial
  | cons i is ih =>
    cases i with
    | world w => exact ih h
    | call env c => exact ⟨hle.trans h.1, h.2⟩

theorem along_onTime {step : σ → Input Address W contract C → Except δ σ}
    {note : γ → σ × Input Address W contract C × σ → γ} {L : γ → Nat}
    (hclock : ∀ g x, L (note g x) = clock (L g) x) {x : σ × γ}
    {is : List (Input Address W contract C)} (h : InOrder (L x.2) is) :
    Along (noted step note) (fun x => OnTime (L x.2)) x is := by
  induction is generalizing x with
  | nil => trivial
  | cons i is ih =>
    refine ⟨fun y hy => ?_, ih ?_⟩
    · cases i with
      | world w => trivial
      | call env c => exact h.1
    · cases hi : noted step note x i with
      | error e =>
        rw [next_error hi]
        cases i with
        | world w => exact h
        | call env c => exact inOrder_mono h.1 h.2
      | ok y =>
        obtain ⟨t, -, rfl⟩ := noted_eq_ok.mp hi
        rw [next_ok hi, hclock]
        cases i with
        | world w => exact h
        | call env c => exact h.2

end Suban.Soroban.Ledgers

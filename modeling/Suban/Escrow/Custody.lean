import Suban.Basis.Runs
import Suban.Escrow.Transitions

namespace Suban.Escrow.Custody

open Suban.Basis.Calls Suban.Basis.Tables Suban.Basis.Runs Suban.Soroban.Host Suban.Hub.Types
open Suban.Escrow.Contract Suban.Escrow.Transitions

variable {Address W : Type} [DecidableEq Address] {contract : Address}
variable {T : Sep41 Address W} {env : Env Address contract} {s t : Storage Address W}
variable {st st' : EscrowState Address}

def remainingIn (asset : Address) (st : EscrowState Address) : Int :=
  if st.config.asset = asset then remaining st else 0

def owed (s : Storage Address W) (asset : Address) : Int :=
  total (remainingIn asset) s.escrowState

structure Solvent (T : Sep41 Address W) (contract : Address) (s : Storage Address W) : Prop where
  released : Each (fun st => 0 ≤ st.totalReleased ∧ st.totalReleased ≤ st.totalDeposited) s
  covered : ∀ asset, owed s asset ≤ T.balance s.world asset contract
  payable : ∀ id st n, getEscrow s id = .ok st → remainingBalance s id = .ok n →
    n ≤ T.balance s.world st.config.asset contract

/-- Nobody but the contract takes its tokens. -/
def Undisturbed (T : Sep41 Address W) (s : Storage Address W) :
    Input Address W contract (Call Address) → Prop
  | .call _ _ => True
  | .world w => ∀ asset, T.balance s.world asset contract ≤ T.balance w asset contract

structure InRange (st : EscrowState Address) : Prop where
  released_nonneg : 0 ≤ st.totalReleased
  released_le : st.totalReleased ≤ st.totalDeposited
  deposited_le : st.totalDeposited ≤ maxI128

structure Kept (T : Sep41 Address W) (contract : Address) (s : Storage Address W) : Prop where
  numbered : Numbered s
  inRange : Each InRange s
  covered : ∀ asset, owed s asset ≤ T.balance s.world asset contract

omit [DecidableEq Address] in
theorem inRange_move {id : Nat} {c : Call Address} {p : Payment Address}
    (h : Move env id st c p st') (hs : InRange st) : InRange st' := by
  obtain ⟨h0, hle, hmax⟩ := hs
  cases h with
  | fund n ha hn hmax' => exact ⟨h0, by dsimp only; omega, hmax'⟩
  | submit | approve | reject | dispute => exact ⟨h0, hle, hmax⟩
  | release n ha hn hpos hn' => exact ⟨by dsimp only; omega, by dsimp only; omega, hmax⟩
  | refund n ha hn hpos => exact ⟨by dsimp only; omega, by dsimp only; omega, hmax⟩
  | resolve outcome n recipient status hd ha hn hpos =>
    exact ⟨by dsimp only; omega, by dsimp only; omega, hmax⟩

theorem remainingIn_nonneg (h : InRange st) (asset : Address) : 0 ≤ remainingIn asset st := by
  unfold remainingIn
  split
  · exact sub_nonneg.mpr h.released_le
  · exact le_rfl

omit [DecidableEq Address] in
theorem inRange_opened (id : Nat) (config : EscrowConfig Address) : InRange (opened id config) :=
  ⟨le_rfl, le_rfl, by simp [opened, maxI128]⟩

theorem owed_effect {c : Call Address} (h : Effect T env s c t) (hs : Kept T contract s)
    (asset : Address) : owed t asset ≤ T.balance t.world asset contract := by
  have hcov := hs.covered asset
  cases h with
  | createEscrow config =>
    have hnew : remainingIn asset (opened s.escrowCount config) = 0 := by
      simp [remainingIn, remaining, opened]
    simp only [owed, total_insert, hs.numbered.lookup_count, hnew] at hcov ⊢
    simpa using hcov
  | moved _ id st st' p e w hp hl hm hw =>
    simp only [owed, total_insert, hl, Option.map_some, Option.getD_some] at hcov ⊢
    unfold remainingIn at hcov ⊢
    rw [hm.config, hm.remaining]
    split
    next heq =>
      subst heq
      have hbalance := Payment.balance_made hw
      omega
    next hne =>
      rw [Payment.balance_made_other hw (Ne.symm hne)]
      omega
  | setPaused | setAdmin => exact hcov

theorem kept_step {i : Input Address W contract (Call Address)} (hs : Kept T contract s)
    (hi : Undisturbed T s i) (h : step T s i = .ok t) : Kept T contract t := by
  cases i with
  | call env c =>
    have he := invoke_effect h
    exact ⟨numbered_effect he hs.numbered,
      each_effect he hs.inRange inRange_opened fun _ _ _ _ _ hm => inRange_move hm,
      owed_effect he hs⟩
  | world w =>
    cases pure_eq_ok.mp h
    exact ⟨hs.numbered, hs.inRange, fun asset => (hs.covered asset).trans (hi asset)⟩

theorem kept_initialise {w : W} {admin : Address}
    (h : initialise env (.fresh w) admin = .ok s) : Kept T contract s := by
  rw [initialise_eq h]
  refine ⟨fun id st hl => ?_, each_fresh rfl, fun asset => T.balance_nonneg w asset contract⟩
  cases hl

theorem Kept.remaining_le (hs : Kept T contract s) {id : Nat}
    (hl : s.escrowState.lookup id = some st) :
    remaining st ≤ T.balance s.world st.config.asset contract := by
  have hall : remainingIn st.config.asset st ≤ owed s st.config.asset :=
    le_total _ _ (fun id st hl => remainingIn_nonneg (hs.inRange id st hl) _) hl
  rw [remainingIn, if_pos rfl] at hall
  exact hall.trans (hs.covered _)

theorem Kept.solvent (hs : Kept T contract s) : Solvent T contract s := by
  refine ⟨?_, hs.covered, ?_⟩
  · intro id st hl
    exact ⟨(hs.inRange id st hl).released_nonneg, (hs.inRange id st hl).released_le⟩
  · intro id st n hget hn
    have hl := okOr_eq_ok.mp hget
    simp only [remainingBalance, Storage.readEscrowState, hl, bind_eq_ok, okOr_eq_ok,
      checked_eq_ok, Option.some.injEq, exists_eq_left'] at hn
    exact hn.2 ▸ hs.remaining_le hl

/-- In every state of a run no escrow has paid out more than was paid in, and
what all of them have left is there. -/
theorem solvent_throughout {w : W} {admin : Address}
    (h : initialise env (.fresh w) admin = .ok s)
    (is : List (Input Address W contract (Call Address)))
    (hkeep : Along (step T) (Undisturbed T) s is) :
    Throughout (step T) (Solvent T contract) s is :=
  throughout_mono (fun _ => Kept.solvent)
    (throughout_of_along (fun _ _ _ hs hi ht => kept_step hs hi ht) (kept_initialise h) hkeep)

def sampleWorld : Nat → Nat → Nat := fun token a => if token = 10 ∧ a = 2 then 5000 else 0

def sampleStorage : Storage Nat (Nat → Nat → Nat) :=
  { Storage.fresh sampleWorld with admin := some 1 }

def sampleCall (c : Call Nat) : Input Nat (Nat → Nat → Nat) 0 (Call Nat) :=
  .call (Env.signed 0 5) c

/-- An escrow with one milestone of a thousand, from the account 2 to the
account 3, with the arbitrator 4 and the approver 5. -/
def sampleEscrow : Call Nat := .createEscrow 2 3 4 10 [⟨0, 1000, 5⟩] 100 100

theorem solvent_throughout_sample :
    Throughout (step (bookToken Nat)) (Solvent (bookToken Nat) 0) sampleStorage
      ([sampleEscrow, .fundEscrow 0 2000, .submitMilestone 0 0, .approveMilestone 0 0,
        .releaseFunds 0].map sampleCall) := by
  have hopen : initialise (Env.signed 0 0) (.fresh sampleWorld) 1 = .ok sampleStorage := rfl
  exact solvent_throughout hopen _ (by simp [Along, sampleCall, Undisturbed])

end Suban.Escrow.Custody

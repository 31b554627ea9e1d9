import Suban.Basis.Runs
import Suban.WpiToken.Contract

namespace Suban.WpiToken.Conservation

open Suban.Basis.Calls Suban.Basis.Tables Suban.Basis.Runs Suban.Soroban.Host
open Suban.WpiToken.Contract

variable {Address : Type} [DecidableEq Address] {contract : Address}

/-- The token is conserved: the balances add up to the recorded supply and
none of them is negative. -/
def Conserved (s : Storage Address) : Prop :=
  sum s.balance = s.totalSupply ∧ ∀ a, 0 ≤ s.readBalance a

def IsTransfer : Call Address → Prop
  | .transfer _ _ _ | .transferFrom _ _ _ _ => True
  | _ => False

/-- The sender and the recipient of a positive amount are one account. -/
def SelfTransfer : Call Address → Prop
  | .transfer src dst amount | .transferFrom _ src dst amount => src = dst ∧ 0 < amount
  | _ => False

/-- What a call can do to the books: nothing, a move between two accounts
written from balances read beforehand, a mint or a burn. -/
inductive Effect (s t : Storage Address) : Call Address → Prop where
  | keep {c} (hc : ¬ IsTransfer c) (hb : t.balance = s.balance)
      (hs : t.totalSupply = s.totalSupply) : Effect s t c
  | move {c} (src dst : Address) (n : Int) (hc : SelfTransfer c ↔ src = dst ∧ 0 < n)
      (hn : 0 ≤ n) (hle : n ≤ s.readBalance src)
      (hb : t.balance = (s.balance.insert src (s.readBalance src - n)).insert dst
        (s.readBalance dst + n)) (hs : t.totalSupply = s.totalSupply) : Effect s t c
  | mint {c} (dst : Address) (n : Int) (hc : ¬ IsTransfer c) (hn : 0 < n)
      (hb : t.balance = s.balance.insert dst (s.readBalance dst + n))
      (hs : t.totalSupply = s.totalSupply + n) : Effect s t c
  | burn {c} (src : Address) (n : Int) (hc : ¬ IsTransfer c) (hn : 0 < n)
      (hle : n ≤ s.readBalance src)
      (hb : t.balance = s.balance.insert src (s.readBalance src - n))
      (hs : t.totalSupply = s.totalSupply - n) : Effect s t c

theorem transferInternal_ok {s t : Storage Address} {src dst : Address} {n : Int}
    (h : transferInternal s src dst n = .ok t) :
    0 ≤ n ∧ n ≤ s.readBalance src ∧
      t.balance = (s.balance.insert src (s.readBalance src - n)).insert dst
        (s.readBalance dst + n) ∧ t.totalSupply = s.totalSupply := by
  simp only [transferInternal, bind_eq_ok, rejectIf_eq_ok, checked_eq_ok, pure_eq_ok] at h
  obtain ⟨_, hn, _, hle, _, ⟨-, rfl⟩, _, ⟨-, rfl⟩, rfl⟩ := h
  exact ⟨not_lt.mp hn, not_lt.mp hle, rfl, rfl⟩

theorem step_effect {s t : Storage Address} {i : Env Address contract × Call Address}
    (h : step s i = .ok t) : Effect s t i.2 := by
  obtain ⟨env, c⟩ := i
  cases c with
  | approve owner spender n =>
    simp only [step, approve, bind_eq_ok, pure_eq_ok] at h
    obtain ⟨_, -, _, -, rfl⟩ := h
    exact .keep id rfl rfl
  | transfer src dst n =>
    simp only [step, transfer, bind_eq_ok] at h
    obtain ⟨_, -, _, -, h⟩ := h
    obtain ⟨hn, hle, hb, hs⟩ := transferInternal_ok h
    exact .move src dst n Iff.rfl hn hle hb hs
  | transferFrom spender src dst n =>
    simp only [step, transferFrom, bind_eq_ok] at h
    obtain ⟨_, -, _, -, _, -, _, -, h⟩ := h
    obtain ⟨hn, hle, hb, hs⟩ := transferInternal_ok h
    exact .move src dst n Iff.rfl hn hle hb hs
  | mint admin dst n =>
    simp only [step, mint, bind_eq_ok, rejectIf_eq_ok, checked_eq_ok, pure_eq_ok] at h
    obtain ⟨_, -, _, -, _, -, _, hn, _, ⟨-, rfl⟩, _, ⟨-, rfl⟩, rfl⟩ := h
    exact .mint dst n id (not_le.mp hn) rfl rfl
  | burn admin src n =>
    simp only [step, burn, bind_eq_ok, rejectIf_eq_ok, checked_eq_ok, pure_eq_ok] at h
    obtain ⟨_, -, _, -, _, -, _, hn, _, hle, _, ⟨-, rfl⟩, _, ⟨-, rfl⟩, rfl⟩ := h
    exact .burn src n id (not_le.mp hn) (not_lt.mp hle) rfl rfl
  | setAdmin admin newAdmin =>
    simp only [step, setAdmin, bind_eq_ok, pure_eq_ok] at h
    obtain ⟨_, -, _, -, _, -, rfl⟩ := h
    exact .keep id rfl rfl
  | setPaused admin paused =>
    simp only [step, setPaused, bind_eq_ok, pure_eq_ok] at h
    obtain ⟨_, -, _, -, _, -, rfl⟩ := h
    exact .keep id rfl rfl

/-- The second write goes over the first when the accounts are one, and the
amount is then created. -/
theorem sum_move (b : Table Address Int) (src dst : Address) (n : Int) :
    sum ((b.insert src (readOr b src 0 - n)).insert dst (readOr b dst 0 + n)) =
      sum b + if src = dst then n else 0 := by
  rw [sum_insert, sum_insert, readOr_insert]
  by_cases h : src = dst
  · subst h
    simp only [if_true]
    ring
  · simp only [h, Ne.symm h, if_false]
    ring

theorem sum_move_eq_iff (b : Table Address Int) (src dst : Address) {n : Int} (hn : 0 ≤ n) :
    sum ((b.insert src (readOr b src 0 - n)).insert dst (readOr b dst 0 + n)) = sum b ↔
      ¬ (src = dst ∧ 0 < n) := by
  rw [sum_move]
  by_cases h : src = dst
  · simp only [h, if_true, true_and]
    omega
  · simp [h]

omit [DecidableEq Address] in
theorem isTransfer_of_self {c : Call Address} (h : SelfTransfer c) : IsTransfer c := by
  cases c <;> trivial

theorem nonneg_step {s t : Storage Address} {c : Call Address} (h : Effect s t c)
    (hs : ∀ a, 0 ≤ s.readBalance a) (a : Address) : 0 ≤ t.readBalance a := by
  unfold Storage.readBalance at hs ⊢
  cases h with
  | keep _ hb => rw [hb]; exact hs a
  | move src dst n _ hn hle hb =>
    have hsrc : 0 ≤ s.readBalance src - n := sub_nonneg.mpr hle
    have hdst : 0 ≤ s.readBalance dst + n := add_nonneg (hs dst) hn
    rw [hb]
    exact forall_readOr_insert (forall_readOr_insert hs src hsrc) dst hdst a
  | mint dst n _ hn hb =>
    have hdst : 0 ≤ s.readBalance dst + n := add_nonneg (hs dst) hn.le
    rw [hb]
    exact forall_readOr_insert hs dst hdst a
  | burn src n _ hn hle hb =>
    have hsrc : 0 ≤ s.readBalance src - n := sub_nonneg.mpr hle
    rw [hb]
    exact forall_readOr_insert hs src hsrc a

/-- An accepted call keeps the token conserved unless it moves a positive
amount from an account to itself. -/
theorem conserved_step {s t : Storage Address} {c : Call Address} (h : Effect s t c)
    (hs : Conserved s) : Conserved t ↔ ¬ SelfTransfer c := by
  have hn := nonneg_step h hs.2
  suffices hsum : sum t.balance = t.totalSupply ↔ ¬ SelfTransfer c from
    ⟨fun ht => hsum.mp ht.1, fun hc => ⟨hsum.mpr hc, hn⟩⟩
  cases h with
  | keep hk hb ht =>
    rw [hb, ht]
    exact iff_of_true hs.1 (mt isTransfer_of_self hk)
  | move src dst n hself hpos hle hb ht =>
    rw [hb, ht, ← hs.1, hself]
    exact sum_move_eq_iff s.balance src dst hpos
  | mint dst n hk hpos hb ht =>
    refine iff_of_true ?_ (mt isTransfer_of_self hk)
    rw [hb, ht, sum_insert, hs.1, Storage.readBalance]
    ring
  | burn src n hk hpos hle hb ht =>
    refine iff_of_true ?_ (mt isTransfer_of_self hk)
    rw [hb, ht, sum_insert, hs.1, Storage.readBalance]
    ring

/-- The call moves tokens between accounts and leaves their sum as it was. -/
def KeepsSum (s : Storage Address) (i : Env Address contract × Call Address) : Prop :=
  IsTransfer i.2 → sum (next step s i).balance = sum s.balance

theorem keepsSum_step {s t : Storage Address} {i : Env Address contract × Call Address}
    (hself : ¬ SelfTransfer i.2) (h : step s i = .ok t) : KeepsSum s i := by
  intro hc
  rw [next_ok h]
  cases step_effect h with
  | keep hk => exact absurd hc hk
  | mint _ _ hk => exact absurd hc hk
  | burn _ _ hk => exact absurd hc hk
  | move src dst n hiff hpos _ hb =>
    rw [hb]
    exact (sum_move_eq_iff s.balance src dst hpos).mpr (mt hiff.mpr hself)

theorem conserved_initialise {env : Env Address contract} {admin : Address}
    {s : Storage Address} (h : initialise env Storage.fresh admin = .ok s) : Conserved s := by
  simp only [initialise, bind_eq_ok, pure_eq_ok] at h
  obtain ⟨_, -, _, -, rfl⟩ := h
  exact ⟨rfl, fun _ => le_rfl⟩

/-- The balances add up to the supply in every state of a run, and no transfer
of the run changes their sum, exactly when none of its accepted calls sends a
positive amount from an account to itself. -/
theorem conserved_iff_no_self_transfer {env : Env Address contract} {admin : Address}
    {s : Storage Address} (h : initialise env Storage.fresh admin = .ok s)
    (calls : List (Env Address contract × Call Address)) :
    Throughout step Conserved s calls ∧ Along step KeepsSum s calls ↔
      Along step (fun _ i => ¬ SelfTransfer i.2) s calls := by
  have hiff : Throughout step Conserved s calls ↔
      Along step (fun _ i => ¬ SelfTransfer i.2) s calls :=
    throughout_iff_along_self (E := fun _ _ => True)
      (fun _ _ _ hs _ hi => conserved_step (step_effect hi) hs)
      (conserved_initialise h) (along_true s calls)
  rw [hiff]
  refine ⟨And.left, fun hc => ⟨hc, ?_⟩⟩
  exact along_of_throughout (fun _ _ _ _ hself hi => keepsSum_step hself hi) (hiff.mpr hc) hc

theorem conserved_iff_no_self_transfer_sample :
    Throughout step Conserved ⟨some 1, false, ∅, ∅, 0, []⟩
        [(Env.signed 0 1, Call.mint 1 2 5), (Env.signed 0 2, .transfer 2 3 4)] ∧
      Along step KeepsSum ⟨some 1, false, ∅, ∅, 0, []⟩
        [(Env.signed 0 1, Call.mint 1 2 5), (Env.signed 0 2, .transfer 2 3 4)] := by
  have hopen : initialise (Env.signed 0 0) (Storage.fresh : Storage Nat) 1 =
      .ok ⟨some 1, false, ∅, ∅, 0, []⟩ := rfl
  apply (conserved_iff_no_self_transfer hopen _).mpr
  refine ⟨fun _ _ => id, fun _ _ h => ?_, trivial⟩
  exact absurd h.1 (by decide)

/-- A holder who sends three of its five tokens to itself holds eight, with
five issued. -/
theorem self_transfer_creates_tokens :
    ∃ s : Storage Nat, initialise (Env.signed 0 0) Storage.fresh 1 = .ok s ∧
      ¬ Throughout step Conserved s
        [(Env.signed 0 1, Call.mint 1 2 5), (Env.signed 0 2, .transfer 2 2 3)] := by
  refine ⟨_, rfl, fun h => ?_⟩
  have hsum := (throughout_run h).1
  revert hsum
  decide

end Suban.WpiToken.Conservation

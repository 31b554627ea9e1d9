import Suban.Basis.Runs
import Suban.Basis.Tables

namespace Suban.Soroban.SignerSet

open Suban.Basis.Tables Suban.Basis.Runs

variable {Address : Type} [DecidableEq Address]

/-- The signers of a bridge with the count that is kept beside them, and the
approvals that it asks for. -/
structure Signers (Address : Type) [DecidableEq Address] where
  signer : Table Address Bool
  count : Nat
  threshold : Nat

/-- What is done to the signers: one is added or removed, or the threshold is
moved within the count. -/
inductive Change (s : Signers Address) : Signers Address → Prop where
  | keep : Change s s
  | add (a : Address) (hnew : readOr s.signer a false = false) :
      Change s ⟨s.signer.insert a true, s.count + 1, s.threshold⟩
  | remove (a : Address) (hold : readOr s.signer a false = true)
      (hle : s.threshold ≤ s.count - 1) :
      Change s ⟨s.signer.insert a false, s.count - 1, s.threshold⟩
  | setThreshold (n : Nat) (hn : n ≠ 0) (hle : n ≤ s.count) :
      Change s ⟨s.signer, s.count, n⟩

/-- The count is that of the signers, the threshold is within it, and enough
different signers are there to reach it. -/
structure Consistent (s : Signers Address) : Prop where
  count : s.count = (members s.signer).card
  positive : 1 ≤ s.threshold
  within : s.threshold ≤ s.count
  reachable : ∃ S : Finset Address, S.card = s.threshold ∧
    ∀ a ∈ S, readOr s.signer a false = true

def ofList (signers : List Address) (threshold : Nat) : Signers Address :=
  ⟨signers.foldl (fun t a => t.insert a true) ∅, signers.length, threshold⟩

theorem consistent_iff (s : Signers Address) :
    Consistent s ↔ s.count = (members s.signer).card ∧ 1 ≤ s.threshold ∧ s.threshold ≤ s.count := by
  refine ⟨?_, ?_⟩
  · exact fun h => ⟨h.count, h.positive, h.within⟩
  · rintro ⟨hcount, hpos, hle⟩
    obtain ⟨S, hS, hcard⟩ := Finset.exists_subset_card_eq (hcount ▸ hle)
    exact ⟨hcount, hpos, hle, S, hcard, fun a ha => mem_members.mp (hS ha)⟩

theorem consistent_change {s t : Signers Address} (h : Change s t) (hs : Consistent s) :
    Consistent t := by
  obtain ⟨hcount, hpos, hle⟩ := (consistent_iff s).mp hs
  rw [consistent_iff]
  cases h with
  | keep => exact ⟨hcount, hpos, hle⟩
  | add a hnew =>
    have hmem : a ∉ members s.signer := by simp [hnew]
    refine ⟨?_, hpos, Nat.le_succ_of_le hle⟩
    rw [members_insert_true, Finset.card_insert_of_notMem hmem, hcount]
  | remove a hold hkeep =>
    refine ⟨?_, hpos, hkeep⟩
    rw [members_insert_false, Finset.card_erase_of_mem (mem_members.mpr hold), hcount]
  | setThreshold n hn hwithin => exact ⟨hcount, Nat.one_le_iff_ne_zero.mpr hn, hwithin⟩

theorem consistent_ofList_iff {signers : List Address} {threshold : Nat} (hn : threshold ≠ 0)
    (hle : threshold ≤ signers.length) : Consistent (ofList signers threshold) ↔ signers.Nodup := by
  have hmembers : members (ofList signers threshold).signer = signers.toFinset := by
    rw [ofList, members_foldl, members_empty, Finset.union_empty]
  rw [consistent_iff, hmembers, ← card_toFinset_eq_iff, eq_comm]
  exact and_iff_left ⟨Nat.one_le_iff_ne_zero.mpr hn, hle⟩

/-- A bridge that only makes such changes, from the signers of a list on, keeps
them consistent exactly when the list names nobody twice. -/
theorem throughout_consistent_iff {σ ι δ : Type} {step : σ → ι → Except δ σ}
    (signersOf : σ → Signers Address)
    (hstep : ∀ s i t, step s i = .ok t → Change (signersOf s) (signersOf t)) {s : σ}
    {signers : List Address} {threshold : Nat} (hs : signersOf s = ofList signers threshold)
    (hn : threshold ≠ 0) (hle : threshold ≤ signers.length) (is : List ι) :
    Throughout step (fun u => Consistent (signersOf u)) s is ↔ signers.Nodup := by
  rw [← consistent_ofList_iff hn hle, ← hs]
  refine ⟨?_, ?_⟩
  · exact throughout_head
  · intro h
    exact throughout_of_along (fun u i t hu _ ht => consistent_change (hstep u i t ht) hu) h
      (along_true s is)

end Suban.Soroban.SignerSet

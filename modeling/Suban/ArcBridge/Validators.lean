import Suban.ArcBridge.Signatures
import Suban.ArcBridge.Transitions
import Suban.Basis.Runs
import Suban.Basis.Tables

namespace Suban.ArcBridge.Validators

open Suban.Basis.Calls Suban.Basis.Tables Suban.Basis.Runs Suban.Evm.Host Suban.ArcBridge.PusdToken
open Suban.ArcBridge.Contract Suban.ArcBridge.Transitions

variable {B : Type} {K : Crypto} {X : Erc20 B} {contract : Account} {msg : Msg}
variable {s t : Bridge B}

/-- The array and the mapping hold the same validators, each of them once, and
the threshold can be reached. -/
structure Consistent (s : Bridge B) : Prop where
  nodup : s.validators.Nodup
  members : ∀ a, a ∈ s.validators ↔ s.validator a = true
  positive : 0 < s.threshold
  within : s.threshold.toNat ≤ s.validators.length

/-- Overwriting one entry with the last and dropping the last takes out the
entry. -/
theorem dropLast_set_perm {α : Type} (l₁ l₂ : List α) (a b : α) :
    ((l₁ ++ a :: l₂).set l₁.length ((l₁ ++ a :: l₂).getLastD b)).dropLast.Perm (l₁ ++ l₂) := by
  obtain rfl | ⟨init, last, rfl⟩ := List.eq_nil_or_concat l₂
  · simp
  · rw [List.concat_eq_append]
    have hlast : (l₁ ++ a :: (init ++ [last])).getLastD b = last := by
      rw [← List.cons_append, ← List.append_assoc, List.getLastD_concat]
    have hset : ((l₁ ++ a :: (init ++ [last])).set l₁.length last).dropLast =
        l₁ ++ last :: init := by
      rw [List.set_append_right _ _ le_rfl, Nat.sub_self, List.set_cons_zero,
        ← List.cons_append, ← List.append_assoc, List.dropLast_concat]
    rw [hlast, hset]
    exact (List.perm_append_singleton last init).symm.append_left l₁

theorem swapRemove_perm {l : List Account} {a : Account} (h : a ∈ l) :
    (swapRemove l a).Perm (l.erase a) := by
  obtain ⟨l₁, l₂, rfl, hnot⟩ := List.eq_append_cons_of_mem h
  have hidx : (l₁ ++ a :: l₂).idxOf? a = some l₁.length := by
    rw [List.idxOf?_eq_some_iff]
    refine ⟨by simp, by simp, fun j hj hja => hnot ?_⟩
    rw [List.getElem_append_left hj] at hja
    exact hja ▸ List.getElem_mem hj
  rw [List.erase_append_right _ hnot, List.erase_cons_head, swapRemove, hidx]
  exact dropLast_set_perm l₁ l₂ a a

theorem consistent_congr (h : Consistent s) (hv : t.validators = s.validators)
    (hi : t.isValidator = s.isValidator) (hn : t.threshold = s.threshold) : Consistent t := by
  refine ⟨hv ▸ h.nodup, fun a => ?_, hn ▸ h.positive, hn ▸ hv ▸ h.within⟩
  rw [hv, h.members, Bridge.validator, Bridge.validator, hi]

theorem consistent_add (h : Consistent s) {a : Account} (hnew : s.validator a = false)
    (hv : t.validators = s.validators ++ [a]) (hi : t.isValidator = s.isValidator.insert a true)
    (hn : t.threshold = s.threshold) : Consistent t := by
  have hmem : a ∉ s.validators := by simp [h.members, hnew]
  refine ⟨?_, fun b => ?_, hn ▸ h.positive, ?_⟩
  · rw [hv, ← List.concat_eq_append]
    exact h.nodup.concat hmem
  · rw [hv, Bridge.validator, hi, readOr_insert, List.mem_append, List.mem_singleton, h.members]
    split <;> simp [*, Bridge.validator]
  · rw [hv, hn, List.length_append]
    exact Nat.le_add_right_of_le h.within

theorem consistent_remove (h : Consistent s) {a : Account} (hold : s.validator a = true)
    (hle : s.threshold.toNat ≤ s.validators.length - 1)
    (hv : t.validators = swapRemove s.validators a)
    (hi : t.isValidator = s.isValidator.insert a false) (hn : t.threshold = s.threshold) :
    Consistent t := by
  have hmem : a ∈ s.validators := (h.members a).mpr hold
  have hperm : t.validators.Perm (s.validators.erase a) := hv ▸ swapRemove_perm hmem
  refine ⟨hperm.nodup_iff.mpr (h.nodup.erase a), fun b => ?_, hn ▸ h.positive, ?_⟩
  · rw [hperm.mem_iff, h.nodup.mem_erase_iff, Bridge.validator, hi, readOr_insert, h.members]
    split <;> simp [*, Bridge.validator]
  · rw [hperm.length_eq, List.length_erase_of_mem hmem, hn]
    exact hle

theorem consistent_step {i : Input B} (hs : Consistent s) (h : step K X contract s i = .ok t) :
    Consistent t := by
  cases i with
  | elsewhere roles pusd =>
    cases pure_eq_ok.mp h
    exact consistent_congr hs rfl rfl rfl
  | call msg c =>
    cases invoke_transition h with
    | addValidator a ha hzero hnew => exact consistent_add hs hnew rfl rfl rfl
    | removeValidator a ha hold hpos hle => exact consistent_remove hs hold hle rfl rfl rfl
    | setThreshold n ha hn hle => exact ⟨hs.nodup, hs.members, hn, hle⟩
    | _ => exact consistent_congr hs rfl rfl rfl

section Deployed

variable {pusdAddress : Account} {pusd : Token B} {validators : List Account}
variable {threshold volumeCap volumeWindow : Word}

theorem consistent_construct_iff
    (h : construct msg pusdAddress pusd validators threshold volumeCap volumeWindow = .ok s) :
    Consistent s ↔ validators.Nodup := by
  obtain ⟨⟨hpos, hle⟩, rfl⟩ := construct_ok h
  refine ⟨?_, ?_⟩
  · exact fun hc => hc.nodup
  · refine fun hd => ⟨hd, fun a => ?_, hpos, hle⟩
    rw [Bridge.validator, ← mem_members, deployed, members_foldl, members_empty,
      Finset.union_empty, List.mem_toFinset]

/-- The validators stay consistent in every run of the bridge exactly when it
is constructed with a list that names nobody twice. -/
theorem validatorsConsistent_iff_nodup
    (h : construct msg pusdAddress pusd validators threshold volumeCap volumeWindow = .ok s)
    (is : List (Input B)) : Throughout (step K X contract) Consistent s is ↔ validators.Nodup := by
  rw [← consistent_construct_iff h]
  refine ⟨?_, ?_⟩
  · exact throughout_head
  · exact fun hs => throughout_of_along (fun _ _ _ hu _ ht => consistent_step hu ht) hs
      (along_true s is)

end Deployed

theorem validatorsConsistent_iff_nodup_sample :
    Throughout (step Signatures.sampleCrypto bookErc20 9) Consistent Signatures.sampleBridge
      [.call ⟨1, 5⟩ (.addValidator 7),
        .call ⟨1, 6⟩ (.removeValidator 0x7e5f4552091a69125d5dfcb7b8c2659029395bdf)] :=
  (validatorsConsistent_iff_nodup
    (rfl : construct ⟨1, 0⟩ 8 Signatures.sampleToken Signatures.sampleValidators 2 0 60 =
      .ok Signatures.sampleBridge) _).mpr (by decide)

theorem validator_registered_twice :
    ∃ s : Bridge (Word × (Account → Word)),
      construct ⟨1, 0⟩ 8 Signatures.sampleToken [5, 5] 2 0 60 = .ok s ∧ ¬ Consistent s := by
  refine ⟨_, rfl, fun h => ?_⟩
  exact absurd h.nodup (by decide)

end Suban.ArcBridge.Validators

import Suban.CpmmPool.Soundness
import Suban.WpiToken.Holdings

namespace Suban.CpmmPool.OverTokens

open Suban.Basis.Calls Suban.Basis.Tables Suban.Basis.Runs Suban.Soroban.Host
open Suban.CpmmPool.Contract Suban.CpmmPool.Transitions Suban.CpmmPool.Books
open Suban.CpmmPool.Soundness Suban.WpiToken.Holdings

variable {Address : Type} [DecidableEq Address] {contract tokenA tokenB : Address}
variable {s t : Storage Address (World Address)}

/-- What is burned of the tokens that the pool holds is beyond its reserves. -/
def Spared (tokenA tokenB : Address) (s : Storage Address (World Address)) :
    Move Address contract (Call Address) → Prop
  | .call _ _ => True
  | .token a => s.reserveA + a.burned tokenA ≤ s.world.balance tokenA contract ∧
      s.reserveB + a.burned tokenB ≤ s.world.balance tokenB contract

theorem ungranted_moves {w w' : World Address} {token₁ src₁ dst₁ token₂ src₂ dst₂ : Address}
    {n₁ n₂ : Int}
    (h : Moves (wpiTokens Address) w token₁ src₁ dst₁ n₁ token₂ src₂ dst₂ n₂ w')
    (hw : Ungranted contract w) : Ungranted contract w' := by
  obtain ⟨v, hv, hw'⟩ := h
  exact ungranted_transfer hw' (ungranted_transfer hv hw)

theorem ungranted_transition {env : Env Address contract} {c : Call Address}
    (h : Transition (wpiTokens Address) env s tokenA tokenB c t)
    (hs : Ungranted contract s.world) : Ungranted contract t.world := by
  cases h with
  | add _ _ _ _ _ _ _ _ _ _ hmoves => exact ungranted_moves hmoves hs
  | remove _ _ _ _ _ _ _ _ _ _ _ hmoves => exact ungranted_moves hmoves hs
  | swapAForB _ _ _ _ _ _ _ _ _ hmoves => exact ungranted_moves hmoves hs
  | swapBForA _ _ _ _ _ _ _ _ _ hmoves => exact ungranted_moves hmoves hs

def Kept (contract tokenA tokenB : Address) (s : Storage Address (World Address)) : Prop :=
  Booked tokenA tokenB s ∧ Ungranted contract s.world

def Backed (contract tokenA tokenB : Address) (s : Storage Address (World Address)) : Prop :=
  Held (wpiTokens Address) contract tokenA tokenB s ∧
    Payable (wpiTokens Address) contract tokenA tokenB s

theorem backed_iff (hs : Booked tokenA tokenB s) :
    Backed contract tokenA tokenB s ↔ Held (wpiTokens Address) contract tokenA tokenB s :=
  and_iff_left_of_imp (payable_of_held hs)

theorem backed_step (hne : tokenA ≠ tokenB) {m : Move Address contract (Call Address)}
    (h : moved (step (wpiTokens Address)) (input Storage.world) s m = .ok t)
    (hkept : Kept contract tokenA tokenB s) (hs : Backed contract tokenA tokenB s) :
    (Backed contract tokenA tokenB t ↔ Spared tokenA tokenB s m) ∧
      Kept contract tokenA tokenB t := by
  obtain ⟨hbooked, hungranted⟩ := hkept
  obtain ⟨i, hinput, hi⟩ := moved_eq_ok.mp h
  have hbooked' := booked_step hi hbooked
  rw [backed_iff hbooked']
  cases m with
  | call env c =>
    cases hinput
    have hheld := held_step hi hne hbooked hs.1 (i := .call env c) trivial
    have htransition := invoke_transition hbooked.tokenA hbooked.tokenB hi
    exact ⟨iff_of_true hheld trivial, hbooked', ungranted_transition htransition hungranted⟩
  | token a =>
    obtain ⟨w, hw, rfl⟩ := Option.map_eq_some_iff.mp hinput
    cases pure_eq_ok.mp hi
    refine ⟨?_, hbooked', (perform_holding hw hungranted).1⟩
    have hA := held_iff hw hungranted hs.1.reserveA
    have hB := held_iff hw hungranted hs.1.reserveB
    exact ⟨fun hheld => ⟨hA.mp hheld.reserveA, hB.mp hheld.reserveB⟩,
      fun hspared => ⟨hA.mpr hspared.1, hB.mpr hspared.2⟩⟩

/-- However the calls of the pool and of its tokens are interleaved, the pool holds
what it has recorded and can pay every provider in all states, exactly when no
administrator burns more of its tokens than lie beyond its reserves. -/
theorem backed_iff_spared {env : Env Address contract} {w : World Address} {admin : Address}
    {feeBps : Nat} (h : initialise env (.fresh w) admin tokenA tokenB feeBps = .ok s)
    (hw : Ungranted contract w) (ms : List (Move Address contract (Call Address))) :
    Throughout (moved (step (wpiTokens Address)) (input Storage.world))
        (Backed contract tokenA tokenB) s ms ↔
      Along (moved (step (wpiTokens Address)) (input Storage.world))
        (Spared tokenA tokenB) s ms := by
  obtain ⟨hne, -, hs⟩ := initialise_eq_ok h
  have hbooked : Booked tokenA tokenB s := booked_initialise h
  have hbacked : Backed contract tokenA tokenB s := (backed_iff hbooked).mpr (held_initialise h)
  have hkept : Kept contract tokenA tokenB s := ⟨hbooked, by rwa [hs]⟩
  refine throughout_iff_along (E := fun _ _ => True) ?_ hkept hbacked (along_true s ms)
  intro u m v hkept hu _ hv
  obtain ⟨hiff, hkept'⟩ := backed_step hne hv hkept hu
  exact ⟨hiff, fun _ => hkept'⟩

section Sample

def sampleToken : WpiToken.Contract.Storage Nat :=
  ⟨some 1, false, (∅ : Table Nat Int).insert 3 100000, ∅, 100000, []⟩

def sampleTokens : World Nat where
  token _ := sampleToken
  nonneg _ a := forall_readOr_insert (fun _ => le_rfl) 3 (by decide) a

def samplePool : Storage Nat (World Nat) :=
  { Storage.fresh sampleTokens with
    admin := some 1
    tokenA := some 8
    tokenB := some 9
    feeBps := 30 }

def sampleBurn : Act Nat 0 where
  token := 8
  env := ⟨1, 1, fun a => decide (a = 1), rfl⟩
  call := .burn 1 3 500
  absent := rfl

theorem backed_iff_spared_sample :
    Throughout (moved (step (wpiTokens Nat)) (input Storage.world)) (Backed 0 8 9) samplePool
      [.token sampleBurn, .call (Env.signed 0 1) (.addLiquidity 3 10000 10000 0)] := by
  have hopen : initialise (Env.signed 0 0) (.fresh sampleTokens) 1 8 9 30 = .ok samplePool := rfl
  apply (backed_iff_spared hopen (fun _ _ => le_rfl) _).mpr
  refine ⟨fun _ _ => ⟨?_, ?_⟩, fun _ _ => trivial, trivial⟩ <;> decide

end Sample

end Suban.CpmmPool.OverTokens

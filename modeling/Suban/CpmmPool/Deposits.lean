import Suban.CpmmPool.Soundness

namespace Suban.CpmmPool.Deposits

open Suban.Basis.Calls Suban.Basis.Tables Suban.Basis.Runs Suban.Basis.Division
open Suban.Soroban.Host
open Suban.CpmmPool.Contract Suban.CpmmPool.Transitions Suban.CpmmPool.Books
open Suban.CpmmPool.Soundness

variable {Address W : Type} [DecidableEq Address] {contract tokenA tokenB : Address}
variable {T : Sep41 Address W} {env : Env Address contract} {s t : Storage Address W}
variable {amountA amountB : Int}

/-- A deposit adds a share at least to those of its provider. -/
def MintsShare (T : Sep41 Address W) (s : Storage Address W) :
    Input Address W contract (Call Address) → Prop
  | .call env (.addLiquidity provider amountA amountB minShares) =>
    ∀ t, invoke T env s (.addLiquidity provider amountA amountB minShares) = .ok t →
      s.lpOf provider + 1 ≤ t.lpOf provider
  | _ => True

/-- A deposit is the first one, or brings in as much of each token as there is
behind one share. -/
def WorthAShare (s : Storage Address W) : Input Address W contract (Call Address) → Prop
  | .call _ (.addLiquidity _ amountA amountB _) => s.totalShares = 0 ∨
      s.reserveA ≤ amountA * s.totalShares ∧ s.reserveB ≤ amountB * s.totalShares
  | _ => True

theorem one_le_worth_iff (hs : Booked tokenA tokenB s) (ha : 0 < amountA) (hb : 0 < amountB) :
    1 ≤ worth s amountA amountB ↔ s.totalShares = 0 ∨
      s.reserveA ≤ amountA * s.totalShares ∧ s.reserveB ≤ amountB * s.totalShares := by
  by_cases hz : s.totalShares = 0
  · exact iff_of_true (worth_pos hz ha hb) (.inl hz)
  · have htotal : 0 < s.totalShares := lt_of_le_of_ne hs.total_nonneg (Ne.symm hz)
    obtain ⟨hra, hrb⟩ := hs.stocked.of_shares htotal
    have hpartA := le_tdiv_iff (n := 1) hra (mul_nonneg ha.le htotal.le)
    have hpartB := le_tdiv_iff (n := 1) hrb (mul_nonneg hb.le htotal.le)
    rw [one_mul] at hpartA hpartB
    rw [worth, if_neg hz, or_iff_right hz, le_min_iff]
    exact and_congr hpartA hpartB

theorem lpOf_add {provider : Address} {minShares : Int} (hs : Booked tokenA tokenB s)
    (h : invoke T env s (.addLiquidity provider amountA amountB minShares) = .ok t) :
    0 < amountA ∧ 0 < amountB ∧ t.lpOf provider = s.lpOf provider + worth s amountA amountB := by
  cases invoke_transition hs.tokenA hs.tokenB h with
  | add provider amountA amountB minShares w hauth ha hb =>
    refine ⟨ha, hb, ?_⟩
    simp only [Storage.publish, Storage.lpOf, readOr_insert, if_true]

theorem mintsShare_iff {i : Input Address W contract (Call Address)} (h : step T s i = .ok t)
    (hs : Booked tokenA tokenB s) : MintsShare T s i ↔ WorthAShare s i := by
  cases i with
  | world w => exact Iff.rfl
  | call env c =>
    cases c with
    | addLiquidity provider amountA amountB minShares =>
      obtain ⟨ha, hb, hminted⟩ := lpOf_add hs h
      have hworth := one_le_worth_iff hs ha hb
      refine ⟨?_, ?_⟩
      · intro hmints
        have hmore := hmints t h
        rw [hminted] at hmore
        exact hworth.mp (by omega)
      · intro hcovers u hu
        rw [(lpOf_add hs hu).2.2]
        have hone := hworth.mpr hcovers
        omega
    | _ => exact Iff.rfl

/-- Every deposit of a run mints a share exactly when each is the first one or
worth a share of both reserves. -/
theorem mintsShare_iff_worthAShare {w : W} {admin : Address} {feeBps : Nat}
    (h : initialise env (.fresh w) admin tokenA tokenB feeBps = .ok s)
    (is : List (Input Address W contract (Call Address))) :
    Along (step T) (MintsShare T) s is ↔ Along (step T) WorthAShare s is :=
  along_congr (J := Booked tokenA tokenB) (E := fun _ _ => True)
    (fun _ _ _ hu _ ht => booked_step ht hu) (fun _ _ _ hu _ ht => mintsShare_iff ht hu)
    (booked_initialise h) (along_true s is)

theorem mintsShare_iff_worthAShare_sample :
    Along (step (bookToken Nat)) (MintsShare (bookToken Nat)) sample [sampleAdd] := by
  refine (mintsShare_iff_worthAShare initialise_sample [sampleAdd]).mpr ⟨?_, trivial⟩
  exact fun _ _ => .inl rfl

def swapped : Storage Nat (Nat → Nat → Nat) :=
  run (step (bookToken Nat)) sample [sampleAdd, sampleSwap]

def sampleDust : Input Nat (Nat → Nat → Nat) 0 (Call Nat) :=
  .call (Env.signed 0 3) (.addLiquidity 3 1 1 0)

/-- After a swap a unit of the one token is less than there is of it behind a
share, and the deposit is taken for nothing. -/
theorem dust_is_absorbed :
    ¬ Along (step (bookToken Nat)) (MintsShare (bookToken Nat)) sample
      [sampleAdd, sampleSwap, sampleDust] := by
  rintro ⟨-, -, hdust, -⟩
  have hok : (step (bookToken Nat) swapped sampleDust).isOk = true := by decide +kernel
  have hsame : (next (step (bookToken Nat)) swapped sampleDust).lpOf 3 = swapped.lpOf 3 := by
    decide +kernel
  obtain ⟨t, ht⟩ := exists_of_isOk hok
  have hmore := hdust t ht t ht
  rw [next_ok ht] at hsame
  exact absurd hmore (by rw [hsame]; exact not_le.mpr (lt_add_one _))

end Suban.CpmmPool.Deposits

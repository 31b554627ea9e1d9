import Suban.CpmmPool.Deposits

namespace Suban.CpmmPool.FirstDeposit

open Suban.Basis.Calls Suban.Basis.Tables Suban.Basis.Runs Suban.Basis.SquareRoot
open Suban.Soroban.Host
open Suban.CpmmPool.Contract Suban.CpmmPool.Transitions Suban.CpmmPool.Books
open Suban.CpmmPool.Soundness Suban.CpmmPool.Deposits

/-- The computation ends without a trap, at the root rounded down. -/
def ExactRoot (n : Nat) : Prop := ∃ r, isqrt n = .ok r ∧ r * r ≤ n ∧ n < (r + 1) * (r + 1)

theorem isqrt_of_fits {n : Nat} (hfits : n + 1 < 2 ^ 128) : isqrt n = .ok (Nat.sqrt n) := by
  unfold isqrt
  by_cases hz : n = 0
  · rw [if_pos hz, pure_eq_ok, hz, Nat.sqrt_zero]
  · rw [if_neg hz, bind_eq_ok]
    exact ⟨n + 1, checkedUInt_eq_ok.mpr ⟨hfits, rfl⟩, isqrtLoop_start hz hfits⟩

/-- The first step adds one to the number itself. -/
theorem isqrt_ne_ok {n : Nat} (hfits : ¬ n + 1 < 2 ^ 128) (r : Nat) : isqrt n ≠ .ok r := by
  intro h
  unfold isqrt at h
  split at h
  next hz => exact hfits (by rw [hz]; norm_num)
  next =>
    obtain ⟨_, hsum, -⟩ := bind_eq_ok.mp h
    exact hfits (checkedUInt_eq_ok.mp hsum).1

theorem exactRoot_iff {n : Nat} (hn : n < 2 ^ 128) : ExactRoot n ↔ n ≠ 2 ^ 128 - 1 := by
  refine ⟨?_, fun hne => ?_⟩
  · rintro ⟨r, hr, -⟩ rfl
    exact isqrt_ne_ok (by norm_num) r hr
  · have hroot := isqrt_of_fits (n := n) (by omega)
    exact ⟨Nat.sqrt n, hroot, Nat.sqrt_le n, Nat.lt_succ_sqrt n⟩

variable {Address W : Type} [DecidableEq Address] {contract tokenA tokenB : Address}
variable {T : Sep41 Address W} {env : Env Address contract} {s t : Storage Address W}
variable {provider : Address} {amountA amountB minShares : Int}

def product (amountA amountB : Int) : Nat := amountA.toNat * amountB.toNat

/-- A deposit that the provider has signed and can pay, with a product in range. -/
structure Offered (T : Sep41 Address W) (env : Env Address contract) (tokenA tokenB : Address)
    (s : Storage Address W) (provider : Address) (amountA amountB minShares : Int) : Prop where
  signed : env.auths provider = true
  posA : 0 < amountA
  posB : 0 < amountB
  fitsA : amountA ≤ maxI128
  fitsB : amountB ≤ maxI128
  fits : product amountA amountB < 2 ^ 128
  asked : minShares ≤ Nat.sqrt (product amountA amountB)
  paid : ∃ w, Moves T s.world tokenA provider contract amountA tokenB provider contract amountB w

/-- The deposit is taken, for as many shares as the root of the product and for
one at least. -/
def MintsRoot (T : Sep41 Address W) (env : Env Address contract) (s : Storage Address W)
    (provider : Address) (amountA amountB minShares : Int) : Prop :=
  ∃ t, addLiquidity T env s provider amountA amountB minShares =
      .ok (Nat.sqrt (product amountA amountB), t) ∧
    t.lpOf provider = s.lpOf provider + Nat.sqrt (product amountA amountB) ∧
    1 ≤ Nat.sqrt (product amountA amountB)

theorem sharesFor_of_root {root : Nat} (hz : s.totalShares = 0)
    (hfits : product amountA amountB < 2 ^ 128)
    (hroot : isqrt (product amountA amountB) = .ok root) :
    sharesFor s amountA amountB = .ok (root : Int) := by
  rw [sharesFor, if_pos hz, bind_eq_ok]
  refine ⟨product amountA amountB, checkedUInt_eq_ok.mpr ⟨hfits, rfl⟩, ?_⟩
  rw [hroot]
  rfl

theorem root_of_sharesFor {shares : Int} (hz : s.totalShares = 0)
    (h : sharesFor s amountA amountB = .ok shares) :
    ∃ root, isqrt (product amountA amountB) = .ok root := by
  rw [sharesFor, if_pos hz] at h
  simp only [bind_eq_ok, checkedUInt_eq_ok] at h
  obtain ⟨_, ⟨-, rfl⟩, root, hroot, -⟩ := h
  exact ⟨root, hroot⟩

theorem empty_of_booked (hs : Booked tokenA tokenB s) (hz : s.totalShares = 0) (a : Address) :
    s.reserveA = 0 ∧ s.reserveB = 0 ∧ s.lpOf a = 0 := by
  have hlp : s.lpOf a = 0 := le_antisymm (hz ▸ hs.le_total a) (hs.nonneg a)
  obtain ⟨-, ha, hb⟩ | ⟨hpos, -⟩ := hs.stocked
  · exact ⟨ha, hb, hlp⟩
  · exact absurd hz hpos.ne'

/-- With its root the deposit goes through: the sums start from an empty pool. -/
theorem addLiquidity_of_root (hs : Booked tokenA tokenB s) (hz : s.totalShares = 0)
    (h : Offered T env tokenA tokenB s provider amountA amountB minShares)
    (hroot : isqrt (product amountA amountB) = .ok (Nat.sqrt (product amountA amountB))) :
    ∃ t, addLiquidity T env s provider amountA amountB minShares =
      .ok (Nat.sqrt (product amountA amountB), t) := by
  obtain ⟨w, v, hv, hw⟩ := h.paid
  obtain ⟨hra, hrb, hlp⟩ := empty_of_booked hs hz provider
  have hshares := sharesFor_of_root (s := s) hz h.fits hroot
  have hsmall : Nat.sqrt (product amountA amountB) < 2 ^ 64 := Nat.sqrt_lt.mpr h.fits
  have hheld : minI128 ≤ (Nat.sqrt (product amountA amountB) : Int) ∧
      (Nat.sqrt (product amountA amountB) : Int) ≤ maxI128 :=
    inRange_of_nonneg (Int.natCast_nonneg _) (by unfold maxI128; omega)
  simp only [addLiquidity, bind_eq_ok, requireAuth_eq_ok, rejectIf_eq_ok, unwrap_eq_ok,
    checked_eq_ok, pure_eq_ok, Prod.mk.injEq, not_or, not_le, not_lt, hra, hrb, hlp, hz, zero_add]
  refine ⟨_, (), h.signed, (), ⟨h.posA, h.posB⟩, _, hshares, (), h.asked, tokenA, hs.tokenA,
    tokenB, hs.tokenB, v, hv, w, hw, _, ⟨hheld, rfl⟩, amountA, ?_, amountB, ?_, _, ⟨hheld, rfl⟩,
    rfl, rfl⟩
  · exact ⟨inRange_of_nonneg h.posA.le h.fitsA, rfl⟩
  · exact ⟨inRange_of_nonneg h.posB.le h.fitsB, rfl⟩

theorem mintsRoot_iff (hs : Booked tokenA tokenB s) (hz : s.totalShares = 0)
    (h : Offered T env tokenA tokenB s provider amountA amountB minShares) :
    MintsRoot T env s provider amountA amountB minShares ↔
      product amountA amountB ≠ 2 ^ 128 - 1 := by
  have hfits := h.fits
  refine ⟨?_, fun hne => ?_⟩
  · rintro ⟨t, ht, -⟩ htop
    simp only [addLiquidity, bind_eq_ok] at ht
    obtain ⟨_, -, _, -, _, hshares, -⟩ := ht
    obtain ⟨root, hroot⟩ := root_of_sharesFor hz hshares
    exact isqrt_ne_ok (by omega) root hroot
  · have hroot := isqrt_of_fits (n := product amountA amountB) (by omega)
    obtain ⟨t, ht⟩ := addLiquidity_of_root hs hz h hroot
    have hcall : invoke T env s (.addLiquidity provider amountA amountB minShares) = .ok t := by
      simp only [invoke, ht, ok_bind]
      rfl
    have hworth : worth s amountA amountB = Nat.sqrt (product amountA amountB) := if_pos hz
    have hpos := worth_pos hz h.posA h.posB
    obtain ⟨-, -, hminted⟩ := lpOf_add hs hcall
    rw [hworth] at hpos hminted
    exact ⟨t, ht, hminted, by omega⟩

/-- The root of every number is exact but at the very top of the range, and so
are the shares of a deposit into a pool without any. -/
theorem root_exact_iff {n : Nat} (hn : n < 2 ^ 128) {creation : Env Address contract} {w : W}
    {admin : Address} {feeBps : Nat}
    (h : initialise creation (.fresh w) admin tokenA tokenB feeBps = .ok s)
    {is : List (Input Address W contract (Call Address))}
    (hempty : (run (step T) s is).totalShares = 0)
    (hoffer : Offered T env tokenA tokenB (run (step T) s is) provider amountA amountB minShares) :
    (ExactRoot n ↔ n ≠ 2 ^ 128 - 1) ∧
      (MintsRoot T env (run (step T) s is) provider amountA amountB minShares ↔
        product amountA amountB ≠ 2 ^ 128 - 1) := by
  have hbooked : Throughout (step T) (Booked tokenA tokenB) s is :=
    throughout_of_along (fun _ _ _ hu _ ht => booked_step ht hu) (booked_initialise h)
      (along_true s is)
  exact ⟨exactRoot_iff hn, mintsRoot_iff (throughout_run hbooked) hempty hoffer⟩

/-- A pool whose provider at address 3 holds most of what an amount can be. -/
def sampleRich : Storage Nat (Nat → Nat → Nat) :=
  { sample with world := fun _ a => if a = 3 then 2 ^ 127 else 0 }

theorem offered_rich {amountA amountB : Int} (hA : 0 < amountA ∧ amountA ≤ maxI128)
    (hB : 0 < amountB ∧ amountB ≤ maxI128) (hfits : product amountA amountB < 2 ^ 128) :
    Offered (bookToken Nat) (Env.signed 0 1) 8 9 sampleRich 3 amountA amountB 0 where
  signed := rfl
  posA := hA.1
  posB := hB.1
  fitsA := hA.2
  fitsB := hB.2
  fits := hfits
  asked := Int.natCast_nonneg _
  paid := by
    have hle : maxI128 ≤ 2 ^ 127 := by decide
    refine ⟨_, _, if_pos ⟨hA.1.le, ?_⟩, if_pos ⟨hB.1.le, ?_⟩⟩
    · exact hA.2.trans hle
    · simpa [sampleRich] using hB.2.trans hle

theorem initialise_rich : initialise (Env.signed 0 0) (.fresh sampleRich.world) 1 8 9 30 =
    .ok sampleRich := rfl

theorem root_exact_iff_sample :
    ExactRoot 10 ∧ MintsRoot (bookToken Nat) (Env.signed 0 1) sampleRich 3 20000 5000 0 := by
  have hoffer : Offered (bookToken Nat) (Env.signed 0 1) 8 9
      (run (step (bookToken Nat)) sampleRich ([] : List (Input Nat (Nat → Nat → Nat) 0 (Call Nat))))
      3 20000 5000 0 := offered_rich (by decide) (by decide) (by decide)
  have hten : 10 < 2 ^ 128 := by norm_num
  have h := root_exact_iff hten initialise_rich rfl hoffer
  exact ⟨h.1.mpr (by decide), h.2.mpr (by decide)⟩

/-- Three units of the one token times the third part of the largest number. -/
theorem top_root_traps :
    ¬ ExactRoot (2 ^ 128 - 1) ∧
      Offered (bookToken Nat) (Env.signed 0 1) 8 9 sampleRich 3 3 ((2 ^ 128 - 1) / 3) 0 ∧
      ¬ MintsRoot (bookToken Nat) (Env.signed 0 1) sampleRich 3 3 ((2 ^ 128 - 1) / 3) 0 := by
  have hoffer : Offered (bookToken Nat) (Env.signed 0 1) 8 9 sampleRich 3 3
      ((2 ^ 128 - 1) / 3) 0 := offered_rich (by decide) (by decide) (by decide)
  refine ⟨fun h => (exactRoot_iff (by decide)).mp h rfl, hoffer, fun h => ?_⟩
  exact (mintsRoot_iff (booked_initialise initialise_rich) rfl hoffer).mp h (by decide)

end Suban.CpmmPool.FirstDeposit

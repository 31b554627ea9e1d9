import Mathlib.Algebra.Order.Ring.Abs
import Mathlib.Algebra.Order.Ring.Rat
import Mathlib.Tactic.Linarith
import Mathlib.Tactic.NormNum
import Suban.Basis.Division
import Suban.LendingPool.Interest

namespace Suban.LendingPool.Accrual

open Suban.Basis.Calls Suban.Basis.Division Suban.Basis.Tables Suban.Basis.Runs
open Suban.Soroban.Host
open Suban.LendingPool.State Suban.LendingPool.Contract Suban.LendingPool.Steps
open Suban.LendingPool.Setup Suban.LendingPool.Interest

variable {Address W : Type} [DecidableEq Address] {contract : Address}
variable {env : Env Address contract} {s t : Storage Address W} {g : Nat} {gaps : List Nat}

def accrue (s : Storage Address W) (env : Env Address contract) :
    Outcome PoolError (Storage Address W) :=
  accrueInterest env s

/-- The ledgers from one accrual to the next, when interest is accrued at each of
the given ledgers. -/
def gapsFrom : Nat → List Nat → List Nat
  | _, [] => []
  | last, ledger :: ledgers => (ledger - last) :: gapsFrom (max last ledger) ledgers

def gapsOf (s : Storage Address W) (calls : List (Env Address contract)) : List Nat :=
  gapsFrom s.lastAccrual (calls.map Env.sequence)

/-- What the interest of each gap at one load has beyond whole units, in units of
a thousand millionth. -/
def remainders (load : Int) (gaps : List Nat) : Int :=
  (gaps.map fun g : Nat => load * g % 1000000000).sum

/-- How often the borrows multiply over the gaps when nothing is rounded. -/
def growth (rate : Int) (gaps : List Nat) : ℚ :=
  (gaps.map fun g : Nat => (1 + rate * g / 1000000000 : ℚ)).prod

/-- The borrows after the gaps at compound interest, when nothing is rounded. -/
def compound (s : Storage Address W) (gaps : List Nat) : ℚ :=
  s.totalBorrows * growth s.interestRate gaps

/-- What one call for so many ledgers computes is in range. -/
structure Fits (s : Storage Address W) (g : Nat) : Prop where
  scaled : load s * g ≤ maxI128
  borrows : s.totalBorrows + interestFor s g ≤ maxI128
  share : minI128 ≤ interestFor s g * s.reserveFactor ∧
    interestFor s g * s.reserveFactor ≤ maxI128
  reserves : minI128 ≤ s.totalReserves + reserveShareFor s g ∧
    s.totalReserves + reserveShareFor s g ≤ maxI128

/-- The pool is open, and compound interest is in range at each of the calls. -/
structure Room (s : Storage Address W) (gaps : List Nat) : Prop where
  unpaused : s.poolPaused = false
  scaled : ∀ (before : List Nat) (g : Nat), before ++ [g] <+: gaps →
    compound s before * (s.interestRate * g) ≤ maxI128
  share : ∀ (before : List Nat) (g : Nat), before ++ [g] <+: gaps →
    minI128 ≤ compound s before * (s.interestRate * g) / 1000000000 * s.reserveFactor ∧
      compound s before * (s.interestRate * g) / 1000000000 * s.reserveFactor ≤ maxI128
  borrows : compound s gaps ≤ maxI128
  reserves :
    minI128 ≤ s.totalReserves + (compound s gaps - s.totalBorrows) * (s.reserveFactor / 10000) ∧
      s.totalReserves + (compound s gaps - s.totalBorrows) * (s.reserveFactor / 10000) ≤ maxI128

/-- Compound interest comes to whole units at each of the calls. -/
def Whole (s : Storage Address W) (gaps : List Nat) : Prop :=
  ∀ before, before <+: gaps → ∃ n : Int, compound s before = n

/-- No call but the last comes late enough to add a unit. -/
def TooSoon (s : Storage Address W) (gaps : List Nat) : Prop :=
  ∀ g ∈ gaps.dropLast, load s * g < 1000000000

/-- Calling often loses no unit of interest. The pool is paused, or one call for the
whole period does not fit; or the remainders of the gaps, at the load that the state
has, do not add up to a unit, or nothing is rounded at all. -/
def LosesNothing (s : Storage Address W) (gaps : List Nat) : Prop :=
  s.poolPaused = true ∨ ¬ Fits s gaps.sum ∨
    remainders (load s) gaps < 1000000000 ∧ (TooSoon s gaps ∨ Room s gaps) ∨
    Whole s gaps ∧ Room s gaps

theorem growth_cons (rate : Int) (g : Nat) (gaps : List Nat) :
    growth rate (g :: gaps) = (1 + rate * g / 1000000000) * growth rate gaps :=
  List.prod_cons

theorem growth_singleton (rate : Int) (g : Nat) :
    growth rate [g] = 1 + rate * g / 1000000000 :=
  List.prod_singleton

theorem rate_nonneg {rate : Int} (hr : 0 ≤ rate) (n : Nat) :
    (0 : ℚ) ≤ rate * n / 1000000000 :=
  div_nonneg (mul_nonneg (Int.cast_nonneg hr) (Nat.cast_nonneg n)) (by norm_num)

theorem one_add_le_growth {rate : Int} (hr : 0 ≤ rate) (gaps : List Nat) :
    1 + (rate * gaps.sum / 1000000000 : ℚ) ≤ growth rate gaps := by
  induction gaps with
  | nil => simp [growth]
  | cons g gaps ih =>
    have hg := rate_nonneg hr g
    have hsum := rate_nonneg hr gaps.sum
    rw [growth_cons, List.sum_cons, Nat.cast_add]
    refine le_trans ?_ (mul_le_mul_of_nonneg_left ih (by linarith))
    nlinarith [mul_nonneg hg hsum]

theorem one_le_growth {rate : Int} (hr : 0 ≤ rate) (gaps : List Nat) : 1 ≤ growth rate gaps := by
  have hsum := rate_nonneg hr gaps.sum
  linarith [one_add_le_growth hr gaps]

theorem interestFor_eq (hb : 0 ≤ s.totalBorrows) (hr : 0 ≤ s.interestRate) (g : Nat) :
    interestFor s g = load s * g / 1000000000 :=
  Int.tdiv_eq_ediv_of_nonneg (mul_nonneg (mul_nonneg hb hr) (Int.natCast_nonneg g))

theorem interestFor_mono {u v : Storage Address W} (hb : 0 ≤ u.totalBorrows)
    (hr : 0 ≤ u.interestRate) (hrate : v.interestRate = u.interestRate)
    (hle : u.totalBorrows ≤ v.totalBorrows) (g : Nat) : interestFor u g ≤ interestFor v g := by
  rw [interestFor_eq hb hr, interestFor_eq (hb.trans hle) (hrate ▸ hr), load, load, hrate]
  exact Int.ediv_le_ediv (by decide) (mul_le_mul_of_nonneg_right
    (mul_le_mul_of_nonneg_right hle hr) (Int.natCast_nonneg g))

theorem add_interestFor_le (hb : 0 ≤ s.totalBorrows) (hr : 0 ≤ s.interestRate) (g : Nat) :
    (s.totalBorrows + interestFor s g : ℚ) ≤
      s.totalBorrows * (1 + s.interestRate * g / 1000000000) := by
  have hle : 1000000000 * interestFor s g ≤ s.totalBorrows * s.interestRate * g := by
    rw [interestFor_eq hb hr]
    exact Int.mul_ediv_self_le (by decide)
  have hcast : (1000000000 * interestFor s g : ℚ) ≤ s.totalBorrows * s.interestRate * g := by
    exact_mod_cast hle
  linarith

theorem compound_nonneg (hb : 0 ≤ s.totalBorrows) (hr : 0 ≤ s.interestRate) (gaps : List Nat) :
    0 ≤ compound s gaps :=
  mul_nonneg (Int.cast_nonneg hb) (zero_le_one.trans (one_le_growth hr gaps))

theorem compound_nil : compound s [] = s.totalBorrows := mul_one _

theorem compound_cons (s : Storage Address W) (g : Nat) (gaps : List Nat) :
    compound s (g :: gaps) = compound s [g] * growth s.interestRate gaps := by
  rw [compound, compound, growth_cons, growth_singleton, mul_assoc]

theorem add_le_compound (hb : 0 ≤ s.totalBorrows) (hr : 0 ≤ s.interestRate) (gaps : List Nat) :
    (s.totalBorrows + interestFor s gaps.sum : ℚ) ≤ compound s gaps := by
  have hone := mul_le_mul_of_nonneg_left (one_add_le_growth hr gaps)
    (Int.cast_nonneg (R := ℚ) hb)
  exact (add_interestFor_le hb hr _).trans hone

/-- Rounding leaves no more than compound interest. -/
theorem compound_le (hb : 0 ≤ s.totalBorrows) (hr : 0 ≤ s.interestRate)
    (hborrows : t.totalBorrows = s.totalBorrows + interestFor s g)
    (hrate : t.interestRate = s.interestRate) (gaps : List Nat) :
    compound t gaps ≤ compound s (g :: gaps) := by
  rw [compound, compound, growth_cons, ← mul_assoc, hborrows, hrate, Int.cast_add]
  exact mul_le_mul_of_nonneg_right (add_interestFor_le hb hr g)
    (zero_le_one.trans (one_le_growth hr gaps))

theorem accrueInterest_keeps (h : accrueInterest env s = .ok t) :
    t.poolPaused = s.poolPaused ∧ t.reserveFactor = s.reserveFactor ∧
      t.totalReserves = s.totalReserves + reserveShareFor s (env.sequence - s.lastAccrual) := by
  simp only [accrueInterest, bind_eq_ok] at h
  obtain ⟨_, -, h⟩ := h
  split at h
  next hz =>
    cases pure_eq_ok.mp h
    refine ⟨rfl, rfl, ?_⟩
    rw [hz, reserveShareFor, interestFor, Nat.cast_zero, mul_zero, Int.zero_tdiv, zero_mul,
      Int.zero_tdiv, add_zero]
  next =>
    simp only [accrueLedgers, bind_eq_ok, checked_eq_ok, checkedDiv_eq_ok, pure_eq_ok] at h
    obtain ⟨_, ⟨-, rfl⟩, _, ⟨-, rfl⟩, _, ⟨-, -, rfl⟩, h⟩ := h
    obtain ⟨_, ⟨-, rfl⟩, _, ⟨-, -, rfl⟩, _, -, _, ⟨-, rfl⟩, rfl⟩ := h
    exact ⟨rfl, rfl, rfl⟩

theorem gapsOf_cons (h : accrue s env = .ok t) (calls : List (Env Address contract)) :
    gapsOf s (env :: calls) = (env.sequence - s.lastAccrual) :: gapsOf t calls := by
  rw [gapsOf, gapsOf, (accrueInterest_ok h).2.2]
  rfl

theorem interestFor_le (hb : 0 ≤ s.totalBorrows) (hr : 0 ≤ s.interestRate) {m n : Nat}
    (h : m ≤ n) : interestFor s m ≤ interestFor s n := by
  rw [interestFor_eq hb hr, interestFor_eq hb hr]
  exact Int.ediv_le_ediv (by decide)
    (mul_le_mul_of_nonneg_left (Int.ofNat_le.mpr h) (mul_nonneg hb hr))

theorem Fits.mono (h : Fits s g) (hb : 0 ≤ s.totalBorrows) (hr : 0 ≤ s.interestRate)
    (hreserves : minI128 ≤ s.totalReserves ∧ s.totalReserves ≤ maxI128) {n : Nat} (hn : n ≤ g) :
    Fits s n := by
  have hle := interestFor_le hb hr hn
  have hnonneg := interestFor_nonneg hr hb n
  have hscaled : load s * n ≤ load s * g :=
    mul_le_mul_of_nonneg_left (Int.ofNat_le.mpr hn) (mul_nonneg hb hr)
  refine ⟨hscaled.trans h.scaled, (add_le_add_right hle _).trans h.borrows, ?_, ?_⟩
  · exact mul_within (by decide) (by decide) h.share hnonneg hle
  · have hgreater := h.reserves
    unfold reserveShareFor at hgreater ⊢
    obtain hrf | hrf := le_total 0 s.reserveFactor
    · have hshare := Int.tdiv_le_tdiv (c := 10000) (by decide)
        (mul_le_mul_of_nonneg_right hle hrf)
      have hzero := Int.tdiv_nonneg (b := 10000) (mul_nonneg hnonneg hrf) (by decide)
      omega
    · have hshare := Int.tdiv_le_tdiv (c := 10000) (by decide)
        (mul_le_mul_of_nonpos_right hle hrf)
      have hzero := Int.tdiv_le_tdiv (c := 10000) (by decide)
        (mul_nonpos_of_nonneg_of_nonpos hnonneg hrf)
      rw [Int.zero_tdiv] at hzero
      omega

theorem accrueLedgers_fits (h : Fits s g) (hg : 0 < g) (hb : 0 ≤ s.totalBorrows)
    (hr : 0 ≤ s.interestRate) : ∃ t, accrueLedgers env s g = .ok t := by
  have hload : 0 ≤ s.totalBorrows * s.interestRate := mul_nonneg hb hr
  have hledgers : (1 : Int) ≤ g := by omega
  have hledger := (le_mul_of_one_le_right hload hledgers).trans h.scaled
  have hinterest := interestFor_nonneg hr hb g
  simp only [accrueLedgers, bind_eq_ok, checked_eq_ok, checkedDiv_eq_ok, pure_eq_ok]
  exact ⟨_, _, ⟨inRange_of_nonneg hload hledger, rfl⟩,
    _, ⟨inRange_of_nonneg (mul_nonneg hload (Int.natCast_nonneg _)) h.scaled, rfl⟩,
    _, ⟨by decide,
      inRange_of_nonneg hinterest ((le_add_of_nonneg_left hb).trans h.borrows), rfl⟩,
    _, ⟨h.share, rfl⟩,
    _, ⟨by decide, tdiv_within (by decide) (by decide) (by decide) h.share, rfl⟩,
    _, ⟨inRange_of_nonneg (add_nonneg hb hinterest) h.borrows, rfl⟩,
    _, ⟨h.reserves, rfl⟩, rfl⟩

theorem Fits.accepted (h : Fits s (env.sequence - s.lastAccrual)) (hopen : s.poolPaused = false)
    (hb : 0 ≤ s.totalBorrows) (hr : 0 ≤ s.interestRate) : ∃ t, accrue s env = .ok t := by
  simp only [accrue, accrueInterest, requireNotPaused, bind_eq_ok, rejectIf_eq_ok, hopen]
  split
  next => exact ⟨s, (), Bool.false_ne_true, rfl⟩
  next hz =>
    obtain ⟨t, ht⟩ := accrueLedgers_fits h (Nat.pos_of_ne_zero hz) hb hr
    exact ⟨t, (), Bool.false_ne_true, ht⟩

/-- The share of the reserves is that of a part of the interest. -/
theorem exists_reserveShareFor_eq (hb : 0 ≤ s.totalBorrows) (hr : 0 ≤ s.interestRate) (g : Nat) :
    ∃ x : ℚ, 0 ≤ x ∧ x ≤ interestFor s g ∧
      (reserveShareFor s g : ℚ) = x * (s.reserveFactor / 10000) :=
  exists_tdiv_eq (interestFor_nonneg hr hb g) (by decide) s.reserveFactor

section Compounding

variable (hb : 0 ≤ s.totalBorrows) (hr : 0 ≤ s.interestRate)
  (hreserves : minI128 ≤ s.totalReserves ∧ s.totalReserves ≤ maxI128)

include hb hr hreserves

theorem Room.fits (h : Room s (g :: gaps)) : Fits s g := by
  have hfirst : ([] : List Nat) ++ [g] <+: g :: gaps := ⟨gaps, rfl⟩
  have hinterest : (0 : ℚ) ≤ interestFor s g := Int.cast_nonneg (interestFor_nonneg hr hb g)
  have hadded : (s.totalBorrows + interestFor s g : ℚ) ≤ compound s (g :: gaps) := by
    have hle := Int.cast_le (R := ℚ) |>.mpr
      (interestFor_le hb hr (Nat.le_add_right g gaps.sum) (s := s))
    have hall := add_le_compound hb hr (g :: gaps)
    rw [List.sum_cons] at hall
    linarith
  have hpart : (interestFor s g : ℚ) ≤
      compound s [] * (s.interestRate * g) / 1000000000 := by
    have hle := add_interestFor_le hb hr g
    rw [compound_nil]
    linarith
  have hscaled := h.scaled [] g hfirst
  rw [compound_nil, ← mul_assoc] at hscaled
  have hshare := mul_within (Int.cast_nonpos.mpr (by decide)) (Int.cast_nonneg (by decide))
    (h.share [] g hfirst) hinterest hpart
  obtain ⟨x, hx, hle, heq⟩ := exists_reserveShareFor_eq hb hr g
  have hstored : (minI128 : ℚ) ≤ s.totalReserves ∧ (s.totalReserves : ℚ) ≤ maxI128 := by
    exact_mod_cast hreserves
  have htotal := add_mul_within hstored h.reserves hx (by linarith)
  rw [← heq] at htotal
  exact ⟨by exact_mod_cast hscaled, by exact_mod_cast hadded.trans h.borrows,
    by exact_mod_cast hshare, by exact_mod_cast htotal⟩

theorem Room.rest (h : Room s (g :: gaps)) (hopen : t.poolPaused = s.poolPaused)
    (hrate : t.interestRate = s.interestRate) (hrf : t.reserveFactor = s.reserveFactor)
    (htb : t.totalBorrows = s.totalBorrows + interestFor s g)
    (htr : t.totalReserves = s.totalReserves + reserveShareFor s g) : Room t gaps := by
  have hle := compound_le hb hr htb hrate
  have htb' : 0 ≤ t.totalBorrows := htb ▸ add_nonneg hb (interestFor_nonneg hr hb g)
  have hmore (before : List Nat) (n : Nat) :
      compound t before * (t.interestRate * n) ≤
        compound s (g :: before) * (s.interestRate * n) := by
    rw [hrate]
    exact mul_le_mul_of_nonneg_right (hle before)
      (mul_nonneg (Int.cast_nonneg hr) (Nat.cast_nonneg n))
  have hnonneg (before : List Nat) (n : Nat) :
      0 ≤ compound t before * (t.interestRate * n) :=
    mul_nonneg (compound_nonneg htb' (hrate ▸ hr) before)
      (mul_nonneg (hrate ▸ Int.cast_nonneg hr) (Nat.cast_nonneg n))
  refine ⟨hopen.trans h.unpaused, ?_, ?_, (hle gaps).trans h.borrows, ?_⟩
  · intro before n hbefore
    exact (hmore before n).trans
      (h.scaled (g :: before) n (List.prefix_cons_inj g |>.mpr hbefore))
  · intro before n hbefore
    rw [hrf]
    exact mul_within (Int.cast_nonpos.mpr (by decide)) (Int.cast_nonneg (by decide))
      (h.share (g :: before) n (List.prefix_cons_inj g |>.mpr hbefore))
      (div_nonneg (hnonneg before n) (by norm_num))
      (div_le_div_of_nonneg_right (hmore before n) (by norm_num))
  · obtain ⟨x, hx, hxle, heq⟩ := exists_reserveShareFor_eq hb hr g
    have hstored : (minI128 : ℚ) ≤ s.totalReserves ∧ (s.totalReserves : ℚ) ≤ maxI128 := by
      exact_mod_cast hreserves
    have hadded : (t.totalBorrows : ℚ) = s.totalBorrows + interestFor s g := by
      exact_mod_cast htb
    have hgrows := add_le_compound htb' (hrate ▸ hr) gaps
    have hinterest : (0 : ℚ) ≤ interestFor t gaps.sum :=
      Int.cast_nonneg (interestFor_nonneg (hrate ▸ hr) htb' _)
    have htotal := add_mul_within hstored h.reserves
      (a := x + (compound t gaps - t.totalBorrows)) (by linarith) (by linarith [hle gaps])
    rw [htr, hrf, Int.cast_add, heq, add_assoc, ← add_mul]
    exact htotal

/-- With room for all the calls the first is accepted, and leaves room for the
others. -/
theorem Room.accrues {calls : List (Env Address contract)}
    (h : Room s (gapsOf s (env :: calls))) :
    ∃ t, accrue s env = .ok t ∧ Room t (gapsOf t calls) ∧
      (minI128 ≤ t.totalReserves ∧ t.totalReserves ≤ maxI128) ∧
      gapsOf s (env :: calls) = (env.sequence - s.lastAccrual) :: gapsOf t calls := by
  have hfits := Room.fits hb hr hreserves h
  obtain ⟨t, ht⟩ := hfits.accepted h.unpaused hb hr
  obtain ⟨htb, hrate, -⟩ := accrueInterest_ok ht
  obtain ⟨hopen, hrf, htr⟩ := accrueInterest_keeps ht
  have hgaps := gapsOf_cons ht calls
  rw [hgaps] at h
  exact ⟨t, ht, Room.rest hb hr hreserves h hopen hrate hrf htb htr, htr ▸ hfits.reserves, hgaps⟩

end Compounding

theorem sum_interestFor_le {calls : List (Env Address contract)} (h : Room s (gapsOf s calls))
    (hb : 0 ≤ s.totalBorrows) (hr : 0 ≤ s.interestRate)
    (hreserves : minI128 ≤ s.totalReserves ∧ s.totalReserves ≤ maxI128) :
    s.totalBorrows + ((gapsOf s calls).map (interestFor s)).sum ≤
      (run accrue s calls).totalBorrows := by
  induction calls generalizing s with
  | nil => exact (add_zero _).le
  | cons env calls ih =>
    obtain ⟨t, ht, hroom, htr, hgaps⟩ := Room.accrues hb hr hreserves h
    obtain ⟨htb, hrate, -⟩ := accrueInterest_ok ht
    have hinterest := interestFor_nonneg hr hb (env.sequence - s.lastAccrual)
    have hle : s.totalBorrows ≤ t.totalBorrows := by omega
    have hrest := ih hroom (hb.trans hle) (hrate ▸ hr) htr
    have hmono : ((gapsOf t calls).map (interestFor s)).sum ≤
        ((gapsOf t calls).map (interestFor t)).sum :=
      List.sum_le_sum fun g _ => interestFor_mono hb hr hrate hle g
    rw [run_ok ht, hgaps, List.map_cons, List.sum_cons]
    omega

/-- Where nothing is rounded the borrows compound. -/
theorem run_whole {calls : List (Env Address contract)} (h : Room s (gapsOf s calls))
    (hb : 0 ≤ s.totalBorrows) (hr : 0 ≤ s.interestRate)
    (hreserves : minI128 ≤ s.totalReserves ∧ s.totalReserves ≤ maxI128)
    (hwhole : Whole s (gapsOf s calls)) :
    ((run accrue s calls).totalBorrows : ℚ) = compound s (gapsOf s calls) := by
  induction calls generalizing s with
  | nil => exact compound_nil.symm
  | cons env calls ih =>
    obtain ⟨t, ht, hroom, htr, hgaps⟩ := Room.accrues hb hr hreserves h
    obtain ⟨htb, hrate, -⟩ := accrueInterest_ok ht
    have hinterest := interestFor_nonneg hr hb (env.sequence - s.lastAccrual)
    rw [hgaps] at hwhole ⊢
    have hexact : (t.totalBorrows : ℚ) = compound s [env.sequence - s.lastAccrual] := by
      obtain ⟨n, hn⟩ := hwhole [env.sequence - s.lastAccrual] ⟨_, rfl⟩
      have hdvd : load s * (env.sequence - s.lastAccrual : Nat) =
          1000000000 * (n - s.totalBorrows) := by
        have : (load s * (env.sequence - s.lastAccrual : Nat) : ℚ) =
            1000000000 * (n - s.totalBorrows) := by
          rw [← hn, compound, growth_singleton, load, Int.cast_mul]
          ring
        exact_mod_cast this
      rw [hn, htb, interestFor_eq hb hr, hdvd, Int.mul_ediv_cancel_left _ (by decide)]
      congr 1
      omega
    have hlater (before : List Nat) :
        compound t before = compound s ((env.sequence - s.lastAccrual) :: before) := by
      rw [compound_cons, ← hexact, compound, hrate]
    rw [run_ok ht, ih hroom (by omega) (hrate ▸ hr) htr, hlater]
    intro before hbefore
    obtain ⟨n, hn⟩ := hwhole (_ :: before) (List.prefix_cons_inj _ |>.mpr hbefore)
    exact ⟨n, (hlater before).trans hn⟩

/-- Calls that come too soon to add anything only put the count back. -/
theorem run_idle {early : List (Env Address contract)} {last : Env Address contract}
    (hopen : s.poolPaused = false) (h : Fits s (gapsOf s (early ++ [last])).sum)
    (hb : 0 ≤ s.totalBorrows) (hr : 0 ≤ s.interestRate)
    (hreserves : minI128 ≤ s.totalReserves ∧ s.totalReserves ≤ maxI128)
    (hidle : ∀ g ∈ gapsOf s early, interestFor s g = 0) :
    (run accrue s (early ++ [last])).totalBorrows =
      s.totalBorrows + ((gapsOf s (early ++ [last])).map (interestFor s)).sum := by
  induction early generalizing s with
  | nil =>
    have hfits : Fits s (last.sequence - s.lastAccrual) := h
    obtain ⟨t, ht⟩ := hfits.accepted hopen hb hr
    rw [List.nil_append, run_ok ht]
    exact (accrueInterest_ok ht).1.trans (congrArg _ (add_zero _).symm)
  | cons env early ih =>
    have hfits : Fits s (env.sequence - s.lastAccrual) :=
      h.mono hb hr hreserves (Nat.le_add_right _ _)
    obtain ⟨t, ht⟩ := hfits.accepted hopen hb hr
    obtain ⟨htb, hrate, -⟩ := accrueInterest_ok ht
    obtain ⟨htopen, hrf, htr⟩ := accrueInterest_keeps ht
    rw [gapsOf_cons ht, List.forall_mem_cons] at hidle
    obtain ⟨hzero, hrest⟩ := hidle
    rw [hzero, add_zero] at htb
    rw [reserveShareFor, hzero, zero_mul, Int.zero_tdiv, add_zero] at htr
    have hload : load t = load s := by rw [load, load, htb, hrate]
    have hinterest : interestFor t = interestFor s := by
      funext g
      rw [interestFor, interestFor, htb, hrate]
    have hshare : reserveShareFor t = reserveShareFor s := by
      funext g
      rw [reserveShareFor, reserveShareFor, hinterest, hrf]
    rw [List.cons_append, gapsOf_cons ht] at h ⊢
    have hafter := h.mono hb hr hreserves (Nat.le_add_left (gapsOf t (early ++ [last])).sum _)
    have hfitsAfter : Fits t (gapsOf t (early ++ [last])).sum := by
      refine ⟨hload ▸ hafter.scaled, ?_, ?_, ?_⟩
      · rw [htb, hinterest]
        exact hafter.borrows
      · rw [hinterest, hrf]
        exact hafter.share
      · rw [htr, hshare]
        exact hafter.reserves
    rw [run_ok ht, List.map_cons, List.sum_cons, hzero, zero_add,
      ih (htopen.trans hopen) hfitsAfter (htb ▸ hb) (hrate ▸ hr) (htr ▸ hreserves)
        (hinterest ▸ hrest), hinterest, htb]

theorem gapsFrom_sum {last : Nat} {ledgers : List Nat} {final : Nat}
    (h : ∀ e ∈ ledgers, e ≤ final) : (gapsFrom last (ledgers ++ [final])).sum = final - last := by
  induction ledgers generalizing last with
  | nil => exact List.sum_singleton
  | cons e ledgers ih =>
    obtain ⟨he, hrest⟩ := List.forall_mem_cons.mp h
    rw [List.cons_append, gapsFrom, List.sum_cons, ih hrest]
    omega

theorem gapsOf_sum {early : List (Env Address contract)} {last : Env Address contract}
    (hearly : ∀ e ∈ early, e.sequence ≤ last.sequence) :
    (gapsOf s (early ++ [last])).sum = last.sequence - s.lastAccrual := by
  rw [gapsOf, List.map_append]
  exact gapsFrom_sum (List.forall_mem_map.mpr hearly)

theorem exists_gapsFrom_concat (last : Nat) (ledgers : List Nat) (final : Nat) :
    ∃ g, gapsFrom last (ledgers ++ [final]) = gapsFrom last ledgers ++ [g] := by
  induction ledgers generalizing last with
  | nil => exact ⟨final - last, rfl⟩
  | cons e ledgers ih =>
    obtain ⟨g, hg⟩ := ih (max last e)
    refine ⟨g, ?_⟩
    rw [List.cons_append, gapsFrom, gapsFrom, hg, List.cons_append]

theorem dropLast_gapsOf (early : List (Env Address contract)) (last : Env Address contract) :
    (gapsOf s (early ++ [last])).dropLast = gapsOf s early := by
  obtain ⟨g, hg⟩ := exists_gapsFrom_concat s.lastAccrual (early.map Env.sequence) last.sequence
  rw [gapsOf, List.map_append, List.map_singleton, hg, List.dropLast_concat]
  rfl

theorem scaled_sum_interestFor (hb : 0 ≤ s.totalBorrows) (hr : 0 ≤ s.interestRate)
    (gaps : List Nat) :
    1000000000 * (gaps.map (interestFor s)).sum + remainders (load s) gaps =
      load s * gaps.sum := by
  induction gaps with
  | nil => exact (mul_zero _).symm
  | cons g gaps ih =>
    have hpart := Int.mul_ediv_add_emod (load s * g) 1000000000
    simp only [remainders, List.map_cons, List.sum_cons, Nat.cast_add, mul_add] at ih ⊢
    rw [interestFor_eq hb hr]
    omega

/-- Rounding each gap down on its own loses no unit exactly when the remainders do
not add up to one. -/
theorem interestFor_sum_le_iff (hb : 0 ≤ s.totalBorrows) (hr : 0 ≤ s.interestRate)
    (gaps : List Nat) :
    interestFor s gaps.sum ≤ (gaps.map (interestFor s)).sum ↔
      remainders (load s) gaps < 1000000000 := by
  have hsum := scaled_sum_interestFor hb hr gaps
  rw [interestFor_eq hb hr]
  omega

theorem run_accrues (calls : List (Env Address contract)) (hb : 0 ≤ s.totalBorrows)
    (hr : 0 ≤ s.interestRate) : s.totalBorrows ≤ (run accrue s calls).totalBorrows := by
  have hall : Throughout accrue
      (fun u => u.interestRate = s.interestRate ∧ s.totalBorrows ≤ u.totalBorrows) s calls := by
    refine throughout_of_along (C := fun _ _ => True) ?_ ⟨rfl, le_rfl⟩ (along_true s calls)
    rintro u e v ⟨hrate, hle⟩ - hv
    obtain ⟨hborrows, hsame, -⟩ := accrueInterest_ok hv
    refine ⟨hsame.trans hrate, ?_⟩
    rw [hborrows]
    exact hle.trans (le_add_of_nonneg_right (interestFor_nonneg (hrate ▸ hr) (hb.trans hle) _))
  exact (throughout_run hall).2

theorem accrue_paused (hopen : s.poolPaused = true) (env : Env Address contract) :
    accrue s env = .error (.error .poolPaused) := by
  simp only [accrue, accrueInterest, requireNotPaused, rejectIf, hopen, if_true]
  rfl

theorem fits_of_accrue (h : accrue s env = .ok t) :
    env.sequence - s.lastAccrual = 0 ∨ Fits s (env.sequence - s.lastAccrual) := by
  simp only [accrue, accrueInterest, bind_eq_ok] at h
  obtain ⟨_, -, h⟩ := h
  split at h
  next hz => exact .inl hz
  next =>
    simp only [accrueLedgers, bind_eq_ok, checked_eq_ok, checkedDiv_eq_ok] at h
    obtain ⟨_, ⟨-, rfl⟩, _, ⟨hscaled, rfl⟩, _, ⟨-, -, rfl⟩, h⟩ := h
    obtain ⟨_, ⟨hshare, rfl⟩, _, ⟨-, -, rfl⟩, _, ⟨hborrows, rfl⟩, _, ⟨hreserves, rfl⟩, -⟩ := h
    exact .inr ⟨hscaled.2, hborrows.2, hshare, hreserves⟩

theorem once_of_refused {last : Env Address contract} (h : ∀ t, accrue s last ≠ .ok t) :
    run accrue s [last] = s := by
  cases hone : accrue s last with
  | error e => exact run_error hone []
  | ok t => exact absurd hone (h t)

theorem once_of_unfit {last : Env Address contract}
    (h : ¬ Fits s (last.sequence - s.lastAccrual)) :
    (run accrue s [last]).totalBorrows = s.totalBorrows := by
  cases hone : accrue s last with
  | error e => rw [run_error hone]; rfl
  | ok t =>
    have hz := (fits_of_accrue hone).resolve_right h
    have hnone : interestFor s 0 = 0 := by
      rw [interestFor, Nat.cast_zero, mul_zero, Int.zero_tdiv]
    rw [run_ok hone]
    change t.totalBorrows = _
    rw [(accrueInterest_ok hone).1, hz, hnone, add_zero]

theorem once_le (last : Env Address contract) (hb : 0 ≤ s.totalBorrows)
    (hr : 0 ≤ s.interestRate) :
    (run accrue s [last]).totalBorrows ≤
      s.totalBorrows + interestFor s (last.sequence - s.lastAccrual) := by
  cases hone : accrue s last with
  | error e =>
    rw [run_error hone]
    exact le_add_of_nonneg_right (interestFor_nonneg hr hb _)
  | ok t =>
    rw [run_ok hone]
    exact (accrueInterest_ok hone).1.le

theorem once_le_of_few {calls : List (Env Address contract)} {last : Env Address contract}
    (hb : 0 ≤ s.totalBorrows) (hr : 0 ≤ s.interestRate)
    (hsum : (gapsOf s calls).sum = last.sequence - s.lastAccrual)
    (hfew : remainders (load s) (gapsOf s calls) < 1000000000) :
    (run accrue s [last]).totalBorrows ≤
      s.totalBorrows + ((gapsOf s calls).map (interestFor s)).sum := by
  have hparts := (interestFor_sum_le_iff hb hr _).mpr hfew
  rw [hsum] at hparts
  have honce := once_le last hb hr
  omega

/-- Where no earlier call adds anything, calling often leaves no less exactly when
the remainders do not add up to a unit. -/
theorem once_le_idle_iff {early : List (Env Address contract)} {last : Env Address contract}
    (hopen : s.poolPaused = false) (hfits : Fits s (gapsOf s (early ++ [last])).sum)
    (hb : 0 ≤ s.totalBorrows) (hr : 0 ≤ s.interestRate)
    (hreserves : minI128 ≤ s.totalReserves ∧ s.totalReserves ≤ maxI128)
    (hsum : (gapsOf s (early ++ [last])).sum = last.sequence - s.lastAccrual)
    (hsoon : TooSoon s (gapsOf s (early ++ [last]))) :
    (run accrue s [last]).totalBorrows ≤ (run accrue s (early ++ [last])).totalBorrows ↔
      remainders (load s) (gapsOf s (early ++ [last])) < 1000000000 := by
  have hidle : ∀ g ∈ gapsOf s early, interestFor s g = 0 := by
    intro g hg
    rw [TooSoon, dropLast_gapsOf] at hsoon
    rw [interestFor_eq hb hr]
    exact Int.ediv_eq_zero_of_lt
      (mul_nonneg (mul_nonneg hb hr) (Int.natCast_nonneg g)) (hsoon g hg)
  rw [run_idle hopen hfits hb hr hreserves hidle, ← interestFor_sum_le_iff hb hr]
  rw [hsum] at hfits ⊢
  obtain ⟨t, ht⟩ := hfits.accepted hopen hb hr
  rw [run_ok ht]
  change t.totalBorrows ≤ _ ↔ _
  rw [(accrueInterest_ok ht).1, add_le_add_iff_left]

/-- Accruing interest at some ledgers and then at a last one leaves no less than
accruing it there alone where the calls lose no unit; where the earlier calls come
too soon to add anything, only there. -/
theorem once_le_often (hb : 0 ≤ s.totalBorrows) (hr : 0 ≤ s.interestRate)
    (hreserves : minI128 ≤ s.totalReserves ∧ s.totalReserves ≤ maxI128)
    {early : List (Env Address contract)} {last : Env Address contract}
    (hearly : ∀ e ∈ early, e.sequence ≤ last.sequence) :
    (LosesNothing s (gapsOf s (early ++ [last])) →
      (run accrue s [last]).totalBorrows ≤ (run accrue s (early ++ [last])).totalBorrows) ∧
    (TooSoon s (gapsOf s (early ++ [last])) →
      (run accrue s [last]).totalBorrows ≤ (run accrue s (early ++ [last])).totalBorrows →
      LosesNothing s (gapsOf s (early ++ [last]))) := by
  have hsum := gapsOf_sum (s := s) hearly
  have hpaused (hopen : s.poolPaused = true) :
      (run accrue s [last]).totalBorrows ≤ (run accrue s (early ++ [last])).totalBorrows := by
    rw [once_of_refused fun t ht => nomatch (accrue_paused hopen last).symm.trans ht]
    exact run_accrues _ hb hr
  have hunfit (h : ¬ Fits s (gapsOf s (early ++ [last])).sum) :
      (run accrue s [last]).totalBorrows ≤ (run accrue s (early ++ [last])).totalBorrows := by
    rw [hsum] at h
    rw [once_of_unfit h]
    exact run_accrues _ hb hr
  constructor
  · rintro (hopen | h | ⟨hfew, hsoon | hroom⟩ | ⟨hwhole, hroom⟩)
    · exact hpaused hopen
    · exact hunfit h
    · by_cases hopen : s.poolPaused = true
      · exact hpaused hopen
      by_cases hfits : Fits s (gapsOf s (early ++ [last])).sum
      · exact (once_le_idle_iff (Bool.eq_false_of_not_eq_true hopen) hfits hb hr hreserves hsum
          hsoon).mpr hfew
      · exact hunfit hfits
    · exact (once_le_of_few hb hr hsum hfew).trans (sum_interestFor_le hroom hb hr hreserves)
    · have hgrown := add_le_compound hb hr (gapsOf s (early ++ [last]))
      have honce : ((run accrue s [last]).totalBorrows : ℚ) ≤
          s.totalBorrows + interestFor s (gapsOf s (early ++ [last])).sum := by
        rw [hsum]
        exact_mod_cast once_le last hb hr
      rw [← run_whole hroom hb hr hreserves hwhole] at hgrown
      exact_mod_cast honce.trans hgrown
  · intro hsoon hle
    by_cases hopen : s.poolPaused = true
    · exact .inl hopen
    by_cases hfits : Fits s (gapsOf s (early ++ [last])).sum
    · have hfew := (once_le_idle_iff (Bool.eq_false_of_not_eq_true hopen) hfits hb hr hreserves
        hsum hsoon).mp hle
      exact .inr (.inr (.inl ⟨hfew, .inl hsoon⟩))
    · exact .inr (.inl hfits)

/-- User 2 borrows 1000. Half a unit of interest comes up in 1000 ledgers. -/
def borrowed : Storage Nat (Nat → Nat → Nat) :=
  run (step (bookMarket Nat)) (.fresh sampleWorld) (samplePool ++
    [.call (Env.signed 0 0) (.deposit 2 4000), .call (Env.signed 0 0) (.setCollateral 2 4000),
      .call (Env.signed 0 0) (.borrow 2 1000)])

theorem borrowed_sound : 0 ≤ borrowed.totalBorrows ∧ 0 ≤ borrowed.interestRate ∧
    minI128 ≤ borrowed.totalReserves ∧ borrowed.totalReserves ≤ maxI128 := by
  decide +kernel

def halfway : List (Env Nat 0) := [Env.signed 0 1000]

def due : Env Nat 0 := Env.signed 0 2000

/-- Half a unit is due at the first call, and one and a quarter more at the second. -/
theorem once_le_often_sample :
    (run accrue borrowed [(Env.signed 0 3500 : Env Nat 0)]).totalBorrows ≤
      (run accrue borrowed (halfway ++ [Env.signed 0 3500])).totalBorrows := by
  refine (once_le_often borrowed_sound.1 borrowed_sound.2.1 borrowed_sound.2.2 (by decide)).1
    (.inr (.inr (.inl ⟨?_, .inl ?_⟩)))
  · decide +kernel
  · unfold TooSoon
    decide +kernel

/-- Two accruals of half a unit each add nothing, and one of a unit adds it. -/
theorem often_adds_less :
    (run accrue borrowed [due]).totalBorrows = 1001 ∧
      (run accrue borrowed (halfway ++ [due])).totalBorrows = 1000 ∧
      ¬ (run accrue borrowed [due]).totalBorrows ≤
        (run accrue borrowed (halfway ++ [due])).totalBorrows := by
  decide +kernel

end Suban.LendingPool.Accrual

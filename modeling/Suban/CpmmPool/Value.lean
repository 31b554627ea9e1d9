import Suban.CpmmPool.Soundness

namespace Suban.CpmmPool.Value

open Suban.Basis.Calls Suban.Basis.Runs Suban.Basis.Pools Suban.Basis.Pools.Pool
open Suban.Soroban.Host
open Suban.CpmmPool.Contract Suban.CpmmPool.Transitions Suban.CpmmPool.Books
open Suban.CpmmPool.Soundness

variable {Address W : Type} [DecidableEq Address] {contract tokenA tokenB : Address}
variable {T : Sep41 Address W} {env : Env Address contract} {s t : Storage Address W}

theorem keepsValue_add (hs : Booked tokenA tokenB s) {amountA amountB : Int} (ha : 0 < amountA)
    (hb : 0 < amountB) :
    KeepsValue (pool s) ⟨s.reserveA + amountA, s.reserveB + amountB,
      s.totalShares + worth s amountA amountB⟩ := by
  obtain ⟨hz, hra, -⟩ | ⟨hpos, hra, hrb⟩ := hs.stocked
  · exact keepsValue_of_empty hz hra _
  · have hworth : worth s amountA amountB = min ((amountA * s.totalShares).tdiv s.reserveA)
        ((amountB * s.totalShares).tdiv s.reserveB) := if_neg hpos.ne'
    refine keepsValue_of_parts hs.stocked (hs.stocked_add ha hb) ?_ ?_
    · exact join_part hra (mul_nonneg ha.le hpos.le) (hworth.trans_le (min_le_left _ _))
    · exact join_part hrb (mul_nonneg hb.le hpos.le) (hworth.trans_le (min_le_right _ _))

theorem keepsValue_remove (hs : Booked tokenA tokenB s) {sharesIn : Int} (hpos : 0 < sharesIn)
    (hle : sharesIn ≤ s.totalShares) :
    KeepsValue (pool s) ⟨s.reserveA - payout s sharesIn s.reserveA,
      s.reserveB - payout s sharesIn s.reserveB, s.totalShares - sharesIn⟩ := by
  have htotal := hpos.trans_le hle
  refine keepsValue_of_parts hs.stocked (hs.stocked_remove hpos hle) ?_ ?_
  · exact leave_part htotal (mul_nonneg hpos.le hs.stocked.a_nonneg)
  · exact leave_part htotal (mul_nonneg hpos.le hs.stocked.b_nonneg)

theorem output_product (hs : Booked tokenA tokenB s) {reserveIn reserveOut amountIn : Int}
    (hin : 0 < reserveIn) (hout : 0 < reserveOut) (hpos : 0 < amountIn) :
    reserveIn * reserveOut ≤
      (reserveIn + amountIn) * (reserveOut - output s reserveIn reserveOut amountIn) := by
  obtain ⟨hnet, hfee⟩ := hs.afterFee_bounds hpos
  exact trade_product hin hout hnet hfee

theorem product_swap {trader tokenIn : Address} {amountIn minOut : Int}
    (h : invoke T env s (.swap trader tokenIn amountIn minOut) = .ok t)
    (hs : Booked tokenA tokenB s) : (pool s).product ≤ (pool t).product := by
  cases invoke_transition hs.tokenA hs.tokenB h with
  | swapAForB trader amountIn minOut w hauth hpos ha hb hmin hmoves =>
    obtain ⟨-, hra, hrb⟩ := hs.positive ha
    exact output_product hs hra hrb hpos
  | swapBForA trader amountIn minOut w hauth hpos hb ha hmin hmoves =>
    obtain ⟨-, hra, hrb⟩ := hs.positive ha
    have hgrown := output_product hs hrb hra hpos
    simp only [product, pool, Storage.publish]
    rw [mul_comm s.reserveA, mul_comm (s.reserveA - _)]
    exact hgrown

theorem keepsValue_step {i : Input Address W contract (Call Address)} (h : step T s i = .ok t)
    (hs : Booked tokenA tokenB s) : KeepsValue (pool s) (pool t) := by
  cases i with
  | world w =>
    cases pure_eq_ok.mp h
    exact keepsValue_refl (pool s)
  | call env c =>
    have hinvoke : invoke T env s c = .ok t := h
    cases invoke_transition hs.tokenA hs.tokenB hinvoke with
    | add provider amountA amountB minShares w hauth ha hb hreserves hmin hmoves =>
      exact keepsValue_add hs ha hb
    | remove provider sharesIn minA minB w hauth hpos hle htotal hminA hminB hmoves =>
      exact keepsValue_remove hs hpos (hle.trans (hs.le_total provider))
    | swapAForB | swapBForA => exact keepsValue_of_product rfl (product_swap hinvoke hs)

/-- The first shares are the square root of what they are given for, and later
ones are covered because value is kept. -/
theorem covered_step {i : Input Address W contract (Call Address)} (h : step T s i = .ok t)
    (hs : Booked tokenA tokenB s) (hc : (pool s).Covered) : (pool t).Covered := by
  obtain ⟨hz, hra, hrb⟩ | ⟨-, hra, hrb⟩ := hs.stocked
  · cases i with
    | world w =>
      cases pure_eq_ok.mp h
      exact hc
    | call env c =>
      cases invoke_transition hs.tokenA hs.tokenB h with
      | add provider amountA amountB minShares w hauth ha hb hreserves hmin hmoves =>
        have hroot := Nat.sqrt_le (amountA.toNat * amountB.toNat)
        simp only [pool] at hz hra hrb
        simp only [Covered, product, pool, Storage.publish, worth, hz, hra, hrb, zero_add, if_true]
        zify at hroot
        rwa [Int.toNat_of_nonneg ha.le, Int.toNat_of_nonneg hb.le] at hroot
      | remove provider sharesIn minA minB w hauth hpos hle htotal => exact absurd hz htotal
      | swapAForB trader amountIn minOut w hauth hpos ha => exact absurd hra ha
      | swapBForA trader amountIn minOut w hauth hpos hb => exact absurd hrb hb
  · exact hc.keep (mul_pos hra hrb) (booked_step h hs).stocked (keepsValue_step h hs)

/-- While there are shares, what a share is worth never drops. -/
theorem keepsValue_run {is : List (Input Address W contract (Call Address))}
    (hs : Booked tokenA tokenB s)
    (hT : Throughout (step T) (fun u => 0 < u.totalShares) s is) :
    KeepsValue (pool s) (pool (run (step T) s is)) := by
  induction is generalizing s with
  | nil => exact keepsValue_refl (pool s)
  | cons i is ih =>
    cases hi : step T s i with
    | ok t =>
      have hrest := hT.2
      rw [next_ok hi] at hrest
      have hshares := throughout_head hrest
      rw [run, List.foldl_cons, next_ok hi]
      exact keepsValue_trans hshares (keepsValue_step hi hs) (ih (booked_step hi hs) hrest)
    | error e =>
      have hrest := hT.2
      rw [next_error hi] at hrest
      rw [run, List.foldl_cons, next_error hi]
      exact ih hs hrest

theorem booked_covered_run {w : W} {admin : Address} {feeBps : Nat}
    (h : initialise env (.fresh w) admin tokenA tokenB feeBps = .ok s)
    (is : List (Input Address W contract (Call Address))) :
    Booked tokenA tokenB (run (step T) s is) ∧ (pool (run (step T) s is)).Covered := by
  have hstart : Booked tokenA tokenB s ∧ (pool s).Covered := by
    refine ⟨booked_initialise h, ?_⟩
    obtain ⟨-, -, rfl⟩ := initialise_eq_ok h
    exact le_rfl
  have hall : Throughout (step T) (fun u => Booked tokenA tokenB u ∧ (pool u).Covered) s is := by
    refine throughout_of_along ?_ hstart (along_true s is)
    intro u i t hu _ ht
    exact ⟨booked_step ht hu.1, covered_step ht hu.1 hu.2⟩
  exact throughout_run hall

/-- In every state that a pool reaches its shares are covered by the product of
the reserves, no swap makes the product smaller, no call makes a share worth
less, and neither does any run that leaves shares. -/
theorem value_never_leaks {w : W} {admin : Address} {feeBps : Nat}
    (h : initialise env (.fresh w) admin tokenA tokenB feeBps = .ok s)
    (is : List (Input Address W contract (Call Address))) :
    let u := run (step T) s is
    (pool u).Covered ∧
      (∀ (env : Env Address contract) (trader tokenIn : Address) (amountIn minOut : Int)
        (t : Storage Address W),
        invoke T env u (.swap trader tokenIn amountIn minOut) = .ok t →
          (pool u).product ≤ (pool t).product) ∧
      (∀ (i : Input Address W contract (Call Address)) (t : Storage Address W),
        step T u i = .ok t → KeepsValue (pool u) (pool t)) ∧
      ∀ js : List (Input Address W contract (Call Address)),
        Throughout (step T) (fun v => 0 < v.totalShares) u js →
          KeepsValue (pool u) (pool (run (step T) u js)) := by
  intro u
  obtain ⟨hbooked, hcovered⟩ := booked_covered_run (T := T) h is
  refine ⟨hcovered, ?_, ?_, ?_⟩
  · intro env trader tokenIn amountIn minOut t ht
    exact product_swap ht hbooked
  · intro i t ht
    exact keepsValue_step ht hbooked
  · intro js hjs
    exact keepsValue_run hbooked hjs

theorem value_never_leaks_sample :
    (pool (run (step (bookToken Nat)) sample [sampleAdd, sampleSwap])).Covered :=
  (value_never_leaks initialise_sample [sampleAdd, sampleSwap]).1

end Suban.CpmmPool.Value

import Suban.Basis.SquareRoot
import Suban.CpmmPool.Contract

namespace Suban.CpmmPool.Transitions

open Suban.Basis.Calls Suban.Basis.Tables Suban.Basis.SquareRoot Suban.Soroban.Host
open Suban.CpmmPool.Contract

variable {Address W : Type} [DecidableEq Address] {contract : Address}
variable {T : Sep41 Address W} {env : Env Address contract} {s t : Storage Address W}

def worth (s : Storage Address W) (amountA amountB : Int) : Int :=
  if s.totalShares = 0 then Nat.sqrt (amountA.toNat * amountB.toNat)
  else min ((amountA * s.totalShares).tdiv s.reserveA) ((amountB * s.totalShares).tdiv s.reserveB)

def payout (s : Storage Address W) (sharesIn reserve : Int) : Int :=
  (sharesIn * reserve).tdiv s.totalShares

def afterFee (s : Storage Address W) (amountIn : Int) : Int :=
  (amountIn * (10000 - s.feeBps)).tdiv 10000

def output (s : Storage Address W) (reserveIn reserveOut amountIn : Int) : Int :=
  (reserveOut * afterFee s amountIn).tdiv (reserveIn + afterFee s amountIn)

/-- The two tokens move one after the other. -/
def Moves (T : Sep41 Address W) (w : W) (token₁ src₁ dst₁ : Address) (n₁ : Int)
    (token₂ src₂ dst₂ : Address) (n₂ : Int) (w' : W) : Prop :=
  ∃ v, T.transfer w token₁ src₁ dst₁ n₁ = some v ∧ T.transfer v token₂ src₂ dst₂ n₂ = some w'

inductive Transition (T : Sep41 Address W) (env : Env Address contract) (s : Storage Address W)
    (tokenA tokenB : Address) : Call Address → Storage Address W → Prop where
  | add (provider : Address) (amountA amountB minShares : Int) (w : W)
      (hauth : env.auths provider = true) (ha : 0 < amountA) (hb : 0 < amountB)
      (hreserves : s.totalShares ≠ 0 → s.reserveA ≠ 0 ∧ s.reserveB ≠ 0)
      (hmin : minShares ≤ worth s amountA amountB)
      (hmoves : Moves T s.world tokenA provider contract amountA tokenB provider contract
        amountB w) :
      Transition T env s tokenA tokenB (.addLiquidity provider amountA amountB minShares)
        ({ s with
          lpBalance := s.lpBalance.insert provider (s.lpOf provider + worth s amountA amountB)
          reserveA := s.reserveA + amountA
          reserveB := s.reserveB + amountB
          totalShares := s.totalShares + worth s amountA amountB
          world := w }.publish (.addLiq provider amountA amountB (worth s amountA amountB) tokenA
            tokenB (s.reserveA + amountA) (s.reserveB + amountB)
            (s.totalShares + worth s amountA amountB)))
  | remove (provider : Address) (sharesIn minA minB : Int) (w : W)
      (hauth : env.auths provider = true) (hpos : 0 < sharesIn) (hle : sharesIn ≤ s.lpOf provider)
      (htotal : s.totalShares ≠ 0) (hminA : minA ≤ payout s sharesIn s.reserveA)
      (hminB : minB ≤ payout s sharesIn s.reserveB)
      (hmoves : Moves T s.world tokenA contract provider (payout s sharesIn s.reserveA) tokenB
        contract provider (payout s sharesIn s.reserveB) w) :
      Transition T env s tokenA tokenB (.removeLiquidity provider sharesIn minA minB)
        ({ s with
          lpBalance := s.lpBalance.insert provider (s.lpOf provider - sharesIn)
          reserveA := s.reserveA - payout s sharesIn s.reserveA
          reserveB := s.reserveB - payout s sharesIn s.reserveB
          totalShares := s.totalShares - sharesIn
          world := w }.publish (.rmLiq provider (payout s sharesIn s.reserveA)
            (payout s sharesIn s.reserveB) sharesIn tokenA tokenB
            (s.reserveA - payout s sharesIn s.reserveA)
            (s.reserveB - payout s sharesIn s.reserveB) (s.totalShares - sharesIn)))
  | swapAForB (trader : Address) (amountIn minOut : Int) (w : W)
      (hauth : env.auths trader = true) (hpos : 0 < amountIn) (ha : s.reserveA ≠ 0)
      (hb : s.reserveB ≠ 0) (hmin : minOut ≤ output s s.reserveA s.reserveB amountIn)
      (hmoves : Moves T s.world tokenA trader contract amountIn tokenB contract trader
        (output s s.reserveA s.reserveB amountIn) w) :
      Transition T env s tokenA tokenB (.swap trader tokenA amountIn minOut)
        ({ s with
          reserveA := s.reserveA + amountIn
          reserveB := s.reserveB - output s s.reserveA s.reserveB amountIn
          world := w }.publish (.swap trader amountIn (output s s.reserveA s.reserveB amountIn)
            tokenA tokenB (s.reserveA + amountIn)
            (s.reserveB - output s s.reserveA s.reserveB amountIn) s.feeBps s.totalShares tokenA
            tokenB))
  | swapBForA (trader : Address) (amountIn minOut : Int) (w : W)
      (hauth : env.auths trader = true) (hpos : 0 < amountIn) (hb : s.reserveB ≠ 0)
      (ha : s.reserveA ≠ 0) (hmin : minOut ≤ output s s.reserveB s.reserveA amountIn)
      (hmoves : Moves T s.world tokenB trader contract amountIn tokenA contract trader
        (output s s.reserveB s.reserveA amountIn) w) :
      Transition T env s tokenA tokenB (.swap trader tokenB amountIn minOut)
        ({ s with
          reserveA := s.reserveA - output s s.reserveB s.reserveA amountIn
          reserveB := s.reserveB + amountIn
          world := w }.publish (.swap trader amountIn (output s s.reserveB s.reserveA amountIn)
            tokenB tokenA (s.reserveA - output s s.reserveB s.reserveA amountIn)
            (s.reserveB + amountIn) s.feeBps s.totalShares tokenA tokenB))

theorem quotient_eq_ok {a b q : Int} (h : quotient a b = .ok q) : b ≠ 0 ∧ q = a.tdiv b := by
  by_cases hb : b = 0
  · simp [quotient, hb] at h
  · rw [quotient, if_neg hb, checked_eq_ok] at h
    exact ⟨hb, h.2.symm⟩

/-- The loop ends at the root: its guess is never below it, and stops getting
smaller only there. -/
theorem isqrtLoop_eq {n x : Nat} (hn : n + 1 < 2 ^ 128) (hx : 0 < x) (hle : x ≤ n)
    (hroot : n < (x + 1) * (x + 1)) : isqrtLoop n x (improve n x) = .ok (Nat.sqrt n) := by
  induction x using Nat.strong_induction_on with
  | _ x ih =>
    rw [isqrtLoop]
    by_cases hlt : improve n x < x
    · have hpos := improve_pos hx hle
      have hle' : improve n x ≤ n := hlt.le.trans hle
      have hq : quotientU n (improve n x) = .ok (n / improve n x) := by
        rw [quotientU, if_neg hpos.ne']
      have hsum : (checkedUInt 128 (improve n x + n / improve n x) : Outcome Fault Nat) =
          .ok (improve n x + n / improve n x) := by
        rw [checkedUInt_eq_ok]
        exact ⟨(improve_sum_le hpos hle').trans_lt hn, rfl⟩
      have hnext := ih (improve n x) hlt hpos hle' (lt_improve_succ_sq hx)
      rw [if_pos hlt, hq]
      simp only [bind_eq_ok, hsum, Except.ok.injEq, exists_eq_left']
      exact hnext
    · rw [if_neg hlt, pure_eq_ok]
      exact Nat.eq_sqrt.mpr ⟨sq_le_of_le_improve (not_lt.mp hlt), hroot⟩

theorem isqrtLoop_start {n : Nat} (hn : n ≠ 0) (hfits : n + 1 < 2 ^ 128) :
    isqrtLoop n n ((n + 1) / 2) = .ok (Nat.sqrt n) := by
  have hpos := Nat.pos_of_ne_zero hn
  have hfirst : (n + 1) / 2 = improve n n := by rw [improve, Nat.div_self hpos]
  have hroot : n < (n + 1) * (n + 1) := by nlinarith
  rw [hfirst]
  exact isqrtLoop_eq hfits hpos le_rfl hroot

theorem isqrt_eq_ok {n r : Nat} (h : isqrt n = .ok r) : r = Nat.sqrt n := by
  unfold isqrt at h
  split at h
  next hn =>
    cases pure_eq_ok.mp h
    rw [hn, Nat.sqrt_zero]
  next hn =>
    simp only [bind_eq_ok, checkedUInt_eq_ok] at h
    obtain ⟨_, ⟨hfits, rfl⟩, h⟩ := h
    rw [isqrtLoop_start hn hfits, Except.ok.injEq] at h
    exact h.symm

theorem sharesFor_eq_ok {amountA amountB shares : Int}
    (h : sharesFor s amountA amountB = .ok shares) :
    (s.totalShares ≠ 0 → s.reserveA ≠ 0 ∧ s.reserveB ≠ 0) ∧ shares = worth s amountA amountB := by
  unfold sharesFor at h
  split at h
  next hz =>
    simp only [bind_eq_ok, checkedUInt_eq_ok, pure_eq_ok] at h
    obtain ⟨_, ⟨-, rfl⟩, root, hroot, rfl⟩ := h
    rw [isqrt_eq_ok hroot, worth, if_pos hz]
    exact ⟨absurd hz, rfl⟩
  next hz =>
    simp only [bind_eq_ok, checked_eq_ok, pure_eq_ok] at h
    obtain ⟨_, ⟨-, rfl⟩, qa, ha, _, ⟨-, rfl⟩, qb, hb, rfl⟩ := h
    obtain ⟨hra, rfl⟩ := quotient_eq_ok ha
    obtain ⟨hrb, rfl⟩ := quotient_eq_ok hb
    rw [worth, if_neg hz]
    exact ⟨fun _ => ⟨hra, hrb⟩, rfl⟩

theorem redeem_eq_ok {sharesIn reserve amount : Int} (h : redeem s sharesIn reserve = .ok amount) :
    amount = payout s sharesIn reserve := by
  simp only [redeem, bind_eq_ok, checked_eq_ok] at h
  obtain ⟨_, ⟨-, rfl⟩, h⟩ := h
  exact (quotient_eq_ok h).2

theorem outputFor_eq_ok {reserveIn reserveOut amountIn amountOut : Int}
    (h : outputFor s reserveIn reserveOut amountIn = .ok amountOut) :
    reserveIn ≠ 0 ∧ reserveOut ≠ 0 ∧ amountOut = output s reserveIn reserveOut amountIn := by
  simp only [outputFor, bind_eq_ok, rejectIf_eq_ok, panicIf_eq_ok, checked_eq_ok, not_or] at h
  obtain ⟨_, ⟨hin, hout⟩, _, -, _, ⟨-, rfl⟩, _, ⟨-, rfl⟩, _, ⟨-, rfl⟩, h⟩ := h
  exact ⟨hin, hout, (quotient_eq_ok h).2⟩

variable {tokenA tokenB : Address}

theorem addLiquidity_transition {provider : Address} {amountA amountB minShares shares : Int}
    (hA : s.tokenA = some tokenA) (hB : s.tokenB = some tokenB)
    (h : addLiquidity T env s provider amountA amountB minShares = .ok (shares, t)) :
    Transition T env s tokenA tokenB (.addLiquidity provider amountA amountB minShares) t := by
  simp only [addLiquidity, bind_eq_ok, requireAuth_eq_ok, rejectIf_eq_ok, unwrap_eq_ok,
    checked_eq_ok, pure_eq_ok, Prod.mk.injEq, not_or, not_le, not_lt] at h
  obtain ⟨_, hauth, _, ⟨ha, hb⟩, _, hshares, _, hmin, _, hA', _, hB', v, hv, w, hw, _, ⟨-, rfl⟩,
    h⟩ := h
  obtain ⟨_, ⟨-, rfl⟩, h⟩ := h
  obtain ⟨_, ⟨-, rfl⟩, h⟩ := h
  obtain ⟨_, ⟨-, rfl⟩, -, rfl⟩ := h
  cases hA.symm.trans hA'
  cases hB.symm.trans hB'
  obtain ⟨hreserves, rfl⟩ := sharesFor_eq_ok hshares
  exact .add provider amountA amountB minShares w hauth ha hb hreserves hmin ⟨v, hv, hw⟩

theorem removeLiquidity_transition {provider : Address} {sharesIn minA minB : Int}
    {amounts : Int × Int} (hA : s.tokenA = some tokenA) (hB : s.tokenB = some tokenB)
    (h : removeLiquidity T env s provider sharesIn minA minB = .ok (amounts, t)) :
    Transition T env s tokenA tokenB (.removeLiquidity provider sharesIn minA minB) t := by
  simp only [removeLiquidity, bind_eq_ok, requireAuth_eq_ok, rejectIf_eq_ok, unwrap_eq_ok,
    checked_eq_ok, pure_eq_ok, Prod.mk.injEq, not_or, not_le, not_lt] at h
  obtain ⟨_, hauth, _, hpos, _, hle, _, htotal, _, ha, _, hb, _, ⟨hminA, hminB⟩, _, hA', _, hB', _,
    ⟨-, rfl⟩, h⟩ := h
  obtain ⟨_, ⟨-, rfl⟩, h⟩ := h
  obtain ⟨_, ⟨-, rfl⟩, h⟩ := h
  obtain ⟨_, ⟨-, rfl⟩, h⟩ := h
  obtain ⟨v, hv, w, hw, -, rfl⟩ := h
  cases hA.symm.trans hA'
  cases hB.symm.trans hB'
  cases redeem_eq_ok ha
  cases redeem_eq_ok hb
  exact .remove provider sharesIn minA minB w hauth hpos hle htotal hminA hminB ⟨v, hv, hw⟩

theorem side_eq_ok {tokenIn : Address} {d : Side Address} (hA : s.tokenA = some tokenA)
    (hB : s.tokenB = some tokenB) (h : side s tokenIn = .ok d) :
    tokenIn = tokenA ∧ d = ⟨s.reserveA, s.reserveB, tokenB, false⟩ ∨
      tokenIn = tokenB ∧ d = ⟨s.reserveB, s.reserveA, tokenA, true⟩ := by
  simp only [side, hA, hB, bind_eq_ok, unwrap_eq_ok, Option.some.injEq] at h
  obtain ⟨_, rfl, _, rfl, h⟩ := h
  by_cases ha : tokenIn = tokenA
  · rw [if_pos ha, pure_eq_ok] at h
    exact .inl ⟨ha, h.symm⟩
  · rw [if_neg ha] at h
    by_cases hb : tokenIn = tokenB
    · rw [if_pos hb, pure_eq_ok] at h
      exact .inr ⟨hb, h.symm⟩
    · rw [if_neg hb] at h
      cases h

theorem swap_transition {trader tokenIn : Address} {amountIn minOut amountOut : Int}
    (hA : s.tokenA = some tokenA) (hB : s.tokenB = some tokenB)
    (h : swap T env s trader tokenIn amountIn minOut = .ok (amountOut, t)) :
    Transition T env s tokenA tokenB (.swap trader tokenIn amountIn minOut) t := by
  simp only [swap, bind_eq_ok, requireAuth_eq_ok, rejectIf_eq_ok, unwrap_eq_ok,
    checked_eq_ok, pure_eq_ok, Prod.mk.injEq, not_le, not_lt] at h
  obtain ⟨_, hauth, _, hpos, d, hd, _, hout, _, hmin, v, hv, _, ⟨-, rfl⟩, h⟩ := h
  obtain ⟨_, ⟨-, rfl⟩, h⟩ := h
  obtain ⟨w, hw, _, hA', _, hB', -, rfl⟩ := h
  cases hA.symm.trans hA'
  cases hB.symm.trans hB'
  obtain ⟨hin, hother, rfl⟩ := outputFor_eq_ok hout
  obtain ⟨rfl, rfl⟩ | ⟨rfl, rfl⟩ := side_eq_ok hA hB hd
  · exact .swapAForB trader amountIn minOut w hauth hpos hin hother hmin ⟨v, hv, hw⟩
  · exact .swapBForA trader amountIn minOut w hauth hpos hin hother hmin ⟨v, hv, hw⟩

theorem invoke_transition {c : Call Address} (hA : s.tokenA = some tokenA)
    (hB : s.tokenB = some tokenB) (h : invoke T env s c = .ok t) :
    Transition T env s tokenA tokenB c t := by
  cases c with
  | addLiquidity provider amountA amountB minShares =>
    simp only [invoke, bind_eq_ok, pure_eq_ok] at h
    obtain ⟨⟨_, _⟩, h, rfl⟩ := h
    exact addLiquidity_transition hA hB h
  | removeLiquidity provider sharesIn minA minB =>
    simp only [invoke, bind_eq_ok, pure_eq_ok] at h
    obtain ⟨⟨_, _⟩, h, rfl⟩ := h
    exact removeLiquidity_transition hA hB h
  | swap trader tokenIn amountIn minOut =>
    simp only [invoke, bind_eq_ok, pure_eq_ok] at h
    obtain ⟨⟨_, _⟩, h, rfl⟩ := h
    exact swap_transition hA hB h

theorem initialise_eq_ok {w : W} {admin tokenA tokenB : Address} {feeBps : Nat}
    (h : initialise env (.fresh w) admin tokenA tokenB feeBps = .ok s) :
    tokenA ≠ tokenB ∧ feeBps ≤ 1000 ∧ s = { Storage.fresh w with
      admin := some admin
      tokenA := some tokenA
      tokenB := some tokenB
      feeBps := feeBps } := by
  simp only [initialise, bind_eq_ok, panicIf_eq_ok, pure_eq_ok, not_lt] at h
  obtain ⟨_, -, _, -, _, hne, _, hfee, rfl⟩ := h
  exact ⟨hne, hfee, rfl⟩

end Suban.CpmmPool.Transitions

import Suban.Stableswap.Contract

namespace Suban.Stableswap.Transitions

open Suban.Basis.Calls Suban.Basis.Tables Suban.Soroban.Host Suban.Stableswap.Contract

variable {Address W : Type} [DecidableEq Address] {contract : Address}
variable {T : Sep41 Address W} {env : Env Address contract} {s t : Storage Address W}

theorem asU128_eq {n : Int} (hn : 0 ≤ n) (hmax : n ≤ maxI128) : (asU128 n : Int) = n := by
  unfold asU128 maxI128 at *
  omega

theorem asU128_pos {n : Int} (hn : 0 < n) (hmax : n ≤ maxI128) : 0 < asU128 n := by
  have heq := asU128_eq hn.le hmax
  omega

theorem asI128_eq {n : Nat} (h : n < 2 ^ 127) : asI128 n = n := if_pos h

section Sides

variable {d : Side Address} {tokenIn : Address} {f : Fault}

theorem pool_ne (hf : f = .underflow ∨ f = .divisionByZero) (e : StableswapError) :
    Fault.pool e ≠ f := by
  obtain rfl | rfl := hf <;> simp

theorem side_ok (h : side s tokenIn = .ok d) :
    (d.swapAToB = true ∧ d.reserveIn = s.reserveA ∧ d.reserveOut = s.reserveB) ∨
      (d.swapAToB = false ∧ d.reserveIn = s.reserveB ∧ d.reserveOut = s.reserveA) := by
  simp only [side, bind_eq_ok] at h
  obtain ⟨tokenA, -, tokenB, -, h⟩ := h
  split_ifs at h
  · cases h
    exact .inl ⟨rfl, rfl, rfl⟩
  · cases h
    exact .inr ⟨rfl, rfl, rfl⟩

theorem side_ne_error (hf : f = .underflow ∨ f = .divisionByZero) :
    side s tokenIn ≠ .error (.error f) := by
  refine bind_ne_error (unwrap_ne_error _ f) fun _ _ => ?_
  refine bind_ne_error (unwrap_ne_error _ f) fun _ _ => ?_
  split_ifs
  · exact pure_ne_error _ _
  · exact pure_ne_error _ _
  · exact fun h => pool_ne hf _ (Failure.error.inj (Except.error.inj h))

end Sides

/-- Both reserves that a trade sees are there. -/
structure Filled (d : Side Address) : Prop where
  in_pos : 0 < d.reserveIn
  in_le : d.reserveIn ≤ maxI128
  out_pos : 0 < d.reserveOut
  out_le : d.reserveOut ≤ maxI128

structure Same (s t : Storage Address W) : Prop where
  amplification : t.amplification = s.amplification
  feeBps : t.feeBps = s.feeBps
  tokens : t.tokenA = s.tokenA ∧ t.tokenB = s.tokenB

structure Swapped (s : Storage Address W) (tokenIn : Address) (amountIn : Int) (d : Side Address)
    (amp : Nat) (amountOut : Int) (t : Storage Address W) : Prop where
  positive : 0 < amountIn
  side_eq : side s tokenIn = .ok d
  reserves : d.reserveIn ≠ 0 ∧ d.reserveOut ≠ 0
  amplified : s.amplification = some amp
  output : outputFor s amp d.reserveIn d.reserveOut amountIn = .ok amountOut
  in_fits : d.reserveIn + amountIn ≤ maxI128
  reserveA_eq : t.reserveA =
    if d.swapAToB then d.reserveIn + amountIn else d.reserveOut - amountOut
  reserveB_eq : t.reserveB =
    if d.swapAToB then d.reserveOut - amountOut else d.reserveIn + amountIn
  shares : t.totalShares = s.totalShares ∧ t.lpBalance = s.lpBalance
  same : Same s t

structure Added (s : Storage Address W) (provider : Address) (amountA amountB : Int) (amp : Nat)
    (shares : Int) (t : Storage Address W) : Prop where
  positive : 0 < amountA ∧ 0 < amountB
  amplified : s.amplification = some amp
  worth : sharesFor s amp amountA amountB = .ok shares
  fits : s.reserveA + amountA ≤ maxI128 ∧ s.reserveB + amountB ≤ maxI128 ∧
    s.totalShares + shares ≤ maxI128
  reserves : t.reserveA = s.reserveA + amountA ∧ t.reserveB = s.reserveB + amountB
  total : t.totalShares = s.totalShares + shares
  balance : t.lpBalance = s.lpBalance.insert provider (s.lpOf provider + shares)
  same : Same s t

structure Removed (s : Storage Address W) (provider : Address) (sharesIn amountA amountB : Int)
    (t : Storage Address W) : Prop where
  positive : 0 < sharesIn
  covered : sharesIn ≤ s.lpOf provider
  nonzero : s.totalShares ≠ 0
  worth : redeem s sharesIn s.reserveA = .ok amountA ∧ redeem s sharesIn s.reserveB = .ok amountB
  reserves : t.reserveA = s.reserveA - amountA ∧ t.reserveB = s.reserveB - amountB
  total : t.totalShares = s.totalShares - sharesIn
  balance : t.lpBalance = s.lpBalance.insert provider (s.lpOf provider - sharesIn)
  same : Same s t

theorem swap_ok {trader tokenIn : Address} {amountIn minOut amountOut : Int}
    (h : swap T env s trader tokenIn amountIn minOut = .ok (amountOut, t)) :
    ∃ d amp, Swapped s tokenIn amountIn d amp amountOut t := by
  simp only [swap, bind_eq_ok, requireAuth_eq_ok, rejectIf_eq_ok, unwrap_eq_ok, checked_eq_ok,
    pure_eq_ok, Prod.mk.injEq, not_or, not_le] at h
  obtain ⟨_, -, _, hpos, d, hd, _, hreserves, amp, hamp, out, hout, _, -, _, -, h⟩ := h
  obtain ⟨_, ⟨hin, rfl⟩, _, ⟨-, rfl⟩, _, -, tokenA, hA, tokenB, hB, rfl, rfl⟩ := h
  exact ⟨d, amp, hpos, hd, hreserves, hamp, hout, hin.2, rfl, rfl, ⟨rfl, rfl⟩,
    ⟨rfl, rfl, ⟨rfl, rfl⟩⟩⟩

theorem addLiquidity_ok {provider : Address} {amountA amountB minSharesOut shares : Int}
    (h : addLiquidity T env s provider amountA amountB minSharesOut = .ok (shares, t)) :
    ∃ amp, Added s provider amountA amountB amp shares t := by
  simp only [addLiquidity, bind_eq_ok, requireAuth_eq_ok, rejectIf_eq_ok, unwrap_eq_ok,
    checked_eq_ok, pure_eq_ok, Prod.mk.injEq, not_or, not_le] at h
  obtain ⟨_, -, _, hpos, amp, hamp, out, hout, _, -, tokenA, -, tokenB, -, _, -, _, -, h⟩ := h
  obtain ⟨_, ⟨-, rfl⟩, _, ⟨hA, rfl⟩, _, ⟨hB, rfl⟩, _, ⟨htotal, rfl⟩, rfl, rfl⟩ := h
  exact ⟨amp, hpos, hamp, hout, ⟨hA.2, hB.2, htotal.2⟩, ⟨rfl, rfl⟩, rfl, rfl,
    ⟨rfl, rfl, ⟨rfl, rfl⟩⟩⟩

theorem removeLiquidity_ok {provider : Address} {sharesIn minA minB amountA amountB : Int}
    (h : removeLiquidity T env s provider sharesIn minA minB = .ok ((amountA, amountB), t)) :
    Removed s provider sharesIn amountA amountB t := by
  simp only [removeLiquidity, bind_eq_ok, requireAuth_eq_ok, rejectIf_eq_ok, unwrap_eq_ok,
    checked_eq_ok, pure_eq_ok, Prod.mk.injEq, not_or, not_le, not_lt] at h
  obtain ⟨_, -, _, hpos, _, hcovered, _, hne, outA, hA, outB, hB, _, -, h⟩ := h
  obtain ⟨tokenA, -, tokenB, -, _, ⟨-, rfl⟩, _, ⟨-, rfl⟩, _, ⟨-, rfl⟩, _, ⟨-, rfl⟩, h⟩ := h
  obtain ⟨_, -, _, -, amp, -, ⟨rfl, rfl⟩, rfl⟩ := h
  exact ⟨hpos, hcovered, hne, ⟨hA, hB⟩, ⟨rfl, rfl⟩, rfl, rfl, ⟨rfl, rfl, ⟨rfl, rfl⟩⟩⟩

inductive Transition (s : Storage Address W) : Call Address → Storage Address W → Prop where
  | setFee (admin : Address) (feeBps : Nat) (hfee : feeBps ≤ 1000) :
      Transition s (.setFee admin feeBps) { s with feeBps := feeBps }
  | add (provider : Address) (amountA amountB minShares : Int) (amp : Nat) (shares : Int)
      (t : Storage Address W) (h : Added s provider amountA amountB amp shares t) :
      Transition s (.addLiquidity provider amountA amountB minShares) t
  | remove (provider : Address) (sharesIn minA minB amountA amountB : Int)
      (t : Storage Address W) (h : Removed s provider sharesIn amountA amountB t) :
      Transition s (.removeLiquidity provider sharesIn minA minB) t
  | swap (trader tokenIn : Address) (amountIn minOut : Int) (d : Side Address) (amp : Nat)
      (amountOut : Int) (t : Storage Address W) (h : Swapped s tokenIn amountIn d amp amountOut t) :
      Transition s (.swap trader tokenIn amountIn minOut) t

theorem invoke_transition {c : Call Address} (h : invoke T env s c = .ok t) :
    Transition s c t := by
  cases c with
  | setFee admin feeBps =>
    simp only [invoke, setFee, bind_eq_ok, rejectIf_eq_ok, pure_eq_ok, not_lt] at h
    obtain ⟨_, -, _, -, _, -, _, hfee, rfl⟩ := h
    exact .setFee admin feeBps hfee
  | addLiquidity provider amountA amountB minSharesOut =>
    obtain ⟨⟨shares, _⟩, hadd, h⟩ := bind_eq_ok.mp h
    cases pure_eq_ok.mp h
    obtain ⟨amp, hadded⟩ := addLiquidity_ok hadd
    exact .add provider amountA amountB minSharesOut amp shares t hadded
  | removeLiquidity provider sharesIn minAOut minBOut =>
    obtain ⟨⟨⟨amountA, amountB⟩, _⟩, hremove, h⟩ := bind_eq_ok.mp h
    cases pure_eq_ok.mp h
    exact .remove provider sharesIn minAOut minBOut amountA amountB t (removeLiquidity_ok hremove)
  | swap trader tokenIn amountIn minAmountOut =>
    obtain ⟨⟨amountOut, _⟩, hswap, h⟩ := bind_eq_ok.mp h
    cases pure_eq_ok.mp h
    obtain ⟨d, amp, hswapped⟩ := swap_ok hswap
    exact .swap trader tokenIn amountIn minAmountOut d amp amountOut t hswapped

end Suban.Stableswap.Transitions

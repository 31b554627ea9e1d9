import Suban.CpmmPool.Books

namespace Suban.CpmmPool.Soundness

open Suban.Basis.Calls Suban.Basis.Tables Suban.Basis.Runs Suban.Basis.Division
open Suban.Basis.SquareRoot Suban.Soroban.Host
open Suban.CpmmPool.Contract Suban.CpmmPool.Transitions Suban.CpmmPool.Books

variable {Address W : Type} [DecidableEq Address] {contract tokenA tokenB : Address}
variable {T : Sep41 Address W} {env : Env Address contract} {s t : Storage Address W}

section Division

variable {α β : Type}

/-- The computation does not divide by zero. -/
def Divides (x : Outcome Fault α) : Prop := x ≠ .error (.error .divisionByZero)

theorem Divides.bind {x : Outcome Fault α} {f : α → Outcome Fault β} (hx : Divides x)
    (hf : ∀ a, x = .ok a → Divides (f a)) : Divides (x >>= f) := bind_ne_error hx hf

theorem divides_pure (a : α) : Divides (pure a : Outcome Fault α) := pure_ne_error a _

theorem divides_rejectIf (p : Prop) [Decidable p] (e : PoolError) :
    Divides (rejectIf p (.pool e)) := by
  apply rejectIf_ne_error
  exact Fault.noConfusion

theorem divides_panicIf (p : Prop) [Decidable p] : Divides (panicIf p) := panicIf_ne_error p _

theorem divides_unwrap (o : Option α) : Divides (unwrap o) := unwrap_ne_error o _

omit [DecidableEq Address] in
theorem divides_requireAuth (a : Address) : Divides (requireAuth env a) := divides_panicIf _

theorem divides_checked (x : Int) : Divides (checked x) := checked_ne_error x _

theorem divides_checkedUInt (width n : Nat) : Divides (checkedUInt width n) :=
  checkedUInt_ne_error width n _

theorem divides_quotient (a : Int) {b : Int} (hb : b ≠ 0) : Divides (quotient a b) := by
  rw [quotient, if_neg hb]
  exact divides_checked _

theorem divides_isqrt (n : Nat) : Divides (isqrt n) := by
  unfold isqrt
  split
  · exact divides_pure _
  next hn =>
    apply (divides_checkedUInt 128 (n + 1)).bind
    intro sum hsum
    obtain ⟨hfits, rfl⟩ := checkedUInt_eq_ok.mp hsum
    rw [isqrtLoop_start hn hfits]
    exact divides_pure _

end Division

theorem divides_sharesFor (hs : Booked tokenA tokenB s) (amountA amountB : Int) :
    Divides (sharesFor s amountA amountB) := by
  unfold sharesFor
  split
  · apply (divides_checkedUInt _ _).bind
    intro product _
    exact (divides_isqrt product).bind fun _ _ => divides_pure _
  next hz =>
    have htotal : 0 < s.totalShares := lt_of_le_of_ne hs.total_nonneg (Ne.symm hz)
    obtain ⟨hra, hrb⟩ := hs.stocked.of_shares htotal
    apply (divides_checked _).bind
    intro scaledA _
    apply (divides_quotient scaledA hra.ne').bind
    intro sharesA _
    apply (divides_checked _).bind
    intro scaledB _
    exact (divides_quotient scaledB hrb.ne').bind fun _ _ => divides_pure _

theorem divides_redeem (htotal : s.totalShares ≠ 0) (sharesIn reserve : Int) :
    Divides (redeem s sharesIn reserve) :=
  (divides_checked _).bind fun scaled _ => divides_quotient scaled htotal

theorem divides_outputFor (hs : Booked tokenA tokenB s) {reserveIn reserveOut amountIn : Int}
    (hin : 0 ≤ reserveIn) (hpos : 0 < amountIn) :
    Divides (outputFor s reserveIn reserveOut amountIn) := by
  apply (divides_rejectIf _ _).bind
  intro _ hliquid
  apply (divides_panicIf _).bind
  intro _ _
  apply (divides_checked _).bind
  intro scaledIn hscaled
  apply (divides_checked _).bind
  intro scaledOut _
  apply (divides_checked _).bind
  intro divisor hdivisor
  obtain ⟨-, rfl⟩ := checked_eq_ok.mp hscaled
  obtain ⟨-, rfl⟩ := checked_eq_ok.mp hdivisor
  have hafter := (hs.afterFee_bounds hpos).1
  have hreserve : reserveIn ≠ 0 := fun h => rejectIf_eq_ok.mp hliquid (.inl h)
  apply divides_quotient
  unfold afterFee at hafter
  omega

theorem side_reserveIn (hs : Booked tokenA tokenB s) {tokenIn : Address} {d : Side Address}
    (h : side s tokenIn = .ok d) : 0 ≤ d.reserveIn := by
  obtain ⟨-, rfl⟩ | ⟨-, rfl⟩ := side_eq_ok hs.tokenA hs.tokenB h
  · exact hs.stocked.a_nonneg
  · exact hs.stocked.b_nonneg

theorem divides_side (tokenIn : Address) : Divides (side s tokenIn) := by
  apply (divides_unwrap _).bind
  intro tokenA _
  apply (divides_unwrap _).bind
  intro tokenB _
  split
  · exact divides_pure _
  · split
    · exact divides_pure _
    · simp [Divides]

theorem divides_addLiquidity (hs : Booked tokenA tokenB s) (provider : Address)
    (amountA amountB minShares : Int) :
    Divides (addLiquidity T env s provider amountA amountB minShares) := by
  apply (divides_requireAuth _).bind
  intro _ _
  apply (divides_rejectIf _ _).bind
  intro _ _
  apply (divides_sharesFor hs amountA amountB).bind
  intro shares _
  apply (divides_rejectIf _ _).bind
  intro _ _
  apply (divides_unwrap _).bind
  intro a _
  apply (divides_unwrap _).bind
  intro b _
  apply (divides_unwrap _).bind
  intro v _
  apply (divides_unwrap _).bind
  intro w _
  apply (divides_checked _).bind
  intro held _
  apply (divides_checked _).bind
  intro reserveA _
  apply (divides_checked _).bind
  intro reserveB _
  exact (divides_checked _).bind fun _ _ => divides_pure _

theorem divides_removeLiquidity (provider : Address) (sharesIn minA minB : Int) :
    Divides (removeLiquidity T env s provider sharesIn minA minB) := by
  apply (divides_requireAuth _).bind
  intro _ _
  apply (divides_rejectIf _ _).bind
  intro _ _
  apply (divides_rejectIf _ _).bind
  intro _ _
  apply (divides_rejectIf _ _).bind
  intro _ htotal
  have hdivisor := rejectIf_eq_ok.mp htotal
  apply (divides_redeem hdivisor sharesIn s.reserveA).bind
  intro amountA _
  apply (divides_redeem hdivisor sharesIn s.reserveB).bind
  intro amountB _
  apply (divides_rejectIf _ _).bind
  intro _ _
  apply (divides_unwrap _).bind
  intro a _
  apply (divides_unwrap _).bind
  intro b _
  apply (divides_checked _).bind
  intro held _
  apply (divides_checked _).bind
  intro reserveA _
  apply (divides_checked _).bind
  intro reserveB _
  apply (divides_checked _).bind
  intro total _
  apply (divides_unwrap _).bind
  intro v _
  exact (divides_unwrap _).bind fun _ _ => divides_pure _

theorem divides_swap (hs : Booked tokenA tokenB s) (trader tokenIn : Address)
    (amountIn minOut : Int) : Divides (swap T env s trader tokenIn amountIn minOut) := by
  apply (divides_requireAuth _).bind
  intro _ _
  apply (divides_rejectIf _ _).bind
  intro _ hzero
  apply (divides_side tokenIn).bind
  intro d hd
  have hpos := not_le.mp (rejectIf_eq_ok.mp hzero)
  apply (divides_outputFor hs (side_reserveIn hs hd) hpos).bind
  intro amountOut _
  apply (divides_rejectIf _ _).bind
  intro _ _
  apply (divides_unwrap _).bind
  intro v _
  apply (divides_checked _).bind
  intro reserveOut _
  apply (divides_checked _).bind
  intro reserveIn _
  apply (divides_unwrap _).bind
  intro w _
  apply (divides_unwrap _).bind
  intro a _
  exact (divides_unwrap _).bind fun _ _ => divides_pure _

theorem divides_invoke (hs : Booked tokenA tokenB s) (c : Call Address) :
    Divides (invoke T env s c) := by
  cases c with
  | addLiquidity provider amountA amountB minShares =>
    exact (divides_addLiquidity hs provider amountA amountB minShares).bind
      fun _ _ => divides_pure _
  | removeLiquidity provider sharesIn minA minB =>
    exact (divides_removeLiquidity provider sharesIn minA minB).bind fun _ _ => divides_pure _
  | swap trader tokenIn amountIn minOut =>
    exact (divides_swap hs trader tokenIn amountIn minOut).bind fun _ _ => divides_pure _

/-- What a provider can ask for is there to be paid. -/
def Payable (T : Sep41 Address W) (contract tokenA tokenB : Address) (s : Storage Address W) :
    Prop :=
  ∀ a sharesIn, 0 < sharesIn → sharesIn ≤ s.lpOf a →
    s.totalShares ≠ 0 ∧
    payout s sharesIn s.reserveA ≤ T.balance s.world tokenA contract ∧
    payout s sharesIn s.reserveB ≤ T.balance s.world tokenB contract

theorem payable_of_held (hs : Booked tokenA tokenB s) (hheld : Held T contract tokenA tokenB s) :
    Payable T contract tokenA tokenB s := by
  intro a sharesIn hpos hle
  have hall := hle.trans (hs.le_total a)
  have hA := part_le hs.total_nonneg hs.stocked.a_nonneg hall
  have hB := part_le hs.total_nonneg hs.stocked.b_nonneg hall
  exact ⟨(hpos.trans_le hall).ne', hA.trans hheld.reserveA, hB.trans hheld.reserveB⟩

theorem booked_initialise {w : W} {admin : Address} {feeBps : Nat}
    (h : initialise env (.fresh w) admin tokenA tokenB feeBps = .ok s) :
    Booked tokenA tokenB s := by
  obtain ⟨-, hfee, rfl⟩ := initialise_eq_ok h
  exact ⟨rfl, rfl, hfee, fun _ => le_rfl, rfl, .inl ⟨rfl, rfl, rfl⟩⟩

theorem held_initialise {w : W} {admin : Address} {feeBps : Nat}
    (h : initialise env (.fresh w) admin tokenA tokenB feeBps = .ok s) :
    Held T contract tokenA tokenB s := by
  obtain ⟨-, -, rfl⟩ := initialise_eq_ok h
  exact ⟨T.balance_nonneg _ _ _, T.balance_nonneg _ _ _⟩

/-- In every state of a run the shares are those of the providers, the reserves
are there when the shares are and are held, no call divides by zero, and every
provider can be paid. -/
theorem pool_sound {w : W} {admin : Address} {feeBps : Nat}
    (h : initialise env (.fresh w) admin tokenA tokenB feeBps = .ok s)
    {is : List (Input Address W contract (Call Address))}
    (hE : Along (step T) (Undisturbed T tokenA tokenB) s is) :
    Throughout (step T) (fun u => Booked tokenA tokenB u ∧ Held T contract tokenA tokenB u ∧
      (∀ (env : Env Address contract) (c : Call Address),
        invoke T env u c ≠ .error (.error .divisionByZero)) ∧
      Payable T contract tokenA tokenB u) s is := by
  have hne := (initialise_eq_ok h).1
  have hboth : Throughout (step T)
      (fun u => Booked tokenA tokenB u ∧ Held T contract tokenA tokenB u) s is := by
    refine throughout_of_along ?_ ⟨booked_initialise h, held_initialise h⟩ hE
    intro u i t hu hi ht
    exact ⟨booked_step ht hu.1, held_step ht hne hu.1 hu.2 hi⟩
  refine throughout_mono ?_ hboth
  intro u hu
  exact ⟨hu.1, hu.2, fun _ c => divides_invoke hu.1 c, payable_of_held hu.1 hu.2⟩

/-- A pool of the tokens at addresses 8 and 9, with a provider at address 3 and
a trader at address 4. -/
def sample : Storage Nat (Nat → Nat → Nat) :=
  { Storage.fresh (fun token a =>
      if token = 8 ∧ a = 3 then 100000 else
      if token = 9 ∧ a = 3 then 100000 else
      if token = 8 ∧ a = 4 then 1000 else 0) with
    admin := some 1
    tokenA := some 8
    tokenB := some 9
    feeBps := 30 }

theorem initialise_sample :
    initialise (Env.signed 0 0) (.fresh sample.world) 1 8 9 30 = .ok sample := rfl

def sampleAdd : Input Nat (Nat → Nat → Nat) 0 (Call Nat) :=
  .call (Env.signed 0 1) (.addLiquidity 3 10000 10000 0)

def sampleSwap : Input Nat (Nat → Nat → Nat) 0 (Call Nat) :=
  .call (Env.signed 0 2) (.swap 4 8 1000 0)

def sampleRemove : Input Nat (Nat → Nat → Nat) 0 (Call Nat) :=
  .call (Env.signed 0 3) (.removeLiquidity 3 4000 0 0)

theorem pool_sound_sample :
    Payable (bookToken Nat) 0 8 9
      (run (step (bookToken Nat)) sample [sampleAdd, sampleSwap, sampleRemove]) := by
  have hE : Along (step (bookToken Nat)) (Undisturbed (bookToken Nat) 8 9) sample
      [sampleAdd, sampleSwap, sampleRemove] :=
    ⟨fun _ _ => trivial, fun _ _ => trivial, fun _ _ => trivial, trivial⟩
  exact (throughout_run (pool_sound initialise_sample hE)).2.2.2

end Suban.CpmmPool.Soundness

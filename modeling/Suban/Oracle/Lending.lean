import Suban.LendingPool.Steps
import Suban.Oracle.Contract

namespace Suban.Oracle.Lending

open Suban.Basis.Calls Suban.Basis.Tables Suban.Soroban.Host Suban.Hub.Types
open Suban.LendingPool.State Suban.Oracle.Contract

variable {Address B : Type} [DecidableEq Address]

structure World (Address B : Type) [DecidableEq Address] where
  oracle : Oracle.Contract.Storage Address
  books : B

def reply : Outcome HubError (Hub.Types.Price Address) → Reply
  | .ok p => .price ⟨p.price, p.decimals, p.timestamp⟩
  | .error (.error _) => .error
  | .error .panic => .trap

/-- A market in which the oracle is to be found at an address. What other
contracts answer is up to them. -/
def oracleMarket (T : Sep41 Address B) (oracle : Address)
    (elsewhere : B → Address → Address → Reply) : Market Address (World Address B) where
  balance w := T.balance w.books
  transfer w token src dst n :=
    (T.transfer w.books token src dst n).map (fun books => { w with books := books })
  balance_nonneg w := T.balance_nonneg w.books
  transfer_covered h := by
    obtain ⟨books, hbooks, rfl⟩ := Option.map_eq_some_iff.mp h
    exact T.transfer_covered hbooks
  balance_transfer h := by
    obtain ⟨books, hbooks, rfl⟩ := Option.map_eq_some_iff.mp h
    exact T.balance_transfer hbooks
  getPrice w contract asset :=
    if contract = oracle then reply (getPrice w.oracle asset) else elsewhere w.books contract asset

/-- The bounds in force when a price was pushed. -/
structure Bounds (Address : Type) where
  last : Option (Hub.Types.Price Address)
  thresholdBps : Nat

/-- A pool that can read the oracle, and for each price that the oracle has now
the bounds that it was pushed under. -/
structure Desk (Address B : Type) [DecidableEq Address] where
  pool : LendingPool.State.Storage Address (World Address B)
  pushed : Table Address (Bounds Address)

namespace Desk

variable (s : Desk Address B)

def oracle : Oracle.Contract.Storage Address := s.pool.world.oracle

def after (c : Oracle.Contract.Call Address) (oracle : Oracle.Contract.Storage Address) :
    Desk Address B where
  pool := { s.pool with world := { s.pool.world with oracle := oracle } }
  pushed :=
    match c with
    | .setPrice _ asset _ _ _ => s.pushed.insert asset
        ⟨s.oracle.lastPrice.lookup asset, s.oracle.circuitBreakerThresholdBps⟩
    | _ => s.pushed

end Desk

inductive Input (Address B : Type) (oracle contract : Address) where
  | oracle (env : Env Address oracle) (c : Oracle.Contract.Call Address)
  | pool (env : Env Address contract) (c : LendingPool.Contract.Call Address)
  | books (books : B)

variable {oracle contract : Address}

def step (T : Sep41 Address B) (elsewhere : B → Address → Address → Reply) (s : Desk Address B) :
    Input Address B oracle contract → Except Unit (Desk Address B)
  | .oracle env c =>
    match Oracle.Contract.invoke env s.oracle c with
    | .ok o => .ok (s.after c o)
    | .error _ => .error ()
  | .pool env c =>
    match LendingPool.Contract.invoke (oracleMarket T oracle elsewhere) env s.pool c with
    | .ok pool => .ok { s with pool := pool }
    | .error _ => .error ()
  | .books books => .ok { s with pool := { s.pool with world := ⟨s.oracle, books⟩ } }

variable {T : Sep41 Address B} {elsewhere : B → Address → Address → Reply}

theorem oracle_transfer {w v : World Address B} {token src dst : Address} {n : Int}
    (h : (oracleMarket T oracle elsewhere).transfer w token src dst n = some v) :
    v.oracle = w.oracle := by
  obtain ⟨books, -, rfl⟩ := Option.map_eq_some_iff.mp h
  rfl

theorem oracle_effect {env : Env Address contract}
    {s t : LendingPool.State.Storage Address (World Address B)}
    {c : LendingPool.Contract.Call Address}
    (h : LendingPool.Steps.Effect (oracleMarket T oracle elsewhere) env s c t) :
    t.world.oracle = s.world.oracle := by
  cases h with
  | initialise | setCollateral | upToDate | accrue | setCollateralAsset | setCollateralToken => rfl
  | configure hc ht => rw [ht.world]
  | deposit _ _ _ _ _ _ _ hw => exact oracle_transfer hw
  | withdraw _ _ _ _ _ _ _ _ _ _ hw => exact oracle_transfer hw
  | borrow _ _ _ _ _ _ _ hw => exact oracle_transfer hw
  | repay _ _ _ _ _ _ _ hw => exact oracle_transfer hw
  | liquidate _ _ _ _ _ _ _ _ _ _ _ _ _ hv hw =>
    exact (oracle_transfer hw).trans (oracle_transfer hv)
  | depositCollateral _ _ _ _ _ hw => exact oracle_transfer hw
  | withdrawCollateral _ _ _ _ _ _ _ hw => exact oracle_transfer hw

end Suban.Oracle.Lending

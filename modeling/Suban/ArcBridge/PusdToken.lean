import Suban.Evm.Host

namespace Suban.ArcBridge.PusdToken

open Suban.Basis.Calls Suban.Evm.Host

inductive Role where
  | defaultAdmin
  | minter
  | burner
  deriving DecidableEq

structure Token (B : Type) where
  maxSupply : Word
  bridge : Account
  roles : Roles Role
  paused : Bool
  books : B

variable {B : Type} (X : Erc20 B) (msg : Msg) (s : Token B)

def deploy (books : B) (initialSupplyCap : Word) (admin : Account) : Token B where
  maxSupply := initialSupplyCap
  bridge := 0
  roles := grantRole ∅ .defaultAdmin admin
  paused := false
  books := books

def onlyBridge : Outcome Revert Unit :=
  require (msg.sender = s.bridge) "PUSD: caller is not the bridge"

def setBridge (bridge : Account) : Outcome Revert (Token B) := do
  onlyRole s.roles .defaultAdmin msg.sender
  require (bridge ≠ 0) "PUSD: zero address"
  pure { s with bridge := bridge }

def mint (dst : Account) (amount : Word) : Outcome Revert (Token B) := do
  onlyRole s.roles .minter msg.sender
  onlyBridge msg s
  let supply ← checkedAdd (X.totalSupply s.books) amount
  require (supply ≤ s.maxSupply) "PUSD: exceeds supply cap"
  whenNotPaused s.paused
  let books ← okOr (X.mint s.books dst amount) .erc20
  pure { s with books := books }

def burn (src : Account) (amount : Word) : Outcome Revert (Token B) := do
  onlyRole s.roles .burner msg.sender
  onlyBridge msg s
  whenNotPaused s.paused
  let books ← okOr (X.burn s.books src amount) .erc20
  pure { s with books := books }

def pause : Outcome Revert (Token B) := do
  onlyRole s.roles .defaultAdmin msg.sender
  whenNotPaused s.paused
  pure { s with paused := true }

def unpause : Outcome Revert (Token B) := do
  onlyRole s.roles .defaultAdmin msg.sender
  whenPaused s.paused
  pure { s with paused := false }

end Suban.ArcBridge.PusdToken

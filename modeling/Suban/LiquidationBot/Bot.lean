import Mathlib.Data.List.Basic
import Suban.LiquidationBot.Risk

namespace Suban.LiquidationBot.Bot

open Suban.LiquidationBot.Risk

inductive Mode where
  | dryRun
  | execute
  deriving DecidableEq

/-- What a pass reads of its configuration. The amounts are texts of digits in
the environment, so none is negative. -/
structure BotConfig (Address : Type) where
  poolId : String
  mode : Mode
  liquidatorSecret : Option String
  liquidatorPublicKey : Option Address
  accounts : List Address
  dataPlatformUrl : Option String
  maxRepayRaw : Nat
  minHealthBps : Nat
  bonusBps : Nat
  slippageBps : Nat
  maxCandidates : Nat

structure AccountRisk (Address : Type) where
  account : Address
  depositRaw : Int
  borrowRaw : Int
  collateralRaw : Int
  healthBps : Int

structure ExecutionResult where
  hash : String
  ledger : Nat
  status : String

structure BotReport (Address : Type) where
  mode : Mode
  poolId : String
  candidates : Nat
  inspected : Nat
  liquidatable : Nat
  executed : Nat
  reviews : List (LiquidationPlan Address)
  errors : List (Address × String)

/-- What a pass asks of the world outside, which answers or fails and has moved
on either way. Execute mode derives its key from the secret as it finds it, so
that `fromSecret` can be given none. -/
structure BotDependencies (Address σ : Type) where
  discover : BotConfig Address → σ → Except String (List Address) × σ
  fromSecret : Option String → Except String Address
  connect : Address → σ → Except String Unit × σ
  read : Address → σ → Except String (AccountRisk Address) × σ
  execute : LiquidationPlan Address → σ → Except String ExecutionResult × σ

variable {Address σ : Type}

def BotReport.fresh (config : BotConfig Address) : BotReport Address where
  mode := config.mode
  poolId := config.poolId
  candidates := 0
  inspected := 0
  liquidatable := 0
  executed := 0
  reviews := []
  errors := []

namespace BotReport

variable (report : BotReport Address)

def fail (account : Address) (message : String) : BotReport Address :=
  { report with errors := report.errors ++ [(account, message)] }

def review (plan : LiquidationPlan Address) : BotReport Address :=
  { report with reviews := report.reviews ++ [plan] }

end BotReport

def planInput (config : BotConfig Address) (account : Address) (risk : AccountRisk Address) :
    LiquidationPlanInput Address where
  account := account
  healthBps := risk.healthBps
  borrowRaw := risk.borrowRaw
  collateralRaw := risk.collateralRaw
  maxRepayRaw := config.maxRepayRaw
  minHealthBps := some config.minHealthBps
  bonusBps := some config.bonusBps
  slippageBps := some config.slippageBps

variable (config : BotConfig Address) (deps : BotDependencies Address σ)

def carryOut (report : BotReport Address) (account : Address) (plan : LiquidationPlan Address)
    (w : σ) : BotReport Address × σ :=
  match config.mode with
  | .execute =>
    match deps.execute plan w with
    | (.ok result, w) =>
      ({ report with executed := report.executed + 1 }.review
        { plan with reason := "executed:" ++ result.hash }, w)
    | (.error message, w) => (report.fail account message, w)
  | .dryRun => (report.review plan, w)

/-- The body of the loop. Whatever throws in it is an error of this account
alone. -/
def inspect (report : BotReport Address) (w : σ) (account : Address) : BotReport Address × σ :=
  match deps.read account w with
  | (.error message, w) => (report.fail account message, w)
  | (.ok risk, w) =>
    let report := { report with inspected := report.inspected + 1 }
    match planLiquidation (planInput config account risk) with
    | none => (report.fail account "Division by zero", w)
    | some plan =>
      if plan.liquidatable = false then (report, w)
      else
        carryOut config deps { report with liquidatable := report.liquidatable + 1 } account plan w

def inspectAll : List Address → BotReport Address → σ → BotReport Address × σ
  | [], report, w => (report, w)
  | account :: accounts, report, w =>
    let (report, w) := inspect config deps report w account
    inspectAll accounts report w

/-- The key that signs, in execute mode only, and else the one that simulates. -/
def publicKey : Except String Address :=
  match config.mode with
  | .execute => deps.fromSecret config.liquidatorSecret
  | .dryRun =>
    match config.liquidatorPublicKey, config.liquidatorSecret with
    | some key, _ => .ok key
    | none, some secret => deps.fromSecret (some secret)
    | none, none => .error "No liquidator public key is available for simulation"

def runOnce (w : σ) : Except String (BotReport Address) × σ :=
  let report := BotReport.fresh config
  match deps.discover config w with
  | (.error message, w) => (.error message, w)
  | (.ok found, w) =>
    let candidates := found.take config.maxCandidates
    let report := { report with candidates := candidates.length }
    if candidates.isEmpty then (.ok report, w)
    else
      match publicKey config deps with
      | .error message => (.error message, w)
      | .ok key =>
        match deps.connect key w with
        | (.error message, w) => (.error message, w)
        | (.ok (), w) =>
          let (report, w) := inspectAll config deps candidates report w
          (.ok report, w)

end Suban.LiquidationBot.Bot

import Suban.Basis.Runs
import Suban.LendingPool.Steps
import Suban.LiquidationBot.Report

namespace Suban.LiquidationBot.Exposure

open Suban.Basis.Calls Suban.Basis.Runs Suban.Soroban.Host Suban.LendingPool.State
open Suban.LendingPool.Contract (Call invoke step liquidate calculateHealthFactor getHealthFactor
  getPosition poolAsset collateralToken)
open Suban.LiquidationBot.Risk Suban.LiquidationBot.Bot Suban.LiquidationBot.Report

variable {Address W : Type} [DecidableEq Address] {contract : Address}

inductive Reply where
  | up (hash : String) (ledger : Nat)
  | down (message : String)
  | lost (message : String)

/-- One request to the network, with what others do on the chain before it gets
there. Of two requests at once either may get there first. -/
structure Access (Address W : Type) (contract : Address) where
  env : Env Address contract
  before : List (Input Address W contract (Call Address))
  reply : Reply
  swapped : Bool

/-- A liquidation that the pool has accepted from the bot. -/
structure Dealing (Address W : Type) [DecidableEq Address] (contract : Address) where
  before : Storage Address W
  env : Env Address contract
  plan : LiquidationPlan Address
  after : Storage Address W

/-- The pool as it stands, the requests to come, and what the bot has dealt. -/
structure Chain (Address W : Type) [DecidableEq Address] (contract : Address) where
  pool : Storage Address W
  schedule : List (Access Address W contract)
  dealings : List (Dealing Address W contract)

variable (M : Market Address W)

namespace Chain

variable {α : Type} (c : Chain Address W contract)

def settle (a : Access Address W contract) (rest : List (Access Address W contract)) :
    Chain Address W contract :=
  { c with pool := run (step M) c.pool a.before, schedule := rest }

def simulate (q : Env Address contract → Storage Address W → Except String α) :
    Except String α × Chain Address W contract :=
  match c.schedule with
  | [] => (.error "no response", c)
  | a :: rest =>
    match a.reply with
    | .up _ _ => (q a.env (c.settle M a rest).pool, c.settle M a rest)
    | .down message | .lost message => (.error message, c.settle M a rest)

def simulatePosition (account : Address) : Except String UserPosition × Chain Address W contract :=
  c.simulate M fun _ s => .ok (getPosition s account)

def simulateHealth (account : Address) : Except String Int × Chain Address W contract :=
  c.simulate M fun env s =>
    match getHealthFactor M env s account with
    | .ok health => .ok health
    | .error _ => .error "Contract simulation failed"

def risk (account : Address) :
    Except String UserPosition → Except String Int → Except String (AccountRisk Address)
  | .ok position, .ok health =>
    .ok ⟨account, position.deposit, position.borrow, position.collateral, health⟩
  | .error message, _ => .error message
  | _, .error message => .error message

def readAccount (account : Address) :
    Except String (AccountRisk Address) × Chain Address W contract :=
  if c.schedule.head?.any (fun a => a.swapped) then
    let (health, c) := c.simulateHealth M account
    let (position, c) := c.simulatePosition M account
    (risk account position health, c)
  else
    let (position, c) := c.simulatePosition M account
    let (health, c) := c.simulateHealth M account
    (risk account position health, c)

def send (liquidator : Address) (plan : LiquidationPlan Address) :
    Except String ExecutionResult × Chain Address W contract :=
  match c.schedule with
  | [] => (.error "no response", c)
  | a :: rest =>
    let c := c.settle M a rest
    let sent := invoke M a.env c.pool
      (.liquidate liquidator plan.account plan.repayRaw plan.minCollateralRaw)
    match a.reply, sent with
    | .down message, _ => (.error message, c)
    | .lost message, .error _ => (.error message, c)
    | .up _ _, .error _ => (.error "Liquidation transaction ended with status FAILED", c)
    | .lost message, .ok t =>
      (.error message, { c with pool := t, dealings := c.dealings ++ [⟨c.pool, a.env, plan, t⟩] })
    | .up hash ledger, .ok t =>
      (.ok ⟨hash, ledger, "SUCCESS"⟩,
        { c with pool := t, dealings := c.dealings ++ [⟨c.pool, a.env, plan, t⟩] })

end Chain

/-- The bot at work on the chain. Whatever is discovered supplies addresses only. -/
def onChain (found : Except String (List Address))
    (fromSecret : Option String → Except String Address) (liquidator : Address) :
    BotDependencies Address (Chain Address W contract) where
  discover _ c := (found, c)
  fromSecret := fromSecret
  connect _ c := c.simulate M fun _ _ => .ok ()
  read account c := c.readAccount M account
  execute plan c := c.send M liquidator plan

variable {M} {config : BotConfig Address} {liquidator : Address}
variable {found : Except String (List Address)} {fromSecret : Option String → Except String Address}
variable {c d : Chain Address W contract}

/-- Requests were made that only look, while others have moved on. -/
def Watched (M : Market Address W) (c d : Chain Address W contract) : Prop :=
  ∃ taken, c.schedule = taken ++ d.schedule ∧ d.dealings = c.dealings ∧
    d.pool = run (step M) c.pool (taken.flatMap fun a => a.before)

theorem watched_refl (c : Chain Address W contract) : Watched M c c := ⟨[], rfl, rfl, rfl⟩

theorem Watched.trans {e : Chain Address W contract} (h : Watched M c d) (h' : Watched M d e) :
    Watched M c e := by
  obtain ⟨taken, hs, hd, hp⟩ := h
  obtain ⟨taken', hs', hd', hp'⟩ := h'
  refine ⟨taken ++ taken', ?_, hd'.trans hd, ?_⟩
  · rw [hs, hs', List.append_assoc]
  · rw [hp', hp, List.flatMap_append, run_append]

theorem watched_settle {a : Access Address W contract} {rest : List (Access Address W contract)}
    (h : c.schedule = a :: rest) : Watched M c (c.settle M a rest) :=
  ⟨[a], h, rfl, by rw [List.flatMap_singleton]; rfl⟩

theorem watched_simulate {α : Type}
    (q : Env Address contract → Storage Address W → Except String α) :
    Watched M c (c.simulate M q).2 := by
  unfold Chain.simulate
  split
  next => exact watched_refl c
  next a rest h =>
    split
    · exact watched_settle h
    · exact watched_settle h
    · exact watched_settle h

theorem watched_readAccount (account : Address) : Watched M c (c.readAccount M account).2 := by
  unfold Chain.readAccount
  split
  · exact (watched_simulate _).trans (watched_simulate _)
  · exact (watched_simulate _).trans (watched_simulate _)

namespace Dealing

variable (x : Dealing Address W contract)

def paid : Int := x.before.borrowOf x.plan.account - x.after.borrowOf x.plan.account

def got : Int := x.before.collateralOf x.plan.account - x.after.collateralOf x.plan.account

end Dealing

/-- The borrower was unhealthy when the bot dealt with it. The bot paid at most
what it had planned, and was given at least what it had asked for. -/
structure Fair (M : Market Address W) (config : BotConfig Address) (liquidator : Address)
    (x : Dealing Address W contract) : Prop where
  allowed : Allowed config x.plan.account x.plan
  unhealthy : ∃ health, calculateHealthFactor M x.env x.before x.plan.account = .ok health ∧
    health < 10000
  authorised : x.env.auths liquidator = true
  paid_le : x.paid ≤ x.plan.repayRaw
  got_ge : x.plan.minCollateralRaw ≤ x.got
  transfers : ∃ v, M.transfer x.before.world (poolAsset contract x.before) liquidator contract
      x.paid = some v ∧
    M.transfer v (collateralToken contract x.before) contract liquidator x.got = some x.after.world

theorem liquidate_ok {env : Env Address contract} {s t : Storage Address W} {borrower : Address}
    {repay minimum : Int} (h : liquidate M env s liquidator borrower repay minimum = .ok t) :
    ∃ health paid got v, env.auths liquidator = true ∧
      calculateHealthFactor M env s borrower = .ok health ∧ health < 10000 ∧ paid ≤ repay ∧
      minimum ≤ got ∧ t.borrowOf borrower = s.borrowOf borrower - paid ∧
      t.collateralOf borrower = s.collateralOf borrower - got ∧
      M.transfer s.world (poolAsset contract s) liquidator contract paid = some v ∧
      M.transfer v (collateralToken contract s) contract liquidator got = some t.world := by
  simp only [liquidate, bind_eq_ok, rejectIf_eq_ok, requireAuth_eq_ok, checked_eq_ok,
    checkedDiv_eq_ok, Suban.LendingPool.Steps.transfer_eq_ok, pure_eq_ok] at h
  obtain ⟨_, -, _, -, _, hauth, health, hhealth, _, hlt, _, ⟨-, rfl⟩, h⟩ := h
  obtain ⟨_, ⟨-, rfl⟩, h⟩ := h
  obtain ⟨_, ⟨-, -, rfl⟩, h⟩ := h
  obtain ⟨_, hmin, _, hle, _, ⟨-, rfl⟩, h⟩ := h
  obtain ⟨_, ⟨-, rfl⟩, h⟩ := h
  obtain ⟨_, ⟨-, rfl⟩, h⟩ := h
  obtain ⟨_, ⟨v, hv, rfl⟩, h⟩ := h
  obtain ⟨_, ⟨w, hw, rfl⟩, rfl⟩ := h
  refine ⟨health, _, _, v, hauth, hhealth, not_le.mp hlt, min_le_left _ _, not_lt.mp hmin, ?_, ?_,
    hv, hw⟩
  · simp [Storage.report, Storage.publish, Storage.setBorrow, Storage.setCollateral,
      Storage.borrowOf, Basis.Tables.readOr_insert]
  · simp [Storage.report, Storage.publish, Storage.setBorrow, Storage.setCollateral,
      Storage.collateralOf, Basis.Tables.readOr_insert]

theorem fair_of_ok {env : Env Address contract} {s t : Storage Address W} {account : Address}
    {plan : LiquidationPlan Address} (hplan : Allowed config account plan)
    (h : liquidate M env s liquidator plan.account plan.repayRaw plan.minCollateralRaw = .ok t) :
    Fair M config liquidator ⟨s, env, plan, t⟩ := by
  obtain ⟨health, paid, got, v, hauth, hhealth, hlt, hpaid, hgot, hb, hc, hv, hw⟩ := liquidate_ok h
  have hpaid' : Dealing.paid ⟨s, env, plan, t⟩ = paid := by
    rw [Dealing.paid, hb]
    exact sub_sub_cancel _ _
  have hgot' : Dealing.got ⟨s, env, plan, t⟩ = got := by
    rw [Dealing.got, hc]
    exact sub_sub_cancel _ _
  refine ⟨hplan.rename plan.reason, ⟨health, hhealth, hlt⟩, hauth, ?_, ?_, ⟨v, ?_, ?_⟩⟩
  · rw [hpaid']
    exact hpaid
  · rw [hgot']
    exact hgot
  · rw [hpaid']
    exact hv
  · rw [hgot']
    exact hw

/-- A plan that is sent makes one fair dealing or none, and a result means that
it made one. -/
theorem send_effect {account : Address} {plan : LiquidationPlan Address}
    {answer : Except String ExecutionResult} (hplan : Allowed config account plan)
    (h : c.send M liquidator plan = (answer, d)) :
    (d.dealings = c.dealings ∧ ∃ message, answer = .error message) ∨
      ∃ x, x.plan = plan ∧ Fair M config liquidator x ∧ d.dealings = c.dealings ++ [x] := by
  unfold Chain.send at h
  split at h
  next =>
    cases h
    exact .inl ⟨rfl, _, rfl⟩
  next a rest hschedule =>
    dsimp only at h
    split at h
    next =>
      cases h
      exact .inl ⟨rfl, _, rfl⟩
    next =>
      cases h
      exact .inl ⟨rfl, _, rfl⟩
    next =>
      cases h
      exact .inl ⟨rfl, _, rfl⟩
    next message t hreply hsent =>
      cases h
      exact .inr ⟨_, rfl, fair_of_ok hplan hsent, rfl⟩
    next hash ledger t hreply hsent =>
      cases h
      exact .inr ⟨_, rfl, fair_of_ok hplan hsent, rfl⟩

/-- The dealings so far: fair ones with some of the accounts that were visited,
in the order of the visits, and all that the report counts. -/
structure Exposed (M : Market Address W) (config : BotConfig Address) (liquidator : Address)
    (visited : List Address) (report : BotReport Address) (c : Chain Address W contract) :
    Prop where
  accounts : (c.dealings.map fun x => x.plan.account).Sublist visited
  fair : ∀ x ∈ c.dealings, Fair M config liquidator x
  executed : report.executed ≤ c.dealings.length

variable {visited : List Address} {report after : BotReport Address} {account : Address}

theorem Exposed.same (h : Exposed M config liquidator visited report c)
    (hd : d.dealings = c.dealings) (he : after.executed = report.executed) :
    Exposed M config liquidator (visited ++ [account]) after d := by
  refine ⟨?_, hd ▸ h.fair, ?_⟩
  · rw [hd]
    exact h.accounts.trans (List.sublist_append_left _ _)
  · rw [hd, he]
    exact h.executed

theorem Exposed.deal (h : Exposed M config liquidator visited report c)
    {x : Dealing Address W contract} (hx : Fair M config liquidator x)
    (haccount : x.plan.account = account) (hd : d.dealings = c.dealings ++ [x])
    (he : after.executed ≤ report.executed + 1) :
    Exposed M config liquidator (visited ++ [account]) after d := by
  refine ⟨?_, ?_, ?_⟩
  · rw [hd, List.map_append, List.map_singleton, haccount]
    exact h.accounts.append (.refl _)
  · rw [hd, List.forall_mem_append]
    exact ⟨h.fair, List.forall_mem_singleton.mpr hx⟩
  · rw [hd, List.length_append, List.length_singleton]
    exact he.trans (Nat.succ_le_succ h.executed)

theorem watched_read {v : Chain Address W contract}
    {answer : Except String (AccountRisk Address)}
    (h : (onChain M found fromSecret liquidator).read account c = (answer, v)) :
    Watched M c v := by
  have hwatched : Watched M c (c.readAccount M account).2 := watched_readAccount account
  have hv : c.readAccount M account = (answer, v) := h
  rwa [hv] at hwatched

theorem Watched.dealings (h : Watched M c d) : d.dealings = c.dealings := by
  obtain ⟨_, -, hd, -⟩ := h
  exact hd

theorem exposed_inspected
    (h : Inspected config (onChain M found fromSecret liquidator) report c account after d)
    (he : Exposed M config liquidator visited report c) :
    Exposed M config liquidator (visited ++ [account]) after d := by
  cases h with
  | unread _ _ hread | left _ _ hread | shown _ _ _ _ hread =>
    exact he.same (watched_read hread).dealings rfl
  | sent risk plan v u result hmode hread hplan hsent =>
    have hv := (watched_read hread).dealings
    obtain ⟨-, message, herror⟩ | ⟨x, hx, hfair, hd⟩ := send_effect hplan hsent
    · cases herror
    · rw [hv] at hd
      exact he.deal hfair (hx ▸ hplan.account_eq) hd le_rfl
  | failed risk plan v u message hmode hread hplan hsent =>
    have hv := (watched_read hread).dealings
    obtain ⟨hd, -⟩ | ⟨x, hx, hfair, hd⟩ := send_effect hplan hsent
    · exact he.same (hd.trans hv) rfl
    · rw [hv] at hd
      exact he.deal hfair (hx ▸ hplan.account_eq) hd (Nat.le_succ _)

theorem exposed_inspectAll (found : Except String (List Address))
    (fromSecret : Option String → Except String Address) (accounts : List Address)
    (he : Exposed M config liquidator visited report c) :
    Exposed M config liquidator (visited ++ accounts)
      (inspectAll config (onChain M found fromSecret liquidator) accounts report c).1
      (inspectAll config (onChain M found fromSecret liquidator) accounts report c).2 := by
  induction accounts generalizing visited report c with
  | nil => rwa [List.append_nil]
  | cons account accounts ih =>
    rw [List.append_cons]
    exact ih (exposed_inspected (inspect_inspected config _ report c account) he)

theorem watched_inspected (hmode : config.mode = .dryRun)
    (h : Inspected config (onChain M found fromSecret liquidator) report c account after d) :
    Watched M c d := by
  cases h with
  | unread _ _ hread | left _ _ hread | shown _ _ _ _ hread => exact watched_read hread
  | sent _ _ _ _ _ hexecute | failed _ _ _ _ _ hexecute =>
    exact absurd (hexecute.symm.trans hmode) (by simp)

theorem watched_inspectAll (M : Market Address W) (found : Except String (List Address))
    (fromSecret : Option String → Except String Address) (liquidator : Address)
    (hmode : config.mode = .dryRun) (accounts : List Address) (report : BotReport Address)
    (c : Chain Address W contract) :
    Watched M c
      (inspectAll config (onChain M found fromSecret liquidator) accounts report c).2 := by
  induction accounts generalizing report c with
  | nil => exact watched_refl c
  | cons account accounts ih =>
    have hfirst := watched_inspected hmode
      (inspect_inspected config (onChain M found fromSecret liquidator) report c account)
    exact hfirst.trans (ih _ _)

def candidates (config : BotConfig Address) : Except String (List Address) → List Address
  | .ok found => found.take config.maxCandidates
  | .error _ => []

variable {answer : Except String (BotReport Address)}

theorem runOnce_end (h : runOnce config (onChain M found fromSecret liquidator) c = (answer, d)) :
    (Watched M c d ∧ ∀ report, answer = .ok report → report.executed = 0) ∨
      ∃ u n report, Watched M c u ∧ answer = .ok report ∧
        inspectAll config (onChain M found fromSecret liquidator) (candidates config found)
          { BotReport.fresh config with candidates := n } u = (report, d) := by
  have hdiscover : (onChain M found fromSecret liquidator).discover config c = (found, c) := rfl
  unfold runOnce at h
  rw [hdiscover] at h
  cases found with
  | error message =>
    cases h
    exact .inl ⟨watched_refl c, nofun⟩
  | ok found =>
    dsimp only at h
    split at h
    next =>
      cases h
      refine .inl ⟨watched_refl c, ?_⟩
      rintro report ⟨⟩
      rfl
    next =>
      split at h
      next =>
        cases h
        exact .inl ⟨watched_refl c, nofun⟩
      next key hkey =>
        have hwatched : Watched M c (c.simulate M fun _ _ => (.ok () : Except String Unit)).2 :=
          watched_simulate _
        rcases hconnect : (onChain M (.ok found) fromSecret liquidator).connect key c with
          ⟨message | _, u⟩
        · have hu : c.simulate M (fun _ _ => .ok ()) = (.error message, u) := hconnect
          rw [hconnect] at h
          cases h
          rw [hu] at hwatched
          exact .inl ⟨hwatched, nofun⟩
        · have hu : c.simulate M (fun _ _ => .ok ()) = (.ok (), u) := hconnect
          rw [hconnect] at h
          rw [hu] at hwatched
          dsimp only at h
          cases h
          exact .inr ⟨u, _, _, hwatched, rfl, rfl⟩

/-- What the bot has laid out and for what. -/
structure Bounded (M : Market Address W) (config : BotConfig Address) (liquidator : Address)
    (accounts : List Address) (answer : Except String (BotReport Address))
    (dealings : List (Dealing Address W contract)) : Prop where
  accounts : (dealings.map fun x => x.plan.account).Sublist accounts
  fair : ∀ x ∈ dealings, Fair M config liquidator x
  outlay : (dealings.map Dealing.paid).sum ≤ config.maxCandidates * config.maxRepayRaw
  executed : ∀ report, answer = .ok report → report.executed ≤ dealings.length

theorem sum_paid_le {dealings : List (Dealing Address W contract)}
    (h : ∀ x ∈ dealings, Fair M config liquidator x) :
    (dealings.map Dealing.paid).sum ≤ dealings.length * config.maxRepayRaw := by
  have hle := List.sum_le_card_nsmul (dealings.map Dealing.paid) (config.maxRepayRaw : Int)
    (List.forall_mem_map.mpr fun x hx => (h x hx).paid_le.trans (h x hx).allowed.repay_le)
  rwa [List.length_map, nsmul_eq_mul] at hle

omit [DecidableEq Address] in
theorem length_candidates_le (config : BotConfig Address) (found : Except String (List Address)) :
    (candidates config found).length ≤ config.maxCandidates := by
  cases found with
  | error => exact Nat.zero_le _
  | ok found => exact List.length_take_le _ _

theorem bounded_of_exposed (h : Exposed M config liquidator (candidates config found) report c)
    (hanswer : ∀ r, answer = .ok r → r.executed ≤ report.executed) :
    Bounded M config liquidator (candidates config found) answer c.dealings where
  accounts := h.accounts
  fair := h.fair
  outlay := by
    have hlength : c.dealings.length ≤ config.maxCandidates := by
      have hsub := h.accounts.length_le
      rw [List.length_map] at hsub
      exact hsub.trans (length_candidates_le config found)
    refine (sum_paid_le h.fair).trans ?_
    exact mul_le_mul_of_nonneg_right (by exact_mod_cast hlength) (Int.natCast_nonneg _)
  executed r hr := (hanswer r hr).trans h.executed

/-- A pass of the bot over the chain as it is, with the requests to come. -/
def pass (M : Market Address W) (config : BotConfig Address)
    (found : Except String (List Address)) (fromSecret : Option String → Except String Address)
    (liquidator : Address) (pool : Storage Address W)
    (schedule : List (Access Address W contract)) :
    Except String (BotReport Address) × Chain Address W contract :=
  runOnce config (onChain M found fromSecret liquidator) ⟨pool, schedule, []⟩

theorem exposed_of_watched (h : Watched M c d) (hc : c.dealings = [])
    (hr : report.executed = 0) : Exposed M config liquidator [] report d := by
  have hnone : d.dealings = [] := h.dealings.trans hc
  refine ⟨?_, ?_, ?_⟩
  · rw [hnone]
    exact .refl _
  · rw [hnone]
    exact fun _ hx => absurd hx List.not_mem_nil
  · rw [hr]
    exact Nat.zero_le _

/-- Whatever others do meanwhile and however the network answers, a pass deals at
most once with each candidate, each time fairly, and pays no more in all than
its caps allow. In a dry run it changes nothing. -/
theorem pass_bounded (M : Market Address W) (config : BotConfig Address)
    (found : Except String (List Address)) (fromSecret : Option String → Except String Address)
    (liquidator : Address) (pool : Storage Address W)
    (schedule : List (Access Address W contract)) :
    Bounded M config liquidator (candidates config found)
        (pass M config found fromSecret liquidator pool schedule).1
        (pass M config found fromSecret liquidator pool schedule).2.dealings ∧
      (config.mode = .dryRun → Watched M ⟨pool, schedule, []⟩
        (pass M config found fromSecret liquidator pool schedule).2) := by
  rcases h : pass M config found fromSecret liquidator pool schedule with ⟨answer, d⟩
  obtain ⟨hd, hzero⟩ | ⟨u, n, report, hu, rfl, hall⟩ := runOnce_end h
  · have hnone : d.dealings = [] := hd.dealings
    refine ⟨⟨?_, ?_, ?_, fun r hr => ?_⟩, fun _ => hd⟩
    · simp [hnone]
    · simp [hnone]
    · simp only [hnone, List.map_nil, List.sum_nil]
      exact mul_nonneg (Int.natCast_nonneg _) (Int.natCast_nonneg _)
    · rw [hzero r hr]
      exact Nat.zero_le _
  · have hstart : Exposed M config liquidator []
        { BotReport.fresh config with candidates := n } u := exposed_of_watched hu rfl rfl
    have hend : Exposed M config liquidator ([] ++ candidates config found) report d := by
      have hvisit := exposed_inspectAll found fromSecret (candidates config found) hstart
      rwa [hall] at hvisit
    refine ⟨bounded_of_exposed hend ?_, fun hmode => ?_⟩
    · rintro r ⟨⟩
      exact le_rfl
    · have hwatched : Watched M u d := by
        have hvisit := watched_inspectAll M found fromSecret liquidator hmode
          (candidates config found) { BotReport.fresh config with candidates := n } u
        rwa [hall] at hvisit
      exact hu.trans hwatched

end Suban.LiquidationBot.Exposure

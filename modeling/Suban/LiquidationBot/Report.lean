import Suban.LiquidationBot.Bot

namespace Suban.LiquidationBot.Report

open Suban.LiquidationBot.Risk Suban.LiquidationBot.Bot

variable {Address σ : Type} {config : BotConfig Address} {deps : BotDependencies Address σ}
variable {report : BotReport Address} {account : Address} {w : σ}

/-- The plan is one that the configuration allows: it repays something of an
unhealthy position, up to the cap, and asks for at most what it expects. -/
structure Allowed (config : BotConfig Address) (account : Address)
    (plan : LiquidationPlan Address) : Prop where
  account_eq : plan.account = account
  liquidatable : plan.liquidatable = true
  unhealthy : plan.healthBps < config.minHealthBps
  repay_pos : 0 < plan.repayRaw
  repay_le : plan.repayRaw ≤ config.maxRepayRaw
  minimum_le : plan.minCollateralRaw ≤ plan.estimatedCollateralRaw

/-- Everything that the inspection of an account can do to the report, and to
the world outside: only an execution is sent after the account was read. -/
inductive Inspected (config : BotConfig Address) (deps : BotDependencies Address σ)
    (report : BotReport Address) (w : σ) (account : Address) : BotReport Address → σ → Prop where
  | unread (message : String) (v : σ) (hread : deps.read account w = (.error message, v)) :
      Inspected config deps report w account (report.fail account message) v
  | left (risk : AccountRisk Address) (v : σ) (hread : deps.read account w = (.ok risk, v)) :
      Inspected config deps report w account
        { report with inspected := report.inspected + 1 } v
  | shown (risk : AccountRisk Address) (plan : LiquidationPlan Address) (v : σ)
      (hmode : config.mode = .dryRun) (hread : deps.read account w = (.ok risk, v))
      (hplan : Allowed config account plan) :
      Inspected config deps report w account
        ({ report with
          inspected := report.inspected + 1
          liquidatable := report.liquidatable + 1 }.review plan) v
  | sent (risk : AccountRisk Address) (plan : LiquidationPlan Address) (v u : σ)
      (result : ExecutionResult) (hmode : config.mode = .execute)
      (hread : deps.read account w = (.ok risk, v)) (hplan : Allowed config account plan)
      (hsent : deps.execute plan v = (.ok result, u)) :
      Inspected config deps report w account
        ({ report with
          inspected := report.inspected + 1
          liquidatable := report.liquidatable + 1
          executed := report.executed + 1 }.review
            { plan with reason := "executed:" ++ result.hash }) u
  | failed (risk : AccountRisk Address) (plan : LiquidationPlan Address) (v u : σ)
      (message : String) (hmode : config.mode = .execute)
      (hread : deps.read account w = (.ok risk, v)) (hplan : Allowed config account plan)
      (hsent : deps.execute plan v = (.error message, u)) :
      Inspected config deps report w account
        ({ report with
          inspected := report.inspected + 1
          liquidatable := report.liquidatable + 1 }.fail account message) u

/-- No configuration makes the plan divide by zero. -/
theorem exists_plan (config : BotConfig Address) (account : Address) (risk : AccountRisk Address) :
    ∃ plan, planLiquidation (planInput config account risk) = some plan := by
  have hrate : (10000 : Int) + (planInput config account risk).bonus ≠ 0 := by
    simp only [planInput, LiquidationPlanInput.bonus, Option.getD_some]
    omega
  have hfrom : ∃ n, maxRepayFromCollateral (planInput config account risk) = some n := by
    unfold maxRepayFromCollateral
    split
    · exact ⟨_, bigDiv_eq_some.mpr ⟨hrate, rfl⟩⟩
    · exact ⟨0, rfl⟩
  obtain ⟨n, hn⟩ := hfrom
  unfold planLiquidation
  split
  · exact ⟨_, rfl⟩
  · split
    · exact ⟨_, rfl⟩
    · split
      · exact ⟨_, rfl⟩
      · simp only [hn, bind, Option.bind_some]
        split
        · exact ⟨_, rfl⟩
        · simp [planFor, bigDiv]

theorem planLiquidation_fields {input : LiquidationPlanInput Address}
    {plan : LiquidationPlan Address} (h : planLiquidation input = some plan) :
    plan.account = input.account ∧ plan.healthBps = input.healthBps := by
  have hrefused : ∀ reason, some (input.refused reason) = some plan →
      plan.account = input.account ∧ plan.healthBps = input.healthBps := by
    rintro reason ⟨⟩
    exact ⟨rfl, rfl⟩
  unfold planLiquidation at h
  split at h
  · exact hrefused _ h
  · split at h
    · exact hrefused _ h
    · split at h
      · exact hrefused _ h
      · obtain ⟨fromCollateral, -, h⟩ := Option.bind_eq_some_iff.mp h
        dsimp only at h
        split at h
        · exact hrefused _ h
        · simp only [planFor, bind, Option.bind_eq_some_iff, pure, Option.some.injEq] at h
          obtain ⟨_, -, _, -, rfl⟩ := h
          exact ⟨rfl, rfl⟩

theorem allowed_of_plan {risk : AccountRisk Address} {plan : LiquidationPlan Address}
    (h : planLiquidation (planInput config account risk) = some plan)
    (hl : plan.liquidatable = true) : Allowed config account plan := by
  have hbonus : 0 ≤ (planInput config account risk).bonus := Int.natCast_nonneg _
  have hslippage : 0 ≤ (planInput config account risk).slippage := Int.natCast_nonneg _
  obtain ⟨haccount, hhealth⟩ := planLiquidation_fields h
  have hsound := planLiquidation_sound h hl hbonus hslippage
  exact ⟨haccount, hl, hhealth ▸ hsound.unhealthy, hsound.repay_pos, hsound.repay_le_cap,
    hsound.minimum_le⟩

theorem inspect_inspected (config : BotConfig Address) (deps : BotDependencies Address σ)
    (report : BotReport Address) (w : σ) (account : Address) :
    Inspected config deps report w account (inspect config deps report w account).1
      (inspect config deps report w account).2 := by
  unfold inspect
  rcases hread : deps.read account w with ⟨message | risk, v⟩
  · exact .unread message v hread
  · obtain ⟨plan, hplan⟩ := exists_plan config account risk
    simp only [hplan]
    by_cases hl : plan.liquidatable = false
    · rw [if_pos hl]
      exact .left risk v hread
    · rw [if_neg hl]
      have hallowed := allowed_of_plan hplan (by simpa using hl)
      unfold carryOut
      cases hmode : config.mode with
      | dryRun => exact .shown risk plan v hmode hread hallowed
      | execute =>
        rcases hsent : deps.execute plan v with ⟨message | result, u⟩
        · exact .failed risk plan v u message hmode hread hallowed hsent
        · exact .sent risk plan v u result hmode hread hallowed hsent

/-- The report agrees with the accounts that were visited. Each has at most one
entry in it, a review or an error. -/
structure Tally (config : BotConfig Address) (visited : List Address)
    (report : BotReport Address) : Prop where
  accounts : visited.length + report.liquidatable =
    report.inspected + report.reviews.length + report.errors.length
  inspected_le : report.inspected ≤ visited.length
  liquidatable_le : report.liquidatable ≤ report.inspected
  reviews_le : report.reviews.length ≤ report.liquidatable
  executed : report.executed = if config.mode = .execute then report.reviews.length else 0
  entries : ∃ named, named.Sublist visited ∧
    (report.reviews.map (fun plan => plan.account) ++ report.errors.map Prod.fst).Perm named
  allowed : ∀ plan ∈ report.reviews, Allowed config plan.account plan

theorem tally_fresh (config : BotConfig Address) (n : Nat) :
    Tally config [] { BotReport.fresh config with candidates := n } :=
  ⟨rfl, le_rfl, le_rfl, le_rfl, by simp [BotReport.fresh], ⟨[], .refl _, .refl _⟩, nofun⟩

theorem Allowed.rename {plan : LiquidationPlan Address} (h : Allowed config account plan)
    (reason : String) : Allowed config plan.account { plan with reason := reason } :=
  ⟨rfl, h.liquidatable, h.unhealthy, h.repay_pos, h.repay_le, h.minimum_le⟩

section Entries

variable {visited named : List Address} {reviews : List (LiquidationPlan Address)}
variable {errors : List (Address × String)}

theorem entries_fail (h : named.Sublist visited ∧
      (reviews.map (fun plan => plan.account) ++ errors.map Prod.fst).Perm named)
    (account : Address) (message : String) :
    (named ++ [account]).Sublist (visited ++ [account]) ∧
      (reviews.map (fun plan => plan.account) ++
        (errors ++ [(account, message)]).map Prod.fst).Perm (named ++ [account]) := by
  refine ⟨h.1.append (.refl _), ?_⟩
  rw [List.map_append, ← List.append_assoc]
  exact h.2.append_right _

theorem entries_review (h : named.Sublist visited ∧
      (reviews.map (fun plan => plan.account) ++ errors.map Prod.fst).Perm named)
    (plan : LiquidationPlan Address) :
    (named ++ [plan.account]).Sublist (visited ++ [plan.account]) ∧
      ((reviews ++ [plan]).map (fun plan => plan.account) ++ errors.map Prod.fst).Perm
        (named ++ [plan.account]) := by
  refine ⟨h.1.append (.refl _), ?_⟩
  rw [List.map_append, List.append_assoc]
  exact ((List.perm_append_comm).append_left _).trans
    ((List.append_assoc _ _ _).symm ▸ h.2.append_right _)

end Entries

theorem tally_inspected {visited : List Address} {after : BotReport Address} {v : σ}
    (h : Inspected config deps report w account after v) (ht : Tally config visited report) :
    Tally config (visited ++ [account]) after := by
  obtain ⟨hcount, hle, hliq, hrev, hexec, ⟨named, hnamed⟩, hall⟩ := ht
  have hlength : (visited ++ [account]).length = visited.length + 1 := by simp
  cases h with
  | unread message v hread =>
    refine ⟨?_, ?_, hliq, hrev, hexec, ⟨_, entries_fail hnamed account message⟩, hall⟩
    · simp only [BotReport.fail, List.length_append, List.length_singleton]
      omega
    · rw [hlength]
      exact Nat.le_succ_of_le hle
  | left risk v hread =>
    refine ⟨?_, ?_, Nat.le_succ_of_le hliq, hrev, hexec, ⟨named, ?_, hnamed.2⟩, hall⟩
    · simp only [List.length_append, List.length_singleton]
      omega
    · rw [hlength]
      exact Nat.succ_le_succ hle
    · exact hnamed.1.trans (List.sublist_append_left _ _)
  | shown risk plan v hmode hread hplan =>
    rw [if_neg (by simp [hmode])] at hexec
    refine ⟨?_, ?_, Nat.succ_le_succ hliq, ?_, ?_, ⟨named ++ [account], ?_⟩, ?_⟩
    · simp only [BotReport.review, List.length_append, List.length_singleton]
      omega
    · rw [hlength]
      exact Nat.succ_le_succ hle
    · simp only [BotReport.review, List.length_append, List.length_singleton]
      omega
    · rw [if_neg (by simp [hmode])]
      exact hexec
    · rw [← hplan.account_eq]
      exact entries_review hnamed plan
    · simp only [BotReport.review]
      rw [List.forall_mem_append]
      exact ⟨hall, List.forall_mem_singleton.mpr (hplan.rename plan.reason)⟩
  | sent risk plan v u result hmode hread hplan hsent =>
    rw [if_pos hmode] at hexec
    refine ⟨?_, ?_, Nat.succ_le_succ hliq, ?_, ?_, ⟨named ++ [account], ?_⟩, ?_⟩
    · simp only [BotReport.review, List.length_append, List.length_singleton]
      omega
    · rw [hlength]
      exact Nat.succ_le_succ hle
    · simp only [BotReport.review, List.length_append, List.length_singleton]
      omega
    · rw [if_pos hmode]
      simp only [BotReport.review, List.length_append, List.length_singleton]
      omega
    · rw [← hplan.account_eq]
      exact entries_review hnamed { plan with reason := "executed:" ++ result.hash }
    · simp only [BotReport.review]
      rw [List.forall_mem_append]
      exact ⟨hall, List.forall_mem_singleton.mpr (hplan.rename _)⟩
  | failed risk plan v u message hmode hread hplan hsent =>
    refine ⟨?_, ?_, Nat.succ_le_succ hliq, Nat.le_succ_of_le hrev, hexec,
      ⟨_, entries_fail hnamed account message⟩, hall⟩
    · simp only [BotReport.fail, List.length_append, List.length_singleton]
      omega
    · rw [hlength]
      exact Nat.succ_le_succ hle

theorem tally_inspectAll {visited : List Address} (accounts : List Address)
    (ht : Tally config visited report) :
    Tally config (visited ++ accounts) (inspectAll config deps accounts report w).1 := by
  induction accounts generalizing visited report w with
  | nil => rwa [List.append_nil]
  | cons account accounts ih =>
    rw [List.append_cons]
    exact ih (tally_inspected (inspect_inspected config deps report w account) ht)

theorem inspected_frame {after : BotReport Address} {v : σ}
    (h : Inspected config deps report w account after v) :
    after.candidates = report.candidates ∧ after.mode = report.mode := by
  cases h <;> exact ⟨rfl, rfl⟩

theorem inspectAll_frame (accounts : List Address) (report : BotReport Address) (w : σ) :
    (inspectAll config deps accounts report w).1.candidates = report.candidates ∧
      (inspectAll config deps accounts report w).1.mode = report.mode := by
  induction accounts generalizing report w with
  | nil => exact ⟨rfl, rfl⟩
  | cons account accounts ih =>
    rw [inspectAll]
    obtain ⟨hcandidates, hmode⟩ := ih (inspect config deps report w account).1
      (inspect config deps report w account).2
    rw [hcandidates, hmode]
    exact inspected_frame (inspect_inspected config deps report w account)

/-- A pass that ends in a report has found its candidates, and the report
accounts for every one of them. -/
theorem runOnce_tally {v : σ} (h : runOnce config deps w = (.ok report, v)) :
    ∃ found u, deps.discover config w = (.ok found, u) ∧ report.mode = config.mode ∧
      report.candidates = (found.take config.maxCandidates).length ∧
      Tally config (found.take config.maxCandidates) report := by
  unfold runOnce at h
  rcases hfound : deps.discover config w with ⟨message | found, u⟩
  · simp [hfound] at h
  refine ⟨found, u, rfl, ?_⟩
  simp only [hfound] at h
  generalize hc : found.take config.maxCandidates = candidates at h ⊢
  split at h
  next hempty =>
    cases h
    rw [List.isEmpty_iff.mp hempty]
    exact ⟨rfl, rfl, tally_fresh config 0⟩
  next =>
    split at h
    next => cases h
    next key hkey =>
      rcases hconnect : deps.connect key u with ⟨message | _, u'⟩
      · simp [hconnect] at h
      · simp only [hconnect, Prod.mk.injEq, Except.ok.injEq] at h
        obtain ⟨rfl, -⟩ := h
        obtain ⟨hcandidates, hmode⟩ := inspectAll_frame candidates
          { BotReport.fresh config with candidates := candidates.length } u'
        exact ⟨hmode, hcandidates, tally_inspectAll candidates (tally_fresh config _)⟩

def sampleConfig : BotConfig Nat where
  poolId := "pool"
  mode := .dryRun
  liquidatorSecret := none
  liquidatorPublicKey := some 3
  accounts := [2, 4, 5]
  dataPlatformUrl := none
  maxRepayRaw := 1000
  minHealthBps := 10000
  bonusBps := 500
  slippageBps := 100
  maxCandidates := 2

def sampleDeps : BotDependencies Nat Unit where
  discover config w := (.ok config.accounts, w)
  fromSecret _ := .error "invalid"
  connect _ w := (.ok (), w)
  read account w :=
    if account = 2 then (.ok ⟨2, 0, 90, 100, 9444⟩, w) else (.error "no account", w)
  execute _ w := (.error "dry run", w)

theorem runOnce_tally_sample :
    Tally sampleConfig [2, 4] ⟨.dryRun, "pool", 2, 1, 1, 0,
      [⟨2, true, "undercollateralised", 9444, 90, 94, 93⟩], [(4, "no account")]⟩ := by
  have hrun : runOnce sampleConfig sampleDeps () = (.ok ⟨.dryRun, "pool", 2, 1, 1, 0,
      [⟨2, true, "undercollateralised", 9444, 90, 94, 93⟩], [(4, "no account")]⟩, ()) := rfl
  obtain ⟨found, u, hfound, -, -, htally⟩ := runOnce_tally hrun
  cases hfound
  exact htally

end Suban.LiquidationBot.Report

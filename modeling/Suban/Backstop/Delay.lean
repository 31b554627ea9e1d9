import Suban.Backstop.Accounting
import Suban.Basis.Queues
import Suban.Soroban.Ledgers

namespace Suban.Backstop.Delay

open Suban.Basis.Calls Suban.Basis.Tables Suban.Basis.Runs Suban.Basis.Queues Suban.Soroban.Host
open Suban.Soroban.Ledgers Suban.Backstop.Contract Suban.Backstop.Transitions
open Suban.Backstop.Accounting

variable {Address W : Type} [DecidableEq Address] {contract : Address}
variable {T : Sep41 Address W} {env : Env Address contract} {s t : Storage Address W}
variable {user : Address} {d : Nat}

/-- The ledger of the last call, and the shares of one depositor with the
ledgers of the deposits that created them. -/
structure Book where
  ledger : Nat
  lots : List Lot

def lotsAfter (user : Address) (lots : List Lot) (ledger : Nat) (s t : Storage Address W) :
    Call Address → List Lot
  | .deposit src _ =>
    if src = user ∧ s.sharesOf user < t.sharesOf user then
      lots ++ [⟨ledger, t.sharesOf user - s.sharesOf user⟩]
    else lots
  | .withdraw src shares | .claim src shares => if src = user then left shares lots else lots
  | _ => lots

def keepBook (user : Address) (b : Book) :
    Storage Address W × Input Address W contract (Call Address) × Storage Address W → Book
  | (s, .call env c, t) => ⟨env.sequence, lotsAfter user b.lots env.sequence s t c⟩
  | (_, .world _, _) => b

def mature (d ledger : Nat) (lots : List Lot) : Int :=
  units (lots.filter (fun lot => lot.since + d ≤ ledger))

/-- What the depositor is paid for are shares that are at least `d` ledgers old. -/
def Delayed (d : Nat) (user : Address) (x : Storage Address W × Book) :
    Input Address W contract (Call Address) → Prop
  | .call env (.withdraw src shares) => src = user → 0 < redemption x.1 shares →
      ∀ lot ∈ taken shares x.2.lots, lot.since + d ≤ env.sequence
  | .call env (.claim src shares) => src = user →
      ∀ lot ∈ taken shares x.2.lots, lot.since + d ≤ env.sequence
  | _ => True

/-- A withdrawal that pays takes no more than the old shares, and so does a
claim whose request was made before the last deposit. -/
def TakesMature (d : Nat) (user : Address) (x : Storage Address W × Book) :
    Input Address W contract (Call Address) → Prop
  | .call env (.withdraw src shares) => src = user → 0 < redemption x.1 shares →
      shares ≤ mature d env.sequence x.2.lots
  | .call env (.claim src shares) => src = user → ∀ request,
      x.1.claimRequests.lookup user = some request →
      (∃ lot ∈ x.2.lots, request.requestedAt < lot.since) →
      shares ≤ mature d env.sequence x.2.lots
  | _ => True

/-- The module is not initialised again with another delay. -/
def SameDelay (d : Nat) (_ : Storage Address W × Book) :
    Input Address W contract (Call Address) → Prop
  | .call _ (.initialise _ _ _ _ claimDelay _ _) => claimDelay = d
  | _ => True

/-- The lots are a queue that holds the depositor's shares. -/
structure Booked (d : Nat) (user : Address) (x : Storage Address W × Book) : Prop where
  queue : Queue x.2.lots
  past : ∀ lot ∈ x.2.lots, lot.since ≤ x.2.ledger
  shares : x.1.sharesOf user ≤ units x.2.lots
  delay : x.1.claimDelay = d

theorem sharesOf_insert {src : Address} {shares : Int}
    (h : t.depositorShares = s.depositorShares.insert src shares) (a : Address) :
    t.sharesOf a = if a = src then shares else s.sharesOf a := by
  rw [Storage.sharesOf, h, readOr_insert]
  rfl

theorem booked_exit {b : Book} {src : Address} {shares : Int} (hs : Booked d user (s, b))
    (hle : b.ledger ≤ env.sequence) (hpos : 0 < shares) (hshares : shares ≤ s.sharesOf src)
    (htable : t.depositorShares = s.depositorShares.insert src (s.sharesOf src - shares))
    (hdelay : t.claimDelay = s.claimDelay) :
    Booked d user (t, ⟨env.sequence, if src = user then left shares b.lots else b.lots⟩) := by
  have hpast : ∀ lot ∈ b.lots, lot.since ≤ env.sequence :=
    fun lot hl => (hs.past lot hl).trans hle
  have hdelay : t.claimDelay = d := hdelay.trans hs.delay
  have hs' := hs.shares
  split
  next hu =>
    subst hu
    refine ⟨hs.queue.left, forall_left (P := fun n => n ≤ env.sequence) hpast, ?_, hdelay⟩
    simp only [sharesOf_insert htable, if_true]
    rw [units_left hpos.le hs.queue (hshares.trans hs')]
    exact sub_le_sub_right hs' _
  next hu =>
    refine ⟨hs.queue, hpast, ?_, hdelay⟩
    simp only [sharesOf_insert htable, if_neg (Ne.symm hu)]
    exact hs'

theorem booked_deposit {b : Book} {src : Address} {shares : Int}
    (hs : Booked d user (s, b)) (hle : b.ledger ≤ env.sequence)
    (htable : t.depositorShares = s.depositorShares.insert src (s.sharesOf src + shares))
    (hdelay : t.claimDelay = s.claimDelay) :
    Booked d user (t, ⟨env.sequence,
      if src = user ∧ s.sharesOf user < t.sharesOf user then
        b.lots ++ [⟨env.sequence, t.sharesOf user - s.sharesOf user⟩]
      else b.lots⟩) := by
  have hpast : ∀ lot ∈ b.lots, lot.since ≤ env.sequence :=
    fun lot hl => (hs.past lot hl).trans hle
  have hdelay : t.claimDelay = d := hdelay.trans hs.delay
  have hs' : s.sharesOf user ≤ units b.lots := hs.shares
  split
  next hnew =>
    have hpos : 0 < t.sharesOf user - s.sharesOf user := sub_pos.mpr hnew.2
    refine ⟨hs.queue.push hpos hpast, fun lot hl => ?_, ?_, hdelay⟩
    · obtain hl | hl := List.mem_append.mp hl
      · exact hpast lot hl
      · cases List.mem_singleton.mp hl
        exact le_rfl
    · have hone : units [⟨env.sequence, t.sharesOf user - s.sharesOf user⟩] =
          t.sharesOf user - s.sharesOf user := add_zero _
      change t.sharesOf user ≤ units (b.lots ++ [_])
      rw [units_append, hone]
      omega
  next hold =>
    refine ⟨hs.queue, hpast, ?_, hdelay⟩
    change t.sharesOf user ≤ units b.lots
    by_cases hu : src = user
    · have hnone : ¬ s.sharesOf user < t.sharesOf user := fun h => hold ⟨hu, h⟩
      omega
    · rw [sharesOf_insert htable, if_neg (Ne.symm hu)]
      exact hs'

theorem booked_transition {b : Book} {c : Call Address} (h : Transition T env s c t)
    (hle : b.ledger ≤ env.sequence) (hd : SameDelay d (s, b) (.call env c))
    (hs : Booked d user (s, b)) : Booked d user (t, keepBook user b (s, .call env c, t)) := by
  have hpast : ∀ lot ∈ b.lots, lot.since ≤ env.sequence :=
    fun lot hl => (hs.past lot hl).trans hle
  cases h with
  | initialise => exact ⟨hs.queue, hpast, hs.shares, hd⟩
  | deposit src amount shares w => exact booked_deposit hs hle rfl rfl
  | withdraw src shares w hpos huser hshares =>
    exact booked_exit hs hle hpos hshares rfl rfl
  | claim src shares payout request w hpos huser hrequest hdue hshares =>
    exact booked_exit hs hle hpos hshares rfl rfl
  | _ => exact ⟨hs.queue, hpast, hs.shares, hs.delay⟩

theorem booked_step {x y : Storage Address W × Book}
    {i : Input Address W contract (Call Address)}
    (h : noted (step T) (keepBook user) x i = .ok y) (hi : OnTime x.2.ledger i)
    (hd : SameDelay d x i) (hx : Booked d user x) : Booked d user y := by
  obtain ⟨t, hstep, rfl⟩ := noted_eq_ok.mp h
  cases i with
  | call env c => exact booked_transition (invoke_transition hstep) hi hd hx
  | world w =>
    cases pure_eq_ok.mp hstep
    exact ⟨hx.queue, hx.past, hx.shares, hx.delay⟩

/-- With the oldest shares going first, the old ones have to suffice. -/
theorem forall_taken_mature {b : Book} {shares : Int} (hs : Booked d user (s, b))
    (hshares : shares ≤ s.sharesOf user) (ledger : Nat) :
    (∀ lot ∈ taken shares b.lots, lot.since + d ≤ ledger) ↔ shares ≤ mature d ledger b.lots :=
  forall_taken_iff (P := fun since => since + d ≤ ledger)
    (fun _ _ hab hb => (Nat.add_le_add_right hab d).trans hb) hs.queue (hshares.trans hs.shares)

theorem delayed_transition {b : Book} {c : Call Address} (h : Transition T env s c t)
    (hs : Booked d user (s, b)) :
    Delayed d user (s, b) (.call env c) ↔ TakesMature d user (s, b) (.call env c) := by
  cases h with
  | withdraw src shares w hpos huser hshares =>
    refine forall_congr' fun hu => forall_congr' fun _ => ?_
    subst hu
    exact forall_taken_mature hs hshares env.sequence
  | claim src shares payout request w hpos huser hrequest hdue hshares =>
    refine forall_congr' fun hu => ?_
    subst hu
    rw [forall_taken_mature hs hshares env.sequence]
    refine ⟨fun h _ _ _ => h, fun h => ?_⟩
    by_cases hlater : ∃ lot ∈ b.lots, request.requestedAt < lot.since
    · exact h request hrequest hlater
    · -- the request is not older than any of the shares, and it is due
      refine (forall_taken_mature hs hshares env.sequence).mp fun lot hl => ?_
      have hbefore : lot.since ≤ request.requestedAt :=
        not_lt.mp fun hlt => hlater ⟨lot, mem_of_mem_taken hl, hlt⟩
      rw [hs.delay] at hdue
      exact (Nat.add_le_add_right hbefore d).trans hdue
  | _ => exact Iff.rfl

/-- A depositor is only paid for shares of the delay's age exactly when the
withdrawals that pay, and the claims requested before the last deposit, take no
more than the depositor's shares of that age. -/
theorem delayed_iff_takesMature {admin pool asset : Address} {target : Int}
    {maxDeposit minDeposit : Int} {w : W}
    (h : initialise (.fresh w) admin pool asset target d maxDeposit minDeposit = .ok s)
    (user : Address) {is : List (Input Address W contract (Call Address))}
    (horder : InOrder 0 is)
    (hdelay : Along (noted (step T) (keepBook user)) (SameDelay d) (s, ⟨0, []⟩) is) :
    Along (noted (step T) (keepBook user)) (Delayed d user) (s, ⟨0, []⟩) is ↔
      Along (noted (step T) (keepBook user)) (TakesMature d user) (s, ⟨0, []⟩) is := by
  have hbooked : Booked d user (s, ⟨0, []⟩) := by
    simp only [initialise, bind_eq_ok, rejectIf_eq_ok, pure_eq_ok] at h
    obtain ⟨_, -, rfl⟩ := h
    exact ⟨.nil, fun _ hl => absurd hl List.not_mem_nil, le_rfl, rfl⟩
  have hclock : ∀ (b : Book) (x : Storage Address W × Input Address W contract (Call Address) ×
      Storage Address W), (keepBook user b x).ledger = clock b.ledger x := by
    rintro b ⟨s, _ | _, t⟩ <;> rfl
  refine along_congr (J := Booked d user) (fun x i y hx hi hy => booked_step hy hi.1 hi.2 hx)
    (fun x i y hx hi hy => ?_) hbooked (along_and.mpr ⟨along_onTime hclock horder, hdelay⟩)
  obtain ⟨t, hstep, rfl⟩ := noted_eq_ok.mp hy
  cases i with
  | call env c => exact delayed_transition (invoke_transition hstep) hx
  | world w => exact Iff.rfl

theorem delayed_iff_takesMature_sample :
    Along (noted (step (bookToken Nat)) (keepBook 3)) (Delayed 100 3) (sample, ⟨0, []⟩)
      sampleClaim := by
  refine (delayed_iff_takesMature initialise_sample 3 ?_ ?_).mpr ?_
  · exact ⟨Nat.zero_le _, by decide, by decide, trivial⟩
  · exact ⟨fun _ _ => trivial, fun _ _ => trivial, fun _ _ => trivial, trivial⟩
  · refine ⟨fun _ _ => trivial, fun _ _ => trivial, fun _ _ _ _ _ _ => ?_, trivial⟩
    decide +kernel

/-- A depositor withdraws one ledger after depositing, or claims as soon on a
request made long before. -/
theorem paid_before_delay :
    ∃ s : Storage Nat (Nat → Nat → Nat),
      initialise (.fresh sample.world) 1 2 9 1000000 100 100000 100 = .ok s ∧
      ¬ Along (noted (step (bookToken Nat)) (keepBook 3)) (Delayed 100 3) (s, ⟨0, []⟩)
        [sampleDeposit, .call (Env.signed 0 2) (.withdraw 3 1000)] ∧
      ¬ Along (noted (step (bookToken Nat)) (keepBook 3)) (Delayed 100 3) (s, ⟨0, []⟩)
        [.call (Env.signed 0 1) (.requestClaim 3 1000),
          .call (Env.signed 0 101) (.deposit 3 1000),
          .call (Env.signed 0 102) (.claim 3 1000)] := by
  refine ⟨sample, rfl, fun h => ?_, fun h => ?_⟩
  · exact absurd (h.2.1 _ rfl rfl (by decide +kernel) ⟨1, 1000⟩ (by decide +kernel)) (by decide)
  · exact absurd (h.2.2.1 _ rfl rfl ⟨101, 1000⟩ (by decide +kernel)) (by decide)

end Suban.Backstop.Delay

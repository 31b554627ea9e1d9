import Suban.Basis.Runs
import Suban.LpToken.Contract

namespace Suban.LpToken.Conservation

open Suban.Basis.Calls Suban.Basis.Tables Suban.Basis.Runs Suban.Soroban.Host
open Suban.LpToken.Contract

variable {Address : Type} [DecidableEq Address] {contract : Address}

/-- The balances add up to the recorded supply and none of them is negative. -/
structure Conserved (s : Storage Address) : Prop where
  total : sum s.balance = s.totalSupply
  nonneg : ∀ a, 0 ≤ s.readBalance a

/-- What an owner has last approved for a spender, and what the spender has
moved since. -/
structure Grant where
  approved : Int
  moved : Int

def noteCall (owner spender : Address) (g : Grant) : Call Address → Grant
  | .approve o p n => if o = owner ∧ p = spender then ⟨n, 0⟩ else g
  | .transferFrom p o _ n => if o = owner ∧ p = spender then ⟨g.approved, g.moved + n⟩ else g
  | _ => g

theorem noteCall_approve (owner spender : Address) (g : Grant) (o p : Address) (n : Int) :
    noteCall owner spender g (.approve o p n) = if o = owner ∧ p = spender then ⟨n, 0⟩ else g :=
  rfl

theorem noteCall_transferFrom (owner spender : Address) (g : Grant) (p o dst : Address) (n : Int) :
    noteCall owner spender g (.transferFrom p o dst n) =
      if o = owner ∧ p = spender then ⟨g.approved, g.moved + n⟩ else g := rfl

def grantOf (s : Storage Address) (calls : List (Env Address contract × Call Address))
    (owner spender : Address) : Grant :=
  ((accepted step s calls).map Prod.snd).foldl (noteCall owner spender) ⟨0, 0⟩

/-- What an accepted call does to the books. -/
inductive Effect (s : Storage Address) : Call Address → Storage Address → Prop where
  | transfer {t : Storage Address} (src dst : Address) (n : Int)
      (hpos : 0 < n) (hle : n ≤ s.readBalance src)
      (hb : t.balance = (s.balance.insert src (s.readBalance src - n)).insert dst
        (readOr (s.balance.insert src (s.readBalance src - n)) dst 0 + n))
      (ha : t.allowance = s.allowance) (hs : t.totalSupply = s.totalSupply) :
      Effect s (.transfer src dst n) t
  | transferFrom {t : Storage Address} (spender src dst : Address) (n : Int) (hpos : 0 < n)
      (hle : n ≤ s.readBalance src) (hallowed : n ≤ s.readAllowance src spender)
      (hb : t.balance = (s.balance.insert src (s.readBalance src - n)).insert dst
        (readOr (s.balance.insert src (s.readBalance src - n)) dst 0 + n))
      (ha : t.allowance = s.allowance.insert (src, spender) (s.readAllowance src spender - n))
      (hs : t.totalSupply = s.totalSupply) : Effect s (.transferFrom spender src dst n) t
  | approve {t : Storage Address} (owner spender : Address) (n : Int) (hb : t.balance = s.balance)
      (ha : t.allowance = s.allowance.insert (owner, spender) n)
      (hs : t.totalSupply = s.totalSupply) : Effect s (.approve owner spender n) t
  | mint {t : Storage Address} (admin dst : Address) (n : Int) (hpos : 0 < n)
      (hb : t.balance = s.balance.insert dst (s.readBalance dst + n))
      (ha : t.allowance = s.allowance) (hs : t.totalSupply = s.totalSupply + n) :
      Effect s (.mint admin dst n) t
  | burn {t : Storage Address} (admin src : Address) (n : Int)
      (hpos : 0 < n) (hle : n ≤ s.readBalance src)
      (hb : t.balance = s.balance.insert src (s.readBalance src - n))
      (ha : t.allowance = s.allowance) (hs : t.totalSupply = s.totalSupply - n) :
      Effect s (.burn admin src n) t
  | setPaused {t : Storage Address} (admin : Address) (paused : Bool) (hb : t.balance = s.balance)
      (ha : t.allowance = s.allowance) (hs : t.totalSupply = s.totalSupply) :
      Effect s (.setPaused admin paused) t

variable {s t : Storage Address}

theorem moveBalance_ok {src dst : Address} {n : Int} (h : moveBalance s src dst n = .ok t) :
    t.balance = (s.balance.insert src (s.readBalance src - n)).insert dst
        (readOr (s.balance.insert src (s.readBalance src - n)) dst 0 + n) ∧
      t.allowance = s.allowance ∧ t.totalSupply = s.totalSupply := by
  simp only [moveBalance, bind_eq_ok, checked_eq_ok, pure_eq_ok] at h
  obtain ⟨_, ⟨-, rfl⟩, _, ⟨-, rfl⟩, rfl⟩ := h
  exact ⟨rfl, rfl, rfl⟩

theorem step_effect {i : Env Address contract × Call Address} (h : step s i = .ok t) :
    Effect s i.2 t := by
  obtain ⟨env, c⟩ := i
  cases c with
  | transfer src dst n =>
    simp only [step, transfer, bind_eq_ok, rejectIf_eq_ok] at h
    obtain ⟨_, -, _, hpos, _, -, _, hle, h⟩ := h
    obtain ⟨hb, ha, hs⟩ := moveBalance_ok h
    exact .transfer src dst n (not_le.mp hpos) (not_lt.mp hle) hb ha hs
  | transferFrom spender src dst n =>
    simp only [step, transferFrom, bind_eq_ok, rejectIf_eq_ok, checked_eq_ok] at h
    obtain ⟨_, -, _, hpos, _, -, _, hallowed, _, hle, _, ⟨-, rfl⟩, h⟩ := h
    obtain ⟨hb, ha, hs⟩ := moveBalance_ok h
    exact .transferFrom spender src dst n (not_le.mp hpos) (not_lt.mp hle) (not_lt.mp hallowed)
      hb ha hs
  | approve owner spender n =>
    simp only [step, approve, bind_eq_ok, pure_eq_ok] at h
    obtain ⟨_, -, _, -, rfl⟩ := h
    exact .approve owner spender n rfl rfl rfl
  | mint admin dst n =>
    simp only [step, mint, bind_eq_ok, rejectIf_eq_ok, checked_eq_ok, pure_eq_ok] at h
    obtain ⟨_, -, _, -, _, -, _, hpos, _, ⟨-, rfl⟩, _, ⟨-, rfl⟩, rfl⟩ := h
    exact .mint admin dst n (not_le.mp hpos) rfl rfl rfl
  | burn admin src n =>
    simp only [step, burn, bind_eq_ok, rejectIf_eq_ok, checked_eq_ok, pure_eq_ok] at h
    obtain ⟨_, -, _, -, _, -, _, hpos, _, hle, _, ⟨-, rfl⟩, _, ⟨-, rfl⟩, rfl⟩ := h
    exact .burn admin src n (not_le.mp hpos) (not_lt.mp hle) rfl rfl rfl
  | setPaused admin paused =>
    simp only [step, setPaused, bind_eq_ok, pure_eq_ok] at h
    obtain ⟨_, -, _, -, _, -, rfl⟩ := h
    exact .setPaused admin paused rfl rfl rfl

/-- The recipient's balance is read from the books that lack the amount, so it
comes back even where the recipient is the sender. -/
theorem sum_move (b : Table Address Int) (src dst : Address) (n : Int) :
    sum ((b.insert src (readOr b src 0 - n)).insert dst
      (readOr (b.insert src (readOr b src 0 - n)) dst 0 + n)) = sum b := by
  rw [sum_insert, sum_insert]
  ring

theorem nonneg_move {b : Table Address Int} (hb : ∀ a, 0 ≤ readOr b a 0) {src dst : Address}
    {n : Int} (hpos : 0 < n) (hle : n ≤ readOr b src 0) (a : Address) :
    0 ≤ readOr ((b.insert src (readOr b src 0 - n)).insert dst
      (readOr (b.insert src (readOr b src 0 - n)) dst 0 + n)) a 0 := by
  have hsrc : ∀ a, 0 ≤ readOr (b.insert src (readOr b src 0 - n)) a 0 :=
    forall_readOr_insert hb src (sub_nonneg.mpr hle)
  exact forall_readOr_insert hsrc dst (add_nonneg (hsrc dst) hpos.le) a

theorem conserved_effect {c : Call Address} (h : Effect s c t) (hs : Conserved s) :
    Conserved t := by
  obtain ⟨htotal, hnonneg⟩ := hs
  unfold Storage.readBalance at hnonneg
  cases h with
  | transfer src dst n hpos hle hb ha hsup =>
    refine ⟨?_, fun a => ?_⟩
    · rw [hb, hsup, ← htotal]
      exact sum_move s.balance src dst n
    · rw [Storage.readBalance, hb]
      exact nonneg_move hnonneg hpos hle a
  | transferFrom spender src dst n hpos hle hallowed hb ha hsup =>
    refine ⟨?_, fun a => ?_⟩
    · rw [hb, hsup, ← htotal]
      exact sum_move s.balance src dst n
    · rw [Storage.readBalance, hb]
      exact nonneg_move hnonneg hpos hle a
  | approve owner spender n hb ha hsup => exact ⟨by rw [hb, hsup, htotal], fun a => by
      rw [Storage.readBalance, hb]; exact hnonneg a⟩
  | mint admin dst n hpos hb ha hsup =>
    refine ⟨?_, fun a => ?_⟩
    · rw [hb, hsup, sum_insert, htotal, Storage.readBalance]
      ring
    · rw [Storage.readBalance, hb]
      exact forall_readOr_insert hnonneg dst (add_nonneg (hnonneg dst) hpos.le) a
  | burn admin src n hpos hle hb ha hsup =>
    refine ⟨?_, fun a => ?_⟩
    · rw [hb, hsup, sum_insert, htotal, Storage.readBalance]
      ring
    · rw [Storage.readBalance, hb]
      exact forall_readOr_insert hnonneg src (sub_nonneg.mpr hle) a
  | setPaused admin paused hb ha hsup => exact ⟨by rw [hb, hsup, htotal], fun a => by
      rw [Storage.readBalance, hb]; exact hnonneg a⟩

/-- The allowance is what is left of the grant, and no more has been moved than
was approved. -/
structure Matches (owner spender : Address) (s : Storage Address) (g : Grant) : Prop where
  allowance : s.readAllowance owner spender = g.approved - g.moved
  bounded : g.moved ≤ max g.approved 0

theorem Matches.keep {owner spender : Address} {g : Grant} (hs : Matches owner spender s g)
    (ha : t.allowance = s.allowance) : Matches owner spender t g where
  allowance := by
    rw [Storage.readAllowance, ha]
    exact hs.allowance
  bounded := hs.bounded

theorem matches_effect {owner spender : Address} {g : Grant} {c : Call Address}
    (h : Effect s c t) (hs : Matches owner spender s g) :
    Matches owner spender t (noteCall owner spender g c) := by
  cases h with
  | transferFrom p o dst n hpos hle hallowed hb ha hsup =>
    have hread (owner spender : Address) : t.readAllowance owner spender =
        if (owner, spender) = (o, p) then s.readAllowance o p - n
        else s.readAllowance owner spender := by
      rw [Storage.readAllowance, ha, readOr_insert]
      rfl
    rw [noteCall_transferFrom]
    split
    next heq =>
      obtain ⟨rfl, rfl⟩ := heq
      have hleft := hs.allowance
      refine ⟨?_, le_max_of_le_left ?_⟩
      · rw [hread, if_pos rfl, hleft]
        exact sub_sub _ _ _
      · rw [hleft] at hallowed
        exact le_sub_iff_add_le'.mp hallowed
    next hne =>
      refine ⟨?_, hs.bounded⟩
      rw [hread, if_neg fun h => hne ⟨(congrArg Prod.fst h).symm, (congrArg Prod.snd h).symm⟩]
      exact hs.allowance
  | approve o p n hb ha hsup =>
    have hread (owner spender : Address) : t.readAllowance owner spender =
        if (owner, spender) = (o, p) then n else s.readAllowance owner spender := by
      rw [Storage.readAllowance, ha, readOr_insert]
      rfl
    rw [noteCall_approve]
    split
    next heq =>
      obtain ⟨rfl, rfl⟩ := heq
      refine ⟨?_, le_max_right _ _⟩
      rw [hread, if_pos rfl]
      exact (sub_zero n).symm
    next hne =>
      refine ⟨?_, hs.bounded⟩
      rw [hread, if_neg fun h => hne ⟨(congrArg Prod.fst h).symm, (congrArg Prod.snd h).symm⟩]
      exact hs.allowance
  | transfer src dst n hpos hle hb ha hsup => exact hs.keep ha
  | mint admin dst n hpos hb ha hsup => exact hs.keep ha
  | burn admin src n hpos hle hb ha hsup => exact hs.keep ha
  | setPaused admin paused hb ha hsup => exact hs.keep ha

theorem initialise_ok {env : Env Address contract} {admin : Address}
    (h : initialise env Storage.fresh admin = .ok s) :
    s.balance = ∅ ∧ s.allowance = ∅ ∧ s.totalSupply = 0 := by
  simp only [initialise, bind_eq_ok, pure_eq_ok] at h
  obtain ⟨_, -, _, -, rfl⟩ := h
  exact ⟨rfl, rfl, rfl⟩

/-- After any calls the balances add up to the supply and are not negative, and
nobody has moved more of an owner's tokens, since the owner's last approval,
than was approved: nothing at all after a negative approval. -/
theorem conserved_and_moved_le {env : Env Address contract} {admin : Address}
    (h : initialise env Storage.fresh admin = .ok s)
    (calls : List (Env Address contract × Call Address)) :
    Conserved (run step s calls) ∧ ∀ owner spender,
      (grantOf s calls owner spender).moved ≤
        max (grantOf s calls owner spender).approved 0 := by
  obtain ⟨hb, ha, hsup⟩ := initialise_ok h
  have hopen : Conserved s := by
    refine ⟨by rw [hb, hsup]; rfl, fun a => ?_⟩
    rw [Storage.readBalance, hb]
    exact le_rfl
  refine ⟨?_, fun owner spender => ?_⟩
  · exact throughout_run (throughout_of_along (C := fun _ _ => True)
      (fun s i t hs _ hi => conserved_effect (step_effect hi) hs) hopen (along_true s calls))
  · have hstart : Matches owner spender s ⟨0, 0⟩ := by
      refine ⟨?_, le_max_right _ _⟩
      rw [Storage.readAllowance, ha]
      rfl
    have hstep : ∀ s (i : Env Address contract × Call Address) t g, step s i = .ok t →
        Matches owner spender s g → Matches owner spender t (noteCall owner spender g i.2) :=
      fun s i t g hi hs => matches_effect (step_effect hi) hs
    have hend := account_run hstep hstart calls
    rw [grantOf, List.foldl_map]
    exact hend.bounded

def openLpToken : Storage Nat := { Storage.fresh with admin := some 2 }

theorem initialise_openLpToken :
    initialise (Env.signed 9 0) Storage.fresh 2 = .ok openLpToken := rfl

def grantCalls : List (Env Nat 9 × Call Nat) :=
  [(.signed 9 0, .mint 2 1 10), (.signed 9 0, .approve 1 3 6), (.signed 9 1, .transferFrom 3 1 3 4)]

theorem conserved_and_moved_le_sample :
    Conserved (run step openLpToken grantCalls) ∧ ∀ owner spender,
      (grantOf openLpToken grantCalls owner spender).moved ≤
        max (grantOf openLpToken grantCalls owner spender).approved 0 :=
  conserved_and_moved_le initialise_openLpToken grantCalls

/-- An approval may be negative. Then even nothing is more than was approved. -/
theorem not_moved_le_of_negative_approve :
    ¬ ∀ (s : Storage Nat) (calls : List (Env Nat 9 × Call Nat)),
      initialise (Env.signed 9 0) Storage.fresh 2 = .ok s →
      Conserved (run step s calls) ∧ ∀ owner spender,
        (grantOf s calls owner spender).moved ≤ (grantOf s calls owner spender).approved := by
  intro h
  have hmoved := (h openLpToken [(.signed 9 0, .approve 1 3 (-5))] rfl).2 1 3
  exact absurd hmoved (by decide)

end Suban.LpToken.Conservation

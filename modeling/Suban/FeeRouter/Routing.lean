import Suban.Basis.Division
import Suban.Basis.Runs
import Suban.FeeRouter.Contract

namespace Suban.FeeRouter.Routing

open Suban.Basis.Calls Suban.Basis.Tables Suban.Basis.Runs Suban.Basis.Division Suban.Soroban.Host
open Suban.Hub.Types Suban.FeeRouter.Contract

structure Amounts where
  lp : Int
  protocol : Int
  backstop : Int
  platform : Int

def amounts (config : FeeConfig) (totalFee : Int) : Amounts where
  lp := part 10000 totalFee config.lpShare
  protocol := part 10000 totalFee config.protocolShare
  backstop := part 10000 totalFee config.backstopShare
  platform := rest 10000 totalFee [config.lpShare, config.protocolShare, config.backstopShare]

def Whole (config : FeeConfig) : Prop :=
  config.lpShare + config.protocolShare + config.backstopShare + config.platformShare = 10000

variable {Address W : Type} {contract : Address} {config : FeeConfig} {totalFee : Int}

namespace Amounts

variable (a : Amounts) (dsts : Destinations Address)

def toList : List (Address × Int) :=
  [(dsts.lp, a.lp), (dsts.protocol, a.protocol), (dsts.backstop, a.backstop),
    (dsts.platform, a.platform)]

def payments : List (Address × Int) := (a.toList dsts).filter (0 < ·.2)

end Amounts

/-- Three parts are rounded down. The fourth has what is left, at most three
units more than its own part. -/
structure Exact (config : FeeConfig) (totalFee : Int) (a : Amounts) : Prop where
  lp_eq : a.lp = totalFee * config.lpShare / 10000
  protocol_eq : a.protocol = totalFee * config.protocolShare / 10000
  backstop_eq : a.backstop = totalFee * config.backstopShare / 10000
  platform_ge : totalFee * config.platformShare / 10000 ≤ a.platform
  platform_le : a.platform ≤ totalFee * config.platformShare / 10000 + 3
  nonneg : 0 ≤ a.lp ∧ 0 ≤ a.protocol ∧ 0 ≤ a.backstop ∧ 0 ≤ a.platform
  sum_eq : a.lp + a.protocol + a.backstop + a.platform = totalFee

theorem amounts_sum (config : FeeConfig) (totalFee : Int) :
    (amounts config totalFee).lp + (amounts config totalFee).protocol +
      (amounts config totalFee).backstop + (amounts config totalFee).platform = totalFee := by
  simp only [amounts, rest, List.map_cons, List.map_nil, List.sum_cons, List.sum_nil]
  ring

theorem platform_bounds (h : Whole config) (hfee : 0 ≤ totalFee) :
    totalFee * config.platformShare / 10000 ≤ (amounts config totalFee).platform ∧
      (amounts config totalFee).platform ≤ totalFee * config.platformShare / 10000 + 3 := by
  rw [← part_eq hfee (Int.natCast_nonneg _)]
  refine rest_bounds (by decide) hfee ?_ (Int.natCast_nonneg _) ?_
  · simp
  · simp only [List.sum_cons, List.sum_nil]
    unfold Whole at h
    omega

theorem exact_amounts (h : Whole config) (hfee : 0 ≤ totalFee) :
    Exact config totalFee (amounts config totalFee) := by
  have hpart (share : Nat) : part 10000 totalFee share = totalFee * share / 10000 :=
    part_eq hfee (Int.natCast_nonneg _)
  have hnonneg (share : Nat) : 0 ≤ part 10000 totalFee share :=
    part_nonneg (by decide) hfee (Int.natCast_nonneg _)
  obtain ⟨hlow, hhigh⟩ := platform_bounds h hfee
  refine ⟨hpart _, hpart _, hpart _, hlow, hhigh, ⟨hnonneg _, hnonneg _, hnonneg _, ?_⟩,
    amounts_sum config totalFee⟩
  exact (Int.ediv_nonneg (mul_nonneg hfee (Int.natCast_nonneg _)) (by decide)).trans hlow

theorem amounts_nonpos (h : Whole config) (hfee : totalFee < 0) :
    (amounts config totalFee).lp ≤ 0 ∧ (amounts config totalFee).protocol ≤ 0 ∧
      (amounts config totalFee).backstop ≤ 0 ∧ (amounts config totalFee).platform ≤ 0 := by
  have hpos := (exact_amounts h (by omega : 0 ≤ -totalFee)).nonneg
  simp only [amounts, part_neg, rest_neg] at hpos
  simp only [amounts]
  omega

theorem payments_eq_nil (h : Whole config) (hfee : totalFee < 0) (dsts : Destinations Address) :
    (amounts config totalFee).payments dsts = [] := by
  obtain ⟨hlp, hprotocol, hbackstop, hplatform⟩ := amounts_nonpos h hfee
  simp only [Amounts.payments, Amounts.toList, List.filter_eq_nil_iff, List.forall_mem_cons,
    decide_eq_true_eq, not_lt]
  exact ⟨hlp, hprotocol, hbackstop, hplatform, nofun⟩

theorem forall_mem_toList {a : Amounts} (dsts : Destinations Address) {P : Int → Prop} :
    (∀ p ∈ a.toList dsts, P p.2) ↔ P a.lp ∧ P a.protocol ∧ P a.backstop ∧ P a.platform := by
  simp [Amounts.toList]

theorem sum_toList (dsts : Destinations Address) :
    (((amounts config totalFee).toList dsts).map (·.2)).sum = totalFee := by
  have h := amounts_sum config totalFee
  simp only [Amounts.toList, List.map_cons, List.map_nil, List.sum_cons, List.sum_nil]
  omega

theorem sum_filter_pos {ps : List (Address × Int)} (h : ∀ p ∈ ps, 0 ≤ p.2) :
    ((ps.filter (0 < ·.2)).map (·.2)).sum = (ps.map (·.2)).sum := by
  induction ps with
  | nil => rfl
  | cons p ps ih =>
    have hrest := ih fun q hq => h q (List.mem_cons_of_mem p hq)
    have hp := h p List.mem_cons_self
    by_cases hpos : 0 < p.2
    · rw [List.filter_cons_of_pos (by simpa using hpos), List.map_cons, List.sum_cons, hrest,
        List.map_cons, List.sum_cons]
    · rw [List.filter_cons_of_neg (by simpa using hpos), hrest, List.map_cons, List.sum_cons]
      omega

variable [DecidableEq Address] {T : Sep41 Address W} {env : Env Address contract}
variable {s t : Storage Address W} {f : Fee Address}

def payAll (T : Sep41 Address W) (f : Fee Address) : List (Address × Int) → W → Option W
  | [], w => some w
  | p :: ps, w => (T.transfer w f.token f.source p.1 p.2).bind (payAll T f ps)

def afterRoute (s : Storage Address W) (f : Fee Address) (ps : List (Address × Int)) (w : W) :
    Storage Address W :=
  { s with
    events := s.events ++ ps.map fun p => .feeRt f.feeType f.source p.1 p.2
    world := w }

def settle (T : Sep41 Address W) (s : Storage Address W) (f : Fee Address)
    (ps : List (Address × Int)) : Outcome FeeError (Storage Address W) := do
  let w ← unwrap (payAll T f ps s.world)
  pure (afterRoute s f ps w)

def sendAll (T : Sep41 Address W) (f : Fee Address) (ps : List (Address × Int))
    (routed : Int × Storage Address W) : Outcome FeeError (Int × Storage Address W) :=
  ps.foldlM (fun routed p => send T f p.1 p.2 routed) routed

theorem settle_nil : settle T s f [] = .ok s := by
  simp [settle, payAll, unwrap, afterRoute, bind, Except.bind, pure, Except.pure]

theorem settle_cons {p : Address × Int} {ps : List (Address × Int)} :
    settle T s f (p :: ps) = (unwrap (T.transfer s.world f.token f.source p.1 p.2)).bind fun w =>
      settle T ({ s with world := w }.publish (.feeRt f.feeType f.source p.1 p.2)) f ps := by
  rw [settle, payAll]
  cases T.transfer s.world f.token f.source p.1 p.2 with
  | none => rfl
  | some w => simp [settle, afterRoute, Storage.publish, unwrap, bind, Except.bind]

theorem sendAll_eq {ps : List (Address × Int)} {routed : Int} (h : ∀ p ∈ ps, 0 ≤ p.2)
    (hrouted : 0 ≤ routed) (hmax : routed + (ps.map (·.2)).sum ≤ maxI128) :
    sendAll T f ps (routed, s) = (settle T s f (ps.filter (0 < ·.2))).bind fun u =>
      .ok (routed + (ps.map (·.2)).sum, u) := by
  induction ps generalizing routed s with
  | nil => simp [sendAll, settle_nil, Except.bind, pure, Except.pure]
  | cons p ps ih =>
    have hrest : ∀ q ∈ ps, 0 ≤ q.2 := fun q hq => h q (List.mem_cons_of_mem p hq)
    have hp := h p List.mem_cons_self
    have hsum : 0 ≤ (ps.map (·.2)).sum := List.sum_nonneg (List.forall_mem_map.mpr hrest)
    rw [List.map_cons, List.sum_cons] at hmax ⊢
    rw [sendAll, List.foldlM_cons]
    by_cases hpos : 0 < p.2
    · have hin := inRange_of_nonneg (add_nonneg hrouted hp) (by omega)
      rw [List.filter_cons_of_pos (by simpa using hpos), settle_cons, send, if_pos hpos]
      cases T.transfer s.world f.token f.source p.1 p.2 with
      | none => rfl
      | some w =>
        have hnext := @ih ({ s with world := w }.publish (.feeRt f.feeType f.source p.1 p.2))
          (routed + p.2) hrest (by omega) (by omega)
        rw [add_assoc] at hnext
        simp only [unwrap, checked, if_pos hin, bind, Except.bind, pure, Except.pure]
        exact hnext
    · have hzero : p.2 = 0 := by omega
      rw [List.filter_cons_of_neg (by simpa using hpos), send, if_neg hpos, hzero, zero_add]
      exact ih hrest hrouted (by omega)

theorem sendAll_zero {ps : List (Address × Int)} (h : ∀ p ∈ ps, 0 ≤ p.2)
    (hmax : (ps.map (·.2)).sum ≤ maxI128) :
    sendAll T f ps (0, s) = (settle T s f (ps.filter (0 < ·.2))).bind fun u =>
      .ok ((ps.map (·.2)).sum, u) := by
  rw [sendAll_eq h le_rfl (by rwa [zero_add]), zero_add]

theorem sendAll_nonpos {ps : List (Address × Int)} {routed : Int × Storage Address W}
    (h : ∀ p ∈ ps, p.2 ≤ 0) : sendAll T f ps routed = .ok routed := by
  induction ps with
  | nil => rfl
  | cons p ps ih =>
    rw [sendAll, List.foldlM_cons, send, if_neg (h p List.mem_cons_self).not_gt]
    exact ih fun q hq => h q (List.mem_cons_of_mem p hq)

theorem shareOf_eq_ok {share : Nat} {amount : Int} (h : shareOf totalFee share = .ok amount) :
    amount = part 10000 totalFee share := by
  simp only [shareOf, bind_eq_ok, checked_eq_ok, checkedDiv_eq_ok] at h
  obtain ⟨_, ⟨-, rfl⟩, -, -, h⟩ := h
  exact h.symm

theorem shareOf_eq {share : Nat} (hfee : 0 ≤ totalFee) (hmax : totalFee * 10000 ≤ maxI128)
    (hshare : share ≤ 10000) : shareOf totalFee share = .ok (part 10000 totalFee share) := by
  have hle : totalFee * share ≤ totalFee * 10000 :=
    mul_le_mul_of_nonneg_left (by exact_mod_cast hshare) hfee
  have hnonneg := mul_nonneg hfee (Int.natCast_nonneg share)
  have hpart := part_nonneg (d := 10000) (by decide) hfee (Int.natCast_nonneg share)
  have hbound := (part_bounds (d := 10000) (by decide) hfee (Int.natCast_nonneg share)).1
  simp only [shareOf, bind_eq_ok, checked_eq_ok, checkedDiv_eq_ok]
  exact ⟨_, ⟨inRange_of_nonneg hnonneg (by omega), rfl⟩, by decide,
    inRange_of_nonneg hpart (by unfold part at *; omega), rfl⟩

theorem amounts_lp : part 10000 totalFee config.lpShare = (amounts config totalFee).lp := rfl

theorem amounts_protocol :
    part 10000 totalFee config.protocolShare = (amounts config totalFee).protocol := rfl

theorem amounts_backstop :
    part 10000 totalFee config.backstopShare = (amounts config totalFee).backstop := rfl

theorem amounts_platform : totalFee - (amounts config totalFee).lp -
    (amounts config totalFee).protocol - (amounts config totalFee).backstop =
      (amounts config totalFee).platform := by
  have h := amounts_sum config totalFee
  omega

theorem routeFees_ok {dsts : Destinations Address}
    (hconfig : s.feeConfig.lookup f.feeType = some config)
    (h : routeFees T s f totalFee dsts = .ok t) :
    sendAll T f ((amounts config totalFee).toList dsts) (0, s) = .ok (totalFee, t) := by
  simp only [routeFees, hconfig, bind_eq_ok, okOr_eq_ok, checked_eq_ok, panicIf_eq_ok, pure_eq_ok,
    not_not] at h
  obtain ⟨_, hc, lp, hlp, protocol, hprotocol, backstop, hbackstop, h⟩ := h
  cases hc
  obtain ⟨_, ⟨-, rfl⟩, _, ⟨-, rfl⟩, _, ⟨-, rfl⟩, r₁, h₁, r₂, h₂, r₃, h₃, ⟨routed, u⟩, h₄, h⟩ := h
  obtain ⟨_, hrouted, hu⟩ := h
  dsimp only at hrouted hu
  rw [hrouted, hu] at h₄
  rw [shareOf_eq_ok hlp, shareOf_eq_ok hprotocol, shareOf_eq_ok hbackstop, amounts_lp,
    amounts_protocol, amounts_backstop, amounts_platform] at h₄
  rw [shareOf_eq_ok hlp] at h₁
  rw [shareOf_eq_ok hprotocol] at h₂
  rw [shareOf_eq_ok hbackstop] at h₃
  simp only [sendAll, Amounts.toList, List.foldlM_cons, List.foldlM_nil, bind_eq_ok, pure_eq_ok]
  exact ⟨r₁, h₁, r₂, h₂, r₃, h₃, _, h₄, rfl⟩

section Routed

variable {dsts : Destinations Address} (hconfig : s.feeConfig.lookup f.feeType = some config)
variable (h : Whole config)

include hconfig h

theorem routeFees_sends (hfee : 0 ≤ totalFee) (hmax : totalFee * 10000 ≤ maxI128) :
    routeFees T s f totalFee dsts =
      sendAll T f ((amounts config totalFee).toList dsts) (0, s) >>= fun routed =>
        panicIf (routed.1 ≠ totalFee) >>= fun _ => pure routed.2 := by
  have hnonneg := (exact_amounts h hfee).nonneg
  have hsum := amounts_sum config totalFee
  have hshares := h
  unfold Whole at hshares
  have hlp : minI128 ≤ totalFee - (amounts config totalFee).lp ∧
      totalFee - (amounts config totalFee).lp ≤ maxI128 :=
    inRange_of_nonneg (by omega) (by omega)
  have hprotocol : minI128 ≤ totalFee - (amounts config totalFee).lp -
        (amounts config totalFee).protocol ∧
      totalFee - (amounts config totalFee).lp - (amounts config totalFee).protocol ≤ maxI128 :=
    inRange_of_nonneg (by omega) (by omega)
  have hplatform : minI128 ≤ (amounts config totalFee).platform ∧
      (amounts config totalFee).platform ≤ maxI128 :=
    inRange_of_nonneg hnonneg.2.2.2 (by omega)
  rw [routeFees, hconfig, okOr, ok_bind, shareOf_eq hfee hmax (by omega), ok_bind,
    shareOf_eq hfee hmax (by omega), ok_bind, shareOf_eq hfee hmax (by omega), ok_bind,
    amounts_lp, amounts_protocol, amounts_backstop, checked_eq_ok.mpr ⟨hlp, rfl⟩, ok_bind,
    checked_eq_ok.mpr ⟨hprotocol, rfl⟩, ok_bind,
    checked_eq_ok.mpr ⟨amounts_platform ▸ hplatform, amounts_platform⟩, ok_bind]
  simp only [sendAll, Amounts.toList, List.foldlM_cons, List.foldlM_nil, bind_bind]
  rfl

/-- A fee that the shares can be computed of is split exactly, and nothing but
a transfer that fails keeps it from being routed. -/
theorem routeFees_eq (hfee : 0 ≤ totalFee) (hmax : totalFee * 10000 ≤ maxI128) :
    routeFees T s f totalFee dsts =
      settle T s f ((amounts config totalFee).payments dsts) := by
  have hnonneg := (exact_amounts h hfee).nonneg
  have hall := sendAll_zero (T := T) (s := s) (f := f)
    ((forall_mem_toList dsts (P := (0 ≤ ·))).mpr hnonneg) (by rw [sum_toList]; omega)
  rw [sum_toList] at hall
  rw [routeFees_sends hconfig h hfee hmax, hall]
  change (settle T s f ((amounts config totalFee).payments dsts) >>= _) >>= _ = _
  cases settle T s f ((amounts config totalFee).payments dsts) with
  | error e => rfl
  | ok u => simp [ok_bind, panicIf, pure, Except.pure]

/-- A negative fee has no share to send, and is not what has been routed. -/
theorem routeFees_neg (hfee : totalFee < 0) : routeFees T s f totalFee dsts ≠ .ok t := by
  intro ht
  have hnonpos := (forall_mem_toList dsts (P := (· ≤ 0))).mpr (amounts_nonpos h hfee)
  have hsent := routeFees_ok hconfig ht
  rw [sendAll_nonpos hnonpos, Except.ok.injEq, Prod.mk.injEq] at hsent
  exact hfee.ne' hsent.1

end Routed

theorem send_feeConfig {dst : Address} {amount : Int} {routed routed' : Int × Storage Address W}
    (h : send T f dst amount routed = .ok routed') :
    routed'.2.feeConfig = routed.2.feeConfig := by
  rw [send] at h
  split at h
  next =>
    simp only [bind_eq_ok, pure_eq_ok] at h
    obtain ⟨_, -, _, -, rfl⟩ := h
    rfl
  next =>
    cases h
    rfl

theorem sendAll_feeConfig {ps : List (Address × Int)} {routed routed' : Int × Storage Address W}
    (h : sendAll T f ps routed = .ok routed') : routed'.2.feeConfig = routed.2.feeConfig := by
  induction ps generalizing routed with
  | nil =>
    cases h
    rfl
  | cons p ps ih =>
    rw [sendAll, List.foldlM_cons, bind_eq_ok] at h
    obtain ⟨_, hsend, h⟩ := h
    exact (ih h).trans (send_feeConfig hsend)

def AllWhole (s : Storage Address W) : Prop :=
  ∀ feeType config, s.feeConfig.lookup feeType = some config → Whole config

theorem whole_of_setFeeConfig {admin : Address} {feeType : Symbol}
    (h : setFeeConfig env s admin feeType config = .ok t) :
    Whole config ∧ t.feeConfig = s.feeConfig.insert feeType config := by
  simp only [setFeeConfig, totalShare, bind_eq_ok, rejectIf_eq_ok, checkedUInt_eq_ok, pure_eq_ok,
    not_not] at h
  obtain ⟨_, -, _, -, _, -, _, ⟨_, ⟨-, rfl⟩, _, ⟨-, rfl⟩, -, rfl⟩, _, htotal, rfl⟩ := h
  exact ⟨htotal, rfl⟩

theorem allWhole_invoke {c : Call Address} (hs : AllWhole s) (h : invoke T env s c = .ok t) :
    AllWhole t := by
  cases c with
  | setFeeConfig admin feeType config =>
    obtain ⟨hwhole, hconfig⟩ := whole_of_setFeeConfig h
    intro feeType' config' hc
    rw [hconfig, lookup_insert_eq_some] at hc
    obtain ⟨-, rfl⟩ | ⟨-, hc⟩ := hc
    · exact hwhole
    · exact hs feeType' config' hc
  | routeFees f totalFee dsts =>
    cases hconfig : s.feeConfig.lookup f.feeType with
    | none => simp [invoke, routeFees, hconfig, okOr, bind, Except.bind] at h
    | some config =>
      have hframe := sendAll_feeConfig (routeFees_ok hconfig h)
      dsimp only at hframe
      intro feeType config' hc
      rw [hframe] at hc
      exact hs feeType config' hc
  | setAdmin admin newAdmin =>
    simp only [invoke, setAdmin, bind_eq_ok, pure_eq_ok] at h
    obtain ⟨_, -, _, -, _, -, rfl⟩ := h
    exact hs

theorem allWhole_step {i : Input Address W contract (Call Address)} (hs : AllWhole s)
    (h : step T s i = .ok t) : AllWhole t := by
  cases i with
  | call env c => exact allWhole_invoke hs h
  | world w =>
    cases pure_eq_ok.mp h
    exact hs

/-- A fee that is routed is split exactly and sent in full, and a failing
transfer alone can prevent that. Of a negative fee nothing is sent. -/
def Conserves (T : Sep41 Address W) (s : Storage Address W) : Prop :=
  ∀ (f : Fee Address) config totalFee dsts, s.feeConfig.lookup f.feeType = some config →
    (0 ≤ totalFee → totalFee * 10000 ≤ maxI128 →
      Exact config totalFee (amounts config totalFee) ∧
      (((amounts config totalFee).payments dsts).map (·.2)).sum = totalFee ∧
      routeFees T s f totalFee dsts = settle T s f ((amounts config totalFee).payments dsts)) ∧
    (totalFee < 0 → (amounts config totalFee).payments dsts = [] ∧
      ∀ t, routeFees T s f totalFee dsts ≠ .ok t)

theorem AllWhole.conserves (hs : AllWhole s) : Conserves T s := by
  intro f config totalFee dsts hconfig
  have hwhole := hs f.feeType config hconfig
  refine ⟨fun hfee hmax => ⟨exact_amounts hwhole hfee, ?_, routeFees_eq hconfig hwhole hfee hmax⟩,
    fun hfee => ⟨payments_eq_nil hwhole hfee dsts, fun t => routeFees_neg hconfig hwhole hfee⟩⟩
  have hnonneg := (forall_mem_toList dsts).mpr (exact_amounts hwhole hfee).nonneg
  rw [Amounts.payments, sum_filter_pos hnonneg, sum_toList]

/-- In every state of a run, whatever configurations have been accepted, fees
are routed in full. -/
theorem conserves_throughout {w : W} {admin : Address}
    (h : initialise env (.fresh w) admin = .ok s)
    (is : List (Input Address W contract (Call Address))) :
    Throughout (step T) (Conserves T) s is := by
  have hopen : AllWhole s := by
    simp only [initialise, bind_eq_ok, pure_eq_ok] at h
    obtain ⟨_, -, _, -, rfl⟩ := h
    intro feeType config hc
    cases hc
  have hall : Throughout (step T) AllWhole s is :=
    throughout_of_along (fun _ _ _ hs _ ht => allWhole_step hs ht) hopen (along_true _ is)
  exact throughout_mono (fun _ hs => AllWhole.conserves hs) hall

def sampleWorld : Nat → Nat → Nat := fun token a => if token = 10 ∧ a = 2 then 1000 else 0

def sampleStorage : Storage Nat (Nat → Nat → Nat) :=
  { Storage.fresh sampleWorld with admin := some 1 }

def sampleRun : List (Input Nat (Nat → Nat → Nat) 0 (Call Nat)) :=
  [.call (Env.signed 0 1) (.setFeeConfig 1 "swap" ⟨3333, 3333, 3333, 1⟩),
    .call (Env.signed 0 2) (.routeFees ⟨2, 10, "swap"⟩ 101 ⟨3, 4, 5, 6⟩)]

theorem conserves_throughout_sample :
    Throughout (step (bookToken Nat)) (Conserves (bookToken Nat)) sampleStorage sampleRun := by
  have hopen : initialise (Env.signed 0 0) (.fresh sampleWorld) 1 = .ok sampleStorage := rfl
  exact conserves_throughout hopen sampleRun

/-- The platform gets the two units that the three other parts leave over. -/
example : (run (step (bookToken Nat)) sampleStorage sampleRun).world 10 6 = 2 := by decide +kernel

end Suban.FeeRouter.Routing

import Suban.Indexer.Webhooks

namespace Suban.Indexer.Deliveries

open Suban.Basis.Rows Suban.Basis.Runs Suban.Indexer.Database Suban.Indexer.Webhooks

def At (s : Dispatcher) (n : Nat) (d : WebhookDelivery) : Prop :=
  ∃ r, s.runs[n]? = some r ∧ r.place.delivery = some d

def Posting (s : Dispatcher) (n id : Nat) : Prop :=
  ∃ r d, s.runs[n]? = some r ∧ r.place = .posting d ∧ d.id = id

def posts (s : Dispatcher) (id : Nat) : Nat := s.log.count (.posted id)

/-- What a delivery is to be spared. -/
structure Orderly (config : WebhookConfig) (s : Dispatcher) : Prop where
  final : ∀ d ∈ s.host.webhookDeliveries, d.status = .delivered ↔ .delivered d.id ∈ s.log
  quiet : s.log.Pairwise fun earlier later => ∀ id, earlier = .delivered id → later ≠ .posted id
  alone : ∀ id m n, Posting s m id → Posting s n id → m = n
  bounded : ∀ id, posts s id ≤ config.maxAttempts

/-- The delivery is still as it was in the snapshot, or has gone with its
subscription. -/
def Current (h : Host) (d : WebhookDelivery) : Prop :=
  (HasKey WebhookDelivery.id h.webhookDeliveries d.id ∧
    ∀ r ∈ h.webhookDeliveries, r.id = d.id → r.status = .pending ∧ r.attempts = d.attempts) ∨
  (¬ HasKey WebhookDelivery.id h.webhookDeliveries d.id ∧
    getSubscription h d.subscriptionId = none)

/-- A run only ever comes to a delivery that is still as it was in its snapshot
and that no other run is in the middle of. -/
def TurnsAreCurrent (s : Dispatcher) : Input → Prop
  | .turn n => ∀ r ∈ s.runs[n]?, ∀ d ∈ r.ahead.head?,
    Current s.host d ∧ ∀ r' ∈ s.runs, ∀ e ∈ r'.place.delivery, e.id ≠ d.id
  | _ => True

instance (h : Host) (d : WebhookDelivery) : Decidable (Current h d) :=
  inferInstanceAs (Decidable (_ ∧ _ ∨ _ ∧ _))

instance (s : Dispatcher) (i : Input) : Decidable (TurnsAreCurrent s i) :=
  match i with
  | .turn n => inferInstanceAs (Decidable (∀ r ∈ s.runs[n]?, ∀ d ∈ r.ahead.head?,
    Current s.host d ∧ ∀ r' ∈ s.runs, ∀ e ∈ r'.place.delivery, e.id ≠ d.id))
  | .dispatchOnce _ | .respond _ _ | .readText _ _ | .other _ => isTrue trivial

/-- What is kept about one delivery. -/
structure KeptAt (config : WebhookConfig) (s : Dispatcher) (id : Nat) : Prop where
  final : ∀ r ∈ s.host.webhookDeliveries, r.id = id →
    (r.status = .delivered ↔ .delivered id ∈ s.log)
  counted : ∀ r ∈ s.host.webhookDeliveries, r.id = id → r.status = .pending →
    r.attempts < config.maxAttempts ∧ ((∀ m e, At s m e → e.id ≠ id) → posts s id = r.attempts)
  bounded : posts s id ≤ config.maxAttempts
  held : ∀ n d, At s n d → d.id = id → 0 < posts s id ∧ .delivered id ∉ s.log ∧
    ∀ r ∈ s.host.webhookDeliveries, r.id = id →
      r.status = .pending ∧ r.attempts = d.attempts ∧ posts s id = d.attempts + 1
  single : ∀ m n d e, At s m d → At s n e → d.id = id → e.id = id → m = n

structure Kept (config : WebhookConfig) (s : Dispatcher) : Prop where
  known : ∀ r ∈ s.host.webhookDeliveries, r.id < s.host.deliveryIds
  logged : ∀ id, s.host.deliveryIds ≤ id → .delivered id ∉ s.log ∧ posts s id = 0
  quiet : s.log.Pairwise fun earlier later => ∀ id, earlier = .delivered id → later ≠ .posted id
  keptAt : ∀ id, KeptAt config s id

variable {config : WebhookConfig} {s t : Dispatcher} {n id : Nat} {r : Dispatch}
variable {d : WebhookDelivery}

theorem Kept.orderly (h : Kept config s) : Orderly config s where
  final d hd := (h.keptAt d.id).final d hd rfl
  quiet := h.quiet
  alone := by
    rintro id m n ⟨a, d, ha, hplace, hd⟩ ⟨b, e, hb, hplace', he⟩
    have hm : At s m d := ⟨a, ha, by rw [hplace, Place.delivery]⟩
    have hn : At s n e := ⟨b, hb, by rw [hplace', Place.delivery]⟩
    exact (h.keptAt id).single m n d e hm hn hd he
  bounded id := (h.keptAt id).bounded

theorem KeptAt.of_others (h : KeptAt config s id)
    (hrows : ∀ r ∈ t.host.webhookDeliveries, r.id = id → r ∈ s.host.webhookDeliveries)
    (hposts : posts t id = posts s id)
    (hdelivered : .delivered id ∈ t.log ↔ .delivered id ∈ s.log)
    (hat : ∀ m d, d.id = id → (At t m d ↔ At s m d)) : KeptAt config t id where
  final r hr hid := (h.final r (hrows r hr hid) hid).trans hdelivered.symm
  counted r hr hid hpending := by
    obtain ⟨hlt, hcount⟩ := h.counted r (hrows r hr hid) hid hpending
    refine ⟨hlt, fun hfree => hposts.trans (hcount fun m e he hei => ?_)⟩
    exact hfree m e ((hat m e hei).mpr he) hei
  bounded := hposts ▸ h.bounded
  held n d hd hid := by
    obtain ⟨hpos, hnot, hheld⟩ := h.held n d ((hat n d hid).mp hd) hid
    rw [hposts]
    exact ⟨hpos, fun hin => hnot (hdelivered.mp hin), fun r hr hr' => hheld r (hrows r hr hr') hr'⟩
  single m n d e hd he hdi hei :=
    h.single m n d e ((hat m d hdi).mp hd) ((hat n e hei).mp he) hdi hei

theorem KeptAt.of_free (hfree : ∀ m e, At t m e → e.id ≠ id)
    (hbounded : posts t id ≤ config.maxAttempts)
    (hrows : ∀ r ∈ t.host.webhookDeliveries, r.id = id →
      (r.status = .delivered ↔ .delivered id ∈ t.log) ∧
      (r.status = .pending → r.attempts < config.maxAttempts ∧ posts t id = r.attempts)) :
    KeptAt config t id where
  final r hr hid := (hrows r hr hid).1
  counted r hr hid hpending := ⟨((hrows r hr hid).2 hpending).1,
    fun _ => ((hrows r hr hid).2 hpending).2⟩
  bounded := hbounded
  held m e he hid := absurd hid (hfree m e he)
  single m _ d _ hd _ hid _ := absurd hid (hfree m d hd)

theorem at_of_runs (hruns : t.runs = s.runs) (m : Nat) (e : WebhookDelivery) :
    At t m e ↔ At s m e := by
  simp only [At, hruns]

theorem at_of_set {r' : Dispatch} (hr : s.runs[n]? = some r) (hruns : t.runs = s.runs.set n r')
    (m : Nat) (e : WebhookDelivery) :
    At t m e ↔ if m = n then r'.place.delivery = some e else At s m e := by
  have hn : n < s.runs.length := (List.getElem?_eq_some_iff.mp hr).1
  by_cases hm : m = n
  · subst hm
    simp [At, hruns, hn]
  · simp [At, hruns, hm, List.getElem?_set_ne (Ne.symm hm)]

theorem mem_setDelivery {change : WebhookDelivery → WebhookDelivery} {h : Host}
    {x : WebhookDelivery} :
    x ∈ (setDelivery h id change).webhookDeliveries ↔
      x ∈ h.webhookDeliveries ∧ x.id ≠ id ∨
      ∃ r ∈ h.webhookDeliveries, r.id = id ∧ change r = x := by
  simp only [setDelivery, List.mem_map]
  constructor
  · rintro ⟨r, hr, rfl⟩
    by_cases hid : r.id = id
    · exact .inr ⟨r, hr, hid, (if_pos hid).symm⟩
    · rw [if_neg hid]
      exact .inl ⟨hr, hid⟩
  · rintro (⟨hx, hid⟩ | ⟨r, hr, hid, rfl⟩)
    · exact ⟨x, hx, if_neg hid⟩
    · exact ⟨r, hr, if_pos hid⟩

/-- What a step may note about the delivery. -/
inductive Notes (s : Dispatcher) (id : Nat) : List Entry → Prop where
  | nothing : Notes s id []
  | posted (hknown : id < s.host.deliveryIds) (hnot : .delivered id ∉ s.log) :
    Notes s id [.posted id]
  | delivered (hknown : id < s.host.deliveryIds) : Notes s id [.delivered id]

section Notes

variable {entries : List Entry} {other : Nat}

theorem Notes.quiet (h : Notes s id entries)
    (hs : s.log.Pairwise fun earlier later => ∀ id, earlier = .delivered id → later ≠ .posted id) :
    (s.log ++ entries).Pairwise fun earlier later =>
      ∀ id, earlier = .delivered id → later ≠ .posted id := by
  cases h with
  | nothing => rwa [List.append_nil]
  | posted hknown hnot =>
    refine List.pairwise_append.mpr ⟨hs, List.pairwise_singleton _ _, ?_⟩
    rintro a ha b hb other rfl rfl
    cases List.mem_singleton.mp hb
    exact hnot ha
  | delivered hknown =>
    refine List.pairwise_append.mpr ⟨hs, List.pairwise_singleton _ _, ?_⟩
    rintro a ha b hb other rfl rfl
    cases List.mem_singleton.mp hb

theorem Notes.posts_other (h : Notes s id entries) (hlog : t.log = s.log ++ entries)
    (hother : other ≠ id) : posts t other = posts s other := by
  rw [posts, posts, hlog, List.count_append]
  cases h with
  | nothing => rfl
  | posted => simp [hother.symm]
  | delivered => simp

theorem Notes.delivered_other (h : Notes s id entries) (hlog : t.log = s.log ++ entries)
    (hother : other ≠ id) : .delivered other ∈ t.log ↔ .delivered other ∈ s.log := by
  rw [hlog, List.mem_append]
  cases h with
  | nothing => simp
  | posted => simp
  | delivered => simp [hother]

/-- A step about one delivery leaves the others as they are. -/
theorem Kept.of_one (h : Kept config s) (hids : t.host.deliveryIds = s.host.deliveryIds)
    (hrows : ∀ r ∈ t.host.webhookDeliveries, r ∈ s.host.webhookDeliveries ∧ r.id ≠ id ∨
      r.id = id ∧ ∃ r' ∈ s.host.webhookDeliveries, r'.id = id)
    (hnotes : Notes s id entries) (hlog : t.log = s.log ++ entries)
    (hat : ∀ m e, e.id ≠ id → (At t m e ↔ At s m e)) (hone : KeptAt config t id) :
    Kept config t where
  known r hr := by
    rw [hids]
    obtain ⟨hin, -⟩ | ⟨heq, r', hr', heq'⟩ := hrows r hr
    · exact h.known r hin
    · exact heq.trans heq'.symm ▸ h.known r' hr'
  logged other hle := by
    rw [hids] at hle
    by_cases hother : other = id
    · subst hother
      cases hnotes with
      | nothing =>
        rw [List.append_nil] at hlog
        rw [posts, hlog]
        exact h.logged other hle
      | posted hknown | delivered hknown => exact absurd hknown (Nat.not_lt.mpr hle)
    · rw [hnotes.posts_other hlog hother, hnotes.delivered_other hlog hother]
      exact h.logged other hle
  quiet := hlog ▸ hnotes.quiet h.quiet
  keptAt other := by
    by_cases hother : other = id
    · exact hother ▸ hone
    · refine (h.keptAt other).of_others (fun r hr hid => ?_) (hnotes.posts_other hlog hother)
        (hnotes.delivered_other hlog hother) fun m e he => hat m e (he ▸ hother)
      obtain ⟨hin, -⟩ | ⟨heq, -⟩ := hrows r hr
      · exact hin
      · exact absurd (hid.symm.trans heq) hother

end Notes

theorem Kept.of_runs (h : Kept config s) (hhost : t.host = s.host) (hlog : t.log = s.log)
    (hat : ∀ m e, At t m e ↔ At s m e) : Kept config t where
  known := hhost ▸ h.known
  logged id hid := by
    rw [posts, hlog]
    exact h.logged id (hhost ▸ hid)
  quiet := hlog ▸ h.quiet
  keptAt id := by
    refine (h.keptAt id).of_others (fun r hr _ => hhost ▸ hr) ?_ (by rw [hlog])
      fun m e _ => hat m e
    rw [posts, posts, hlog]

theorem Kept.dispatchOnce (h : Kept config s) (now : Nat) :
    Kept config { s with runs := s.runs ++ [⟨now, .between, due s.host now 50, 0⟩] } := by
  refine h.of_runs rfl rfl fun m e => ?_
  obtain hm | rfl | hm := Nat.lt_trichotomy m s.runs.length
  · simp [At, List.getElem?_append_left hm]
  · simp [At, Place.delivery]
  · have hnone : s.runs[m]? = none := List.getElem?_eq_none hm.le
    have hnone' : (s.runs ++ [⟨now, .between, due s.host now 50, 0⟩])[m]? = none :=
      List.getElem?_eq_none (by simpa using Nat.succ_le_of_lt hm)
    simp only [At, hnone, hnone']

theorem rows_other {c : Statement} (ht : other s c = .ok t) :
    t.runs = s.runs ∧ t.log = s.log ∧ s.host.deliveryIds ≤ t.host.deliveryIds ∧
      ∃ kept added, kept.Sublist s.host.webhookDeliveries ∧
        t.host.webhookDeliveries = kept ++ added ∧ (added.map WebhookDelivery.id).Nodup ∧
        ∀ d ∈ added, d.status = .pending ∧ d.attempts = 0 ∧ s.host.deliveryIds ≤ d.id ∧
          d.id < t.host.deliveryIds := by
  cases c with
  | updateDelivery => cases ht
  | deleteSubscription id =>
    cases ht
    exact ⟨rfl, rfl, le_rfl, _, [], List.filter_sublist, (List.append_nil _).symm, .nil, by simp⟩
  | insertDeliveries eventId payload now subscriptionIds =>
    cases ht
    obtain ⟨added, hsub, heq⟩ := insertAll_eq_append WebhookDelivery.key
      (subscriptionIds.mapIdx fun i subscriptionId =>
        (⟨s.host.deliveryIds + i, subscriptionId, eventId, .pending, 0, now, none, payload⟩ :
          WebhookDelivery)) s.host.webhookDeliveries
    refine ⟨rfl, rfl, Nat.le_add_right _ _, _, added, List.Sublist.refl _, heq, ?_, fun d hd => ?_⟩
    · refine List.Nodup.sublist (hsub.map _) ?_
      refine List.nodup_iff_injective_get.mpr fun i j hij => Fin.ext ?_
      simpa using hij
    · obtain ⟨i, hi, rfl⟩ := List.mem_mapIdx.mp (hsub.subset hd)
      exact ⟨rfl, rfl, Nat.le_add_right _ _, Nat.add_lt_add_left hi _⟩
  | _ =>
    cases ht
    exact ⟨rfl, rfl, le_rfl, _, [], List.Sublist.refl _, (List.append_nil _).symm, .nil, by simp⟩

theorem rows_exec {c : Statement} (ht : other s c = .ok t)
    (hknown : ∀ r ∈ s.host.webhookDeliveries, r.id < s.host.deliveryIds) :
    ∀ r ∈ t.host.webhookDeliveries, r.id < t.host.deliveryIds ∧
      (r ∈ s.host.webhookDeliveries ∨
        r.status = .pending ∧ r.attempts = 0 ∧ s.host.deliveryIds ≤ r.id) := by
  obtain ⟨-, -, hids, kept, added, hkept, hrows, -, hadded⟩ := rows_other ht
  intro r hr
  rw [hrows] at hr
  obtain hr | hr := List.mem_append.mp hr
  · have hin := hkept.subset hr
    exact ⟨(hknown r hin).trans_le hids, .inl hin⟩
  · obtain ⟨hpending, hattempts, hle, hlt⟩ := hadded r hr
    exact ⟨hlt, .inr ⟨hpending, hattempts, hle⟩⟩

theorem Kept.other (h : Kept config s) (hmax : 0 < config.maxAttempts) {c : Statement}
    (ht : other s c = .ok t) : Kept config t := by
  obtain ⟨hruns, hlog, hids, -⟩ := rows_other ht
  have hrows := rows_exec ht h.known
  have hposts (id : Nat) : posts t id = posts s id := by rw [posts, posts, hlog]
  refine ⟨fun r hr => (hrows r hr).1, fun id hid => ?_, hlog ▸ h.quiet, fun id => ?_⟩
  · rw [hposts, hlog]
    exact h.logged id (hids.trans hid)
  · obtain hid | hid := Nat.lt_or_ge id s.host.deliveryIds
    · refine (h.keptAt id).of_others (fun r hr hr' => ?_) (hposts id) (by rw [hlog])
        fun m e _ => at_of_runs hruns m e
      obtain hin | ⟨-, -, hle⟩ := (hrows r hr).2
      · exact hin
      · exact absurd hid (Nat.not_lt.mpr (hr' ▸ hle))
    · -- an id that has not been given away before
      obtain ⟨hnot, hzero⟩ := h.logged id hid
      have hfree : ∀ m e, At t m e → e.id ≠ id := by
        intro m e he heq
        have hpos := ((h.keptAt id).held m e ((at_of_runs hruns m e).mp he) heq).1
        omega
      have hnew : ∀ r ∈ t.host.webhookDeliveries, r.id = id →
          r.status = .pending ∧ r.attempts = 0 := by
        intro r hr hr'
        obtain hin | ⟨hpending, hattempts, -⟩ := (hrows r hr).2
        · exact absurd (h.known r hin) (Nat.not_lt.mpr (hr' ▸ hid))
        · exact ⟨hpending, hattempts⟩
      refine .of_free hfree ?_ fun r hr hr' => ⟨?_, fun _ => ?_⟩
      · rw [hposts, hzero]
        exact Nat.zero_le _
      · rw [(hnew r hr hr').1, hlog]
        exact iff_of_false (by decide) hnot
      · rw [(hnew r hr hr').2, hposts, hzero]
        exact ⟨hmax, rfl⟩

theorem Kept.of_change (h : Kept config s) {change : WebhookDelivery → WebhookDelivery}
    (hhost : t.host = setDelivery s.host id change) (hchange : ∀ r, (change r).id = r.id)
    {entries : List Entry} (hnotes : Notes s id entries) (hlog : t.log = s.log ++ entries)
    (hat : ∀ m e, e.id ≠ id → (At t m e ↔ At s m e)) (hone : KeptAt config t id) :
    Kept config t := by
  refine h.of_one (hhost ▸ rfl) (fun r hr => ?_) hnotes hlog hat hone
  rw [hhost, mem_setDelivery] at hr
  refine hr.imp_right ?_
  rintro ⟨r', hr', hid, rfl⟩
  exact ⟨(hchange r').trans hid, r', hr', hid⟩

theorem rows_of_change {change : WebhookDelivery → WebhookDelivery}
    (hhost : t.host = setDelivery s.host id change) {x : WebhookDelivery}
    (hx : x ∈ t.host.webhookDeliveries) (hid : x.id = id) :
    ∃ r ∈ s.host.webhookDeliveries, r.id = id ∧ change r = x := by
  rw [hhost, mem_setDelivery] at hx
  exact hx.resolve_left fun h => h.2 hid

section Steps

variable {r' : Dispatch}

theorem Kept.post (h : Kept config s) (hr : s.runs[n]? = some r) (hbetween : r.place = .between)
    (hcurrent : HasKey WebhookDelivery.id s.host.webhookDeliveries d.id ∧
      ∀ r ∈ s.host.webhookDeliveries, r.id = d.id → r.status = .pending ∧ r.attempts = d.attempts)
    (hfree : ∀ m e, At s m e → e.id ≠ d.id) (hhost : t.host = s.host)
    (hruns : t.runs = s.runs.set n r') (hplace : r'.place = .posting d)
    (hlog : t.log = s.log ++ [.posted d.id]) : Kept config t := by
  have hone := h.keptAt d.id
  obtain ⟨⟨x, hx, hid⟩, hsame⟩ := hcurrent
  obtain ⟨hpending, hattempts⟩ := hsame x hx hid
  obtain ⟨hlt, hcount⟩ := hone.counted x hx hid hpending
  rw [hattempts] at hlt hcount
  have hpost : posts t d.id = d.attempts + 1 := by
    rw [posts, hlog, List.count_append, List.count_singleton_self, ← posts, hcount hfree]
  have hnot : .delivered d.id ∉ s.log := fun hin => by
    have hdelivered := (hone.final x hx hid).mpr hin
    rw [hpending] at hdelivered
    cases hdelivered
  have hnot' : .delivered d.id ∉ t.log := by simpa [hlog] using hnot
  have hat (m : Nat) (e : WebhookDelivery) : At t m e ↔ if m = n then d = e else At s m e := by
    rw [at_of_set hr hruns, hplace, Place.delivery, Option.some.injEq]
  have hturned (m : Nat) (e : WebhookDelivery) (he : At t m e) (heid : e.id = d.id) :
      m = n ∧ d = e := by
    rw [hat] at he
    split at he
    next hm => exact ⟨hm, he⟩
    next => exact absurd heid (hfree m e he)
  refine h.of_one (hhost ▸ rfl) (fun r hr => ?_) (.posted (hid ▸ h.known x hx) hnot) hlog
    (fun m e he => ?_) ⟨fun r hr hrid => ?_, fun r hr hrid _ => ?_, ?_, fun m e he heid => ?_,
      fun m k e f he hf heid hfid => (hturned m e he heid).1.trans (hturned k f hf hfid).1.symm⟩
  · rw [hhost] at hr
    by_cases hrid : r.id = d.id
    · exact .inr ⟨hrid, r, hr, hrid⟩
    · exact .inl ⟨hr, hrid⟩
  · rw [hat]
    split
    next hm =>
      refine iff_of_false (fun heq => he (heq ▸ rfl)) ?_
      rintro ⟨r', hr', hat'⟩
      rw [hm, hr] at hr'
      cases hr'
      rw [hbetween] at hat'
      cases hat'
    next => rfl
  · rw [(hsame r (hhost ▸ hr) hrid).1]
    exact iff_of_false (by decide) hnot'
  · rw [(hsame r (hhost ▸ hr) hrid).2]
    refine ⟨hlt, fun hnobody => absurd rfl (hnobody n d ((hat n d).mpr ?_))⟩
    rw [if_pos rfl]
  · rw [hpost]
    exact hlt
  · obtain ⟨-, rfl⟩ := hturned m e he heid
    refine ⟨hpost ▸ Nat.succ_pos _, hnot', fun r hr hrid => ?_⟩
    obtain ⟨hp, ha⟩ := hsame r (hhost ▸ hr) hrid
    exact ⟨hp, ha, hpost⟩

theorem Kept.unsubscribe (h : Kept config s) (hr : s.runs[n]? = some r)
    (hcurrent : Current s.host d) (hfree : ∀ m e, At s m e → e.id ≠ d.id)
    {error : String} (hhost : t.host = markFailed s.host d.id d.attempts error)
    (hruns : t.runs = s.runs.set n r') (hplace : r'.place = r.place)
    (hlog : t.log = s.log) : Kept config t := by
  have hat (m : Nat) (e : WebhookDelivery) : At t m e ↔ At s m e := by
    rw [at_of_set hr hruns, hplace]
    split
    next hm =>
      subst hm
      simp [At, hr]
    next => rfl
  have hposts : posts t d.id = posts s d.id := by rw [posts, posts, hlog]
  rw [markFailed] at hhost
  refine h.of_change hhost (fun _ => rfl) .nothing (by rw [hlog, List.append_nil])
    (fun m e _ => hat m e) (.of_free (fun m e he => hfree m e ((hat m e).mp he)) ?_
      fun x hx hid => ?_)
  · rw [hposts]
    exact (h.keptAt d.id).bounded
  · obtain ⟨x', hx', hid', rfl⟩ := rows_of_change hhost hx hid
    refine ⟨iff_of_false (by simp) fun hin => ?_, by simp⟩
    have hdelivered := ((h.keptAt d.id).final x' hx' hid').mpr (hlog ▸ hin)
    obtain ⟨-, hsame⟩ | ⟨hgone, -⟩ := hcurrent
    · rw [(hsame x' hx' hid').1] at hdelivered
      cases hdelivered
    · exact hgone ⟨x', hx', hid'⟩

theorem Kept.leave (h : Kept config s) (hr : s.runs[n]? = some r)
    (hd : r.place.delivery = some d) {change : WebhookDelivery → WebhookDelivery}
    (hhost : t.host = setDelivery s.host d.id change) (hchange : ∀ x, (change x).id = x.id)
    (hruns : t.runs = s.runs.set n r') (hplace : r'.place = .between) {entries : List Entry}
    (hlog : t.log = s.log ++ entries) (hentries : entries = [] ∨ entries = [.delivered d.id])
    (hdelivered : ∀ x, x.status = .pending → ((change x).status = .delivered ↔ entries ≠ []))
    (hpending : ∀ x, (change x).status = .pending →
      (change x).attempts = d.attempts + 1 ∧ d.attempts + 1 < config.maxAttempts) :
    Kept config t := by
  have hone := h.keptAt d.id
  have hsat : At s n d := ⟨r, hr, hd⟩
  obtain ⟨hpos, hnot, hheld⟩ := hone.held n d hsat rfl
  have hknown : d.id < s.host.deliveryIds := by
    by_contra hge
    have hzero := (h.logged d.id (Nat.not_lt.mp hge)).2
    omega
  have hat (m : Nat) (e : WebhookDelivery) : At t m e ↔ m ≠ n ∧ At s m e := by
    rw [at_of_set hr hruns, hplace, Place.delivery]
    split
    next hm => simp [hm]
    next hm => simp [hm]
  have hposts : posts t d.id = posts s d.id := by
    rw [posts, posts, hlog, List.count_append]
    obtain rfl | rfl := hentries <;> simp
  have hin : .delivered d.id ∈ t.log ↔ entries ≠ [] := by
    rw [hlog, List.mem_append]
    obtain rfl | rfl := hentries <;> simp [hnot]
  have hnotes : Notes s d.id entries := by
    obtain rfl | rfl := hentries
    · exact .nothing
    · exact .delivered hknown
  refine h.of_change hhost hchange hnotes hlog (fun m e he => ?_)
    (.of_free (fun m e he heid => ?_) (hposts ▸ hone.bounded) fun x hx hid => ?_)
  · rw [hat]
    refine ⟨And.right, fun hm => ⟨?_, hm⟩⟩
    rintro rfl
    obtain ⟨r'', hr'', he''⟩ := hm
    cases hr.symm.trans hr''
    cases hd.symm.trans he''
    exact he rfl
  · obtain ⟨hm, he'⟩ := (hat m e).mp he
    exact hm (hone.single m n e d he' hsat heid rfl)
  · obtain ⟨x', hx', hid', rfl⟩ := rows_of_change hhost hx hid
    obtain ⟨hp, -, hcount⟩ := hheld x' hx' hid'
    rw [hdelivered x' hp, hin, hposts, hcount]
    refine ⟨Iff.rfl, fun hp' => ?_⟩
    obtain ⟨hattempts, hlt⟩ := hpending x' hp'
    rw [hattempts]
    exact ⟨hlt, rfl⟩

theorem Kept.turn (h : Kept config s) {ahead : List WebhookDelivery}
    (hr : s.runs[n]? = some r) (hbetween : r.place = .between) (hcurrent : Current s.host d)
    (hfree : ∀ m e, At s m e → e.id ≠ d.id) : Kept config (turn s n r d ahead) := by
  unfold Webhooks.turn
  split
  next hactive =>
    refine h.post hr hbetween (hcurrent.resolve_right fun hgone => ?_) hfree rfl rfl rfl rfl
    rw [hgone.2] at hactive
    cases hactive
  next => exact h.unsubscribe hr hcurrent hfree rfl rfl rfl rfl

theorem Kept.fail (h : Kept config s) (hr : s.runs[n]? = some r)
    (hd : r.place.delivery = some d) (message : String) :
    Kept config (fail config s n r d message) := by
  have hlog : (Webhooks.fail config s n r d message).log = s.log ++ [] := by
    rw [List.append_nil, Webhooks.fail]
  by_cases hlast : config.maxAttempts ≤ d.attempts + 1
  · have hhost : (Webhooks.fail config s n r d message).host =
        markFailed s.host d.id (d.attempts + 1) message := if_pos hlast
    exact h.leave hr hd hhost (fun _ => rfl) rfl rfl hlog (.inl rfl)
      (by simp) (by simp)
  · have hhost := show (Webhooks.fail config s n r d message).host = _ from if_neg hlast
    exact h.leave hr hd hhost (fun _ => rfl) rfl rfl hlog (.inl rfl)
      (by simp +contextual) fun _ _ => ⟨rfl, Nat.not_le.mp hlast⟩

theorem Kept.respond (h : Kept config s) (hr : s.runs[n]? = some r) (hd : r.place = .posting d)
    (outcome : Outcome) : Kept config (respond config s n r d outcome) := by
  have hdelivery : r.place.delivery = some d := by rw [hd, Place.delivery]
  cases outcome with
  | aborted => exact h.fail hr hdelivery _
  | rejected message => exact h.fail hr hdelivery _
  | response status =>
    rw [Webhooks.respond]
    split
    next =>
      exact h.leave hr hdelivery rfl (fun _ => rfl) rfl rfl rfl (.inr rfl) (by simp) (by simp)
    next =>
      refine h.of_runs rfl rfl fun m e => ?_
      rw [at_of_set hr rfl, Place.delivery]
      split
      next hm =>
        subst hm
        simp [At, hr, hdelivery]
      next => rfl

theorem kept_step (hmax : 0 < config.maxAttempts) {i : Input} (h : Kept config s)
    (hi : TurnsAreCurrent s i) (ht : step config s i = .ok t) : Kept config t := by
  cases i with
  | dispatchOnce now =>
    cases ht
    exact h.dispatchOnce now
  | turn n =>
    simp only [step] at ht
    split at ht
    next now d ahead delivered hr =>
      cases ht
      obtain ⟨hcurrent, hfree⟩ := hi _ hr d rfl
      refine h.turn hr rfl hcurrent fun m e he => ?_
      obtain ⟨r', hr', hat⟩ := he
      exact hfree r' (List.mem_of_getElem? hr') e hat
    next => cases ht
  | respond n outcome =>
    simp only [step] at ht
    split at ht
    next hr =>
      cases ht
      exact h.respond hr rfl outcome
    next => cases ht
  | readText n text =>
    simp only [step] at ht
    split at ht
    next hr =>
      cases ht
      exact h.fail hr rfl _
    next => cases ht
  | other c => exact h.other hmax ht

end Steps

theorem kept_start : Kept config .start where
  known := by simp [Dispatcher.start, Host.fresh]
  logged := by simp [Dispatcher.start, posts]
  quiet := .nil
  keptAt id := .of_free (by simp [At, Dispatcher.start]) (by simp [posts, Dispatcher.start])
    (by simp [Dispatcher.start, Host.fresh])

/-- However the runs of the dispatcher overlap, each delivery is posted by one
run at a time, at most so many times, and no more once it is delivered, as long
as every run finds the deliveries of its snapshot as they were. -/
theorem orderly_of_current (hmax : 0 < config.maxAttempts) {is : List Input}
    (h : Along (step config) TurnsAreCurrent .start is) :
    Throughout (step config) (Orderly config) .start is :=
  throughout_mono (fun _ => Kept.orderly)
    (throughout_of_along (fun _ _ _ hs hi ht => kept_step hmax hs hi ht) kept_start h)

section Sample

def sampleConfig : WebhookConfig := ⟨1, 1000, 300000⟩

def sampleSetup : List Input :=
  [.other (.createSubscription ⟨"s", "http://localhost", "secret", ["*"], [], true⟩),
    .other (.insertDeliveries "e" "payload" 0 ["s"])]

def singleRun : List Input :=
  sampleSetup ++ [.dispatchOnce 0, .turn 0, .respond 0 (.response 200)]

/-- The timer starts the second run while the first one awaits its POST. -/
def overlappingRuns : List Input :=
  sampleSetup ++ [.dispatchOnce 0, .turn 0, .dispatchOnce 5, .turn 1, .respond 0 (.response 200),
    .respond 1 (.response 500), .readText 1 ""]

theorem orderly_of_current_sample :
    Throughout (step sampleConfig) (Orderly sampleConfig) .start singleRun :=
  orderly_of_current (by decide) ⟨fun _ _ => trivial, fun _ _ => trivial, fun _ _ => trivial,
    fun _ _ => by decide +kernel, fun _ _ => trivial, trivial⟩

/-- The delivery is posted twice with one attempt allowed, and fails after it
was delivered. -/
theorem overlapping_runs :
    (run (step sampleConfig) .start overlappingRuns).log =
        [.posted 0, .posted 0, .delivered 0] ∧
      (run (step sampleConfig) .start overlappingRuns).host.webhookDeliveries.map
        (fun d => (d.id, d.status)) = [(0, .failed)] ∧
      ¬ Throughout (step sampleConfig) (Orderly sampleConfig) .start overlappingRuns := by
  have hlog : (run (step sampleConfig) .start overlappingRuns).log =
      [.posted 0, .posted 0, .delivered 0] := by decide +kernel
  refine ⟨hlog, by decide +kernel, fun h => ?_⟩
  have hbounded := (throughout_run h).bounded 0
  rw [posts, hlog] at hbounded
  exact absurd hbounded (by decide)

end Sample

end Suban.Indexer.Deliveries

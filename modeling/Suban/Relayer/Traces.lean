import Suban.Relayer.Completeness
import Suban.Relayer.Redelivery
import Suban.Relayer.Transfers

namespace Suban.Relayer.Traces

open Suban.Basis.Calls Suban.Basis.Numbers Suban.Basis.Tables Suban.Evm.Host
open Suban.Relayer.Stellar Suban.Relayer.Completeness Suban.Relayer.Processor
open Suban.Relayer.Published Suban.Relayer.Redelivery Suban.Relayer.TxBuilder
open Suban.Relayer.Transfers

variable {Address W B : Type} [DecidableEq Address] {contract : Address}
variable {D : Setup Address W B} {s t : Network Address W B}

def publishedEvents (s : Network Address W B) : List Published :=
  s.chain.events.map RpcEvent.toPublished ++ s.pending

/-- What the bridge has published adds up to what was burned. -/
structure Booked (s : Network Address W B) : Prop where
  books : ((publishedEvents s).map directed).sum = s.stellar.burned "arc"
  nonneg : ∀ p ∈ publishedEvents s, 0 ≤ directed p

/-- Each mint goes back to a burn that was published, and no two to the same. -/
structure Linked (s : Network Address W B) : Prop where
  emitted : ∀ b ∈ s.watcher.emitted, b ∈ burns s.chain
  attempts : ∀ a ∈ s.processor.attempts, a.burn ∈ s.watcher.emitted
  sole : (s.mints.map Prod.fst).Nodup
  mints : ∀ m ∈ s.mints, m.1 ∈ s.watcher.emitted ∧
    ∃ n, bigInt m.1.amount = some n ∧ (m.2.toNat : Int) ≤ n

def burnedFor : Transfers.Input Address W B contract → Option String
  | .stellar _ i => burnsFor i
  | _ => none

def minedFor : Transfers.Input Address W B contract → Option StellarBurnEvent
  | .mine event _ => some event
  | _ => none

def closedBy : Stellar.Input → List Published
  | .close published => published
  | _ => []

theorem poll_step {limit : Nat} {u v : Watch} {i : Stellar.Input}
    (h : Stellar.step limit u i = .ok v) :
    ∃ added new, v.chain.events = u.chain.events ++ added ∧
      added.map RpcEvent.toPublished = closedBy i ∧
      v.watcher.emitted = u.watcher.emitted ++ new ∧ ∀ b ∈ new, b ∈ burns v.chain := by
  cases i with
  | close published =>
    cases h
    refine ⟨u.chain.added published, [], rfl, ?_, (List.append_nil _).symm, by simp⟩
    rw [Chain.added, List.map_map]
    exact List.map_id _
  | getLatestLedger =>
    simp only [Stellar.step] at h
    split at h
    next =>
      cases h
      refine ⟨[], [], (List.append_nil _).symm, rfl, ?_, by simp⟩
      rw [List.append_nil, checkForEvents]
      split <;> rfl
    next => cases h
  | getEvents =>
    simp only [Stellar.step] at h
    split at h
    next => cases h
    next current hpolling =>
      cases h
      refine ⟨[], _, (List.append_nil _).symm, rfl, rfl, ?_⟩
      intro b hb
      obtain ⟨e, he, hparse⟩ := List.mem_filterMap.mp hb
      have hmem := List.mem_of_mem_filter (List.mem_of_mem_take he)
      exact List.mem_filterMap.mpr ⟨e, hmem, hparse⟩

theorem attempts_processStellarBurn {p : EventProcessor StellarBurnEvent}
    {event : StellarBurnEvent} {a : Attempt StellarBurnEvent}
    (ha : a ∈ (processStellarBurn p event event).attempts) : a ∈ p.attempts ∨ a.burn = event := by
  unfold processStellarBurn processBurn at ha
  split at ha
  next => exact .inl ha
  next =>
    obtain ha | ha := List.mem_append.mp ha
    · exact .inl ha
    · rw [List.mem_singleton.mp ha]
      exact .inr rfl

theorem attempts_foldl {l : List StellarBurnEvent} {p : EventProcessor StellarBurnEvent}
    {a : Attempt StellarBurnEvent}
    (ha : a ∈ (l.foldl (fun p event => processStellarBurn p event event) p).attempts) :
    a ∈ p.attempts ∨ a.burn ∈ l := by
  induction l generalizing p with
  | nil => exact .inl ha
  | cons event l ih =>
    obtain ha | ha := ih ha
    · obtain ha | rfl := attempts_processStellarBurn ha
      · exact .inl ha
      · exact .inr List.mem_cons_self
    · exact .inr (List.mem_cons_of_mem _ ha)

theorem attempts_settle {β : Type} {parsed : β → BurnEvent} {p q : EventProcessor β} {k : Nat}
    {result : Result} (h : settle parsed p k result = .ok q) {a : Attempt β}
    (ha : a ∈ q.attempts) : ∃ b ∈ p.attempts, b.burn = a.burn := by
  obtain ⟨burn, _, hk, -, -, hattempts⟩ := settle_ok h
  rw [hattempts] at ha
  obtain ha | rfl := List.mem_or_eq_of_mem_set ha
  · exact ⟨a, ha, rfl⟩
  · exact ⟨_, List.mem_of_getElem? hk, rfl⟩

inductive Transition (D : Setup Address W B) (s : Network Address W B) :
    Transfers.Input Address W B contract → Network Address W B → Prop where
  | stellar (txHash : String)
      (i : Soroban.Host.Input Address W contract (BridgeBurnMint.Contract.Call Address))
      (u : BridgeBurnMint.Contract.Storage Address W)
      (h : BridgeBurnMint.Contract.step D.stellarAsset s.stellar i = .ok u) :
      Transition D s (.stellar txHash i) { s with
        stellar := u
        pending := s.pending ++
          (u.events.drop s.stellar.events.length).map (published D.strkey txHash) }
  | watch (i : Transfers.Input Address W B contract) (w : Watch) (pending : List Published)
      (added : List RpcEvent) (new : List StellarBurnEvent) (hi : minedFor i = none)
      (hpending : s.pending = added.map RpcEvent.toPublished ++ pending)
      (hchain : w.chain.events = s.chain.events ++ added)
      (hemitted : w.watcher.emitted = s.watcher.emitted ++ new)
      (hnew : ∀ b ∈ new, b ∈ burns w.chain) :
      Transition D s i { s with
        pending := pending
        chain := w.chain
        watcher := w.watcher
        processor := new.foldl (fun p event => processStellarBurn p event event) s.processor }
  | mine (event : StellarBurnEvent) (timestamp : Word) (a : MintArguments)
      (arc : ArcBridge.Contract.Bridge B) (hattempt : event ∈ s.processor.attempts.map Attempt.burn)
      (hnew : event ∉ s.mints.map Prod.fst)
      (ha : buildArcMint D.crypto D.wallet D.fees event (stellarToEvmAddress D event.sender) =
        some a) :
      Transition D s (.mine event timestamp)
        { s with arc := arc, mints := s.mints ++ [(event, a.amount)] }
  | settle (k : Nat) (result : Result) (p : EventProcessor StellarBurnEvent)
      (h : settle .stellar s.processor k result = .ok p) :
      Transition D s (.settle k result) { s with processor := p }
  | arc (i : ArcBridge.Contract.Input B) (arc : ArcBridge.Contract.Bridge B) :
      Transition D s (.arc i) { s with arc := arc }

theorem watch_transition {i : Transfers.Input Address W B contract} {j : Stellar.Input}
    {pending : List Published} (hi : minedFor i = none)
    (hpending : s.pending = closedBy j ++ pending) (h : watch D s j pending = .ok t) :
    Transition D s i t := by
  simp only [watch, bind_eq_ok, lift_eq_ok, pure_eq_ok] at h
  obtain ⟨w, hw, rfl⟩ := h
  obtain ⟨added, new, hchain, hadded, hemitted, hnew⟩ := poll_step hw
  rw [hemitted, List.drop_left]
  rw [← hadded] at hpending
  exact .watch i w pending added new hi hpending hchain hemitted hnew

theorem step_transition {i : Transfers.Input Address W B contract}
    (h : Transfers.step D s i = .ok t) : Transition D s i t := by
  cases i with
  | stellar txHash i =>
    simp only [Transfers.step, invokeStellar, bind_eq_ok, lift_eq_ok, pure_eq_ok] at h
    obtain ⟨u, hu, rfl⟩ := h
    exact .stellar txHash i u hu
  | close => exact watch_transition rfl (List.append_nil _).symm h
  | getLatestLedger => exact watch_transition rfl rfl h
  | getEvents => exact watch_transition rfl rfl h
  | mine event timestamp =>
    simp only [Transfers.step, mine, bind_eq_ok, rejectIf_eq_ok, unwrap_eq_ok, pure_eq_ok,
      not_not] at h
    obtain ⟨_, hattempt, _, hnew, a, ha, arc, -, rfl⟩ := h
    exact .mine event timestamp a arc hattempt hnew ha
  | settle k result =>
    simp only [Transfers.step, bind_eq_ok, lift_eq_ok, pure_eq_ok] at h
    obtain ⟨p, hp, rfl⟩ := h
    exact .settle k result p hp
  | arc i =>
    simp only [Transfers.step, invokeArc, bind_eq_ok, pure_eq_ok] at h
    obtain ⟨_, -, arc, -, rfl⟩ := h
    exact .arc i arc

/-- The step publishes these events, which are what is burned in it. -/
structure Publishes (D : Setup Address W B) (s : Network Address W B)
    (i : Transfers.Input Address W B contract) (t : Network Address W B) (txHash : String)
    (events : List (BridgeBurnMint.Contract.Event Address)) : Prop where
  appended : publishedEvents t = publishedEvents s ++ events.map (published D.strkey txHash)
  burned : t.stellar.burned "arc" = s.stellar.burned "arc" + (events.map (burnedBy "arc")).sum
  asked : ∀ e ∈ events, 0 ≤ burnedBy "arc" e ∧
    ∀ destination, destinationOf e = some destination → burnedFor i = some destination

theorem publishes_nothing {i : Transfers.Input Address W B contract}
    (hpublished : publishedEvents t = publishedEvents s) (hstellar : t.stellar = s.stellar) :
    Publishes D s i t "" [] where
  appended := by rw [hpublished, List.map_nil, List.append_nil]
  burned := by rw [hstellar, List.map_nil, List.sum_nil, add_zero]
  asked := by simp

theorem published_step {i : Transfers.Input Address W B contract}
    (h : Transfers.step D s i = .ok t) : ∃ txHash events, Publishes D s i t txHash events := by
  have hsame (hpublished : publishedEvents t = publishedEvents s)
      (hstellar : t.stellar = s.stellar) : ∃ txHash events, Publishes D s i t txHash events :=
    ⟨"", [], publishes_nothing hpublished hstellar⟩
  cases step_transition h with
  | stellar txHash i u hu =>
    obtain ⟨events, hevents, hburned, hnew⟩ := events_step hu "arc"
    refine ⟨txHash, events, ?_, hburned, hnew⟩
    dsimp only [publishedEvents]
    rw [hevents, List.drop_left, List.append_assoc]
  | watch i w pending added new hi hpending hchain =>
    refine hsame ?_ rfl
    dsimp only [publishedEvents]
    rw [hchain, List.map_append, List.append_assoc, ← hpending]
  | _ => exact hsame rfl rfl

theorem booked_step {i : Transfers.Input Address W B contract} (hs : Booked s)
    (h : Transfers.step D s i = .ok t) : Booked t := by
  obtain ⟨txHash, events, hpublished, hburned, hnew⟩ := published_step h
  have hdirected : events.map (directed ∘ published D.strkey txHash) =
      events.map (burnedBy "arc") :=
    List.map_congr_left fun e _ => directed_published D.strkey txHash e
  refine ⟨?_, ?_⟩
  · rw [hpublished, List.map_append, List.sum_append, List.map_map, hdirected, hburned, hs.books]
  · rw [hpublished]
    refine List.forall_mem_append.mpr ⟨hs.nonneg, ?_⟩
    intro p hp
    obtain ⟨e, he, rfl⟩ := List.mem_map.mp hp
    rw [directed_published]
    exact (hnew e he).1

theorem linked_watch {w : Watch} {pending : List Published} {added : List RpcEvent}
    {new : List StellarBurnEvent} (hs : Linked s)
    (hchain : w.chain.events = s.chain.events ++ added)
    (hemitted : w.watcher.emitted = s.watcher.emitted ++ new)
    (hnew : ∀ b ∈ new, b ∈ burns w.chain) :
    Linked { s with
      pending := pending
      chain := w.chain
      watcher := w.watcher
      processor := new.foldl (fun p event => processStellarBurn p event event) s.processor } := by
  have hgrow : ∀ b ∈ burns s.chain, b ∈ burns w.chain := by
    intro b hb
    rw [burns, hchain, List.filterMap_append]
    exact List.mem_append_left _ hb
  have hkeep : ∀ b ∈ s.watcher.emitted, b ∈ w.watcher.emitted := by
    intro b hb
    rw [hemitted]
    exact List.mem_append_left _ hb
  refine ⟨?_, ?_, hs.sole, fun m hm => (hs.mints m hm).imp (hkeep _) id⟩
  · dsimp only
    rw [hemitted]
    exact List.forall_mem_append.mpr ⟨fun b hb => hgrow b (hs.emitted b hb), hnew⟩
  · intro a ha
    obtain ha | ha := attempts_foldl ha
    · exact hkeep _ (hs.attempts a ha)
    · dsimp only
      rw [hemitted]
      exact List.mem_append_right _ ha

theorem linked_step {i : Transfers.Input Address W B contract} (hs : Linked s)
    (h : Transfers.step D s i = .ok t) : Linked t := by
  cases step_transition h with
  | watch i w pending added new hi hpending hchain hemitted hnew =>
    exact linked_watch hs hchain hemitted hnew
  | mine event timestamp a arc hattempt hnew ha =>
    obtain ⟨b, hb, rfl⟩ := List.mem_map.mp hattempt
    refine ⟨hs.emitted, hs.attempts, ?_, ?_⟩
    · dsimp only
      rw [List.map_append, List.map_singleton, List.nodup_append_comm, List.singleton_append]
      exact List.nodup_cons.mpr ⟨hnew, hs.sole⟩
    · refine List.forall_mem_append.mpr ⟨hs.mints, ?_⟩
      intro m hm
      cases List.mem_singleton.mp hm
      exact ⟨hs.attempts b hb, amount_le ha⟩
  | settle k result p hp =>
    refine ⟨hs.emitted, ?_, hs.sole, hs.mints⟩
    intro a ha
    obtain ⟨b, hb, hsame⟩ := attempts_settle hp ha
    exact hsame ▸ hs.attempts b hb
  | _ => exact ⟨hs.emitted, hs.attempts, hs.sole, hs.mints⟩

theorem mints_step {i : Transfers.Input Address W B contract} (h : Transfers.step D s i = .ok t) :
    t.mints.map Prod.fst = s.mints.map Prod.fst ++ (minedFor i).toList := by
  cases step_transition h with
  | watch i w pending added new hi =>
    rw [hi]
    exact (List.append_nil _).symm
  | mine event timestamp a arc hattempt hnew ha => exact List.map_append
  | _ => exact (List.append_nil _).symm

section Launched

variable {env : Soroban.Host.Env Address contract} {admin pusdToken : Address}
variable {signers : List Address} {threshold volumeWindowLedgers : Nat} {volumeCap : Int} {w : W}
variable {stellar : BridgeBurnMint.Contract.Storage Address W}

theorem initialise_eq_ok
    (h : BridgeBurnMint.Contract.initialise env (.fresh w) admin signers threshold pusdToken
      volumeCap volumeWindowLedgers = .ok stellar) :
    stellar.chainBurned = ∅ ∧ stellar.events = [.init admin threshold signers.length] := by
  simp only [BridgeBurnMint.Contract.initialise, bind_eq_ok, panicIf_eq_ok, pure_eq_ok] at h
  obtain ⟨_, -, _, -, _, -, rfl⟩ := h
  exact ⟨rfl, rfl⟩

theorem linked_launch (stellar : BridgeBurnMint.Contract.Storage Address W)
    (arc : ArcBridge.Contract.Bridge B) (txHash : String) (latest fromLedger : Nat) :
    Linked (launch D stellar arc txHash latest fromLedger) where
  emitted := by simp [launch, start]
  attempts := by simp [launch, EventProcessor.fresh]
  sole := List.nodup_nil
  mints := by simp [launch]

theorem published_launch
    (h : BridgeBurnMint.Contract.initialise env (.fresh w) admin signers threshold pusdToken
      volumeCap volumeWindowLedgers = .ok stellar)
    (arc : ArcBridge.Contract.Bridge B) (txHash : String) (latest fromLedger : Nat) :
    publishedEvents (launch D stellar arc txHash latest fromLedger) =
      [published D.strkey txHash (.init admin threshold signers.length)] := by
  simp [publishedEvents, launch, Chain.empty, (initialise_eq_ok h).2]

theorem booked_launch
    (h : BridgeBurnMint.Contract.initialise env (.fresh w) admin signers threshold pusdToken
      volumeCap volumeWindowLedgers = .ok stellar)
    (arc : ArcBridge.Contract.Bridge B) (txHash : String) (latest fromLedger : Nat) :
    Booked (launch D stellar arc txHash latest fromLedger) := by
  have hburned : stellar.burned "arc" = 0 := by
    rw [BridgeBurnMint.Contract.Storage.burned, (initialise_eq_ok h).1, readOr_empty]
  refine ⟨?_, ?_⟩
  · rw [published_launch h, List.map_singleton, List.sum_singleton, directed_published]
    exact hburned.symm
  · rw [published_launch h]
    intro p hp
    rw [List.mem_singleton.mp hp, directed_published]
    exact le_rfl

end Launched

end Suban.Relayer.Traces

import Mathlib.Logic.Relation
import Suban.Basis.Runs

namespace Suban.Basis.Routines

open Suban.Basis.Runs

/-- An asynchronous routine. A statement is carried out on a store at once. For
the reply to a request the routine waits, and the store is not its own until it
is there. -/
inductive Routine {S Q : Type} (A : S → Type) (R : Q → Type) (α : Type) where
  | done (a : α)
  | issue (c : S) (k : A c → Routine A R α)
  | await (q : Q) (k : R q → Routine A R α)

variable {S Q σ α β : Type} {A : S → Type} {R : Q → Type}

namespace Routine

def bind : Routine A R α → (α → Routine A R β) → Routine A R β
  | .done a, f => f a
  | .issue c k, f => .issue c (fun a => (k a).bind f)
  | .await q k, f => .await q (fun x => (k x).bind f)

instance : Monad (Routine A R) where
  pure := .done
  bind := bind

end Routine

def perform (c : S) : Routine A R (A c) := .issue c .done

def request (q : Q) : Routine A R (R q) := .await q .done

/-- A routine as a part of a bigger one, with its statements and requests among
those of the bigger one. A request may fail there. -/
structure Part {S' Q' : Type} (A : S → Type) (R : Q → Type) (A' : S' → Type) (R' : Q' → Type) where
  statement : S → S'
  answer (c : S) : A' (statement c) → A c
  request : Q → Q'
  reply (q : Q) : R' (request q) → Option (R q)

/-- A request that fails ends the part early. -/
def attempt {S' Q' : Type} {A' : S' → Type} {R' : Q' → Type} (e : Part A R A' R') :
    Routine A R α → Routine A' R' (Option α)
  | .done a => .done (some a)
  | .issue c k => .issue (e.statement c) fun a => attempt e (k (e.answer c a))
  | .await q k => .await (e.request q) fun x =>
    match e.reply q x with
    | some y => attempt e (k y)
    | none => .done none

/-- A process with one routine and a store that outlives it. -/
structure Process (A : S → Type) (R : Q → Type) (σ : Type) where
  store : σ
  routine : Routine A R Unit

/-- A process goes on by itself, gets a reply or an error to its request, lets
somebody else write to the store while it waits, or is stopped at any time and
started again. -/
inductive Input (S : Type) (R : Q → Type) where
  | tick
  | reply (server : ∀ q, R q)
  | fail
  | other (c : S)
  | restart

/-- What statements do to the store, and what is noted of replies. -/
structure Store (A : S → Type) (R : Q → Type) (σ : Type) where
  exec (c : S) : σ → A c × σ
  hear (q : Q) : R q → σ → σ

variable (D : Store A R σ) (main : Routine A R Unit)

/-- A routine that is done is run again. An error ends it early. -/
def step (p : Process A R σ) : Input S R → Except Unit (Process A R σ)
  | .tick =>
    match p.routine with
    | .issue c k => .ok ⟨(D.exec c p.store).2, k (D.exec c p.store).1⟩
    | .done _ => .ok ⟨p.store, main⟩
    | .await _ _ => .error ()
  | .reply server =>
    match p.routine with
    | .await q k => .ok ⟨D.hear q (server q) p.store, k (server q)⟩
    | _ => .error ()
  | .fail =>
    match p.routine with
    | .await _ _ => .ok ⟨p.store, .done ()⟩
    | _ => .error ()
  | .other c =>
    match p.routine with
    | .issue _ _ => .error ()
    | r => .ok ⟨(D.exec c p.store).2, r⟩
  | .restart => .ok ⟨p.store, main⟩

/-- What is known of the store at each place of a routine, and what is known of
the others: `atRest` holds while the routine waits or is done, `before` holds
when a statement is about to be carried out. -/
structure Outline (S : Type) (R : Q → Type) (σ : Type) where
  atRest : σ → Prop
  before (c : S) : σ → Prop
  valid (q : Q) : R q → Prop
  allowed : S → Prop

variable (L : Outline S R σ)

def Others (s t : σ) : Prop :=
  Relation.ReflTransGen (fun u v => ∃ c, L.allowed c ∧ v = (D.exec c u).2) s t

/-- From this store on the routine keeps to the outline, whatever the others do
while it waits, and ends in the postcondition. -/
def Safe (post : α → σ → Prop) : Routine A R α → σ → Prop
  | .done a, s => post a s
  | .issue c k, s => L.before c s ∧ Safe post (k (D.exec c s).1) (D.exec c s).2
  | .await q k, s => L.atRest s ∧
      ∀ t, Others D L s t → ∀ x, L.valid q x → Safe post (k x) (D.hear q x t)

variable {D main L}

theorem safe_mono {post post' : α → σ → Prop} (hpost : ∀ a s, post a s → post' a s)
    {r : Routine A R α} {s : σ} (h : Safe D L post r s) : Safe D L post' r s := by
  induction r generalizing s with
  | done a => exact hpost a s h
  | issue c k ih => exact ⟨h.1, ih _ h.2⟩
  | await q k ih => exact ⟨h.1, fun t ht x hx => ih x (h.2 t ht x hx)⟩

theorem safe_bind {post : β → σ → Prop} {f : α → Routine A R β} {r : Routine A R α} {s : σ}
    (h : Safe D L (fun a t => Safe D L post (f a) t) r s) : Safe D L post (r >>= f) s := by
  induction r generalizing s with
  | done a => exact h
  | issue c k ih => exact ⟨h.1, ih _ h.2⟩
  | await q k ih => exact ⟨h.1, fun t ht x hx => ih x (h.2 t ht x hx)⟩

theorem safe_perform {post : β → σ → Prop} {c : S} {f : A c → Routine A R β} {s : σ}
    (hs : L.before c s) (h : Safe D L post (f (D.exec c s).1) (D.exec c s).2) :
    Safe D L post (perform c >>= f) s :=
  safe_bind ⟨hs, h⟩

theorem safe_request {post : β → σ → Prop} {q : Q} {f : R q → Routine A R β} {s : σ}
    (hs : L.atRest s)
    (h : ∀ t, Others D L s t → ∀ x, L.valid q x → Safe D L post (f x) (D.hear q x t)) :
    Safe D L post (request q >>= f) s :=
  safe_bind ⟨hs, h⟩

theorem Others.keeps {P : σ → Prop} {s t : σ} (h : Others D L s t) (hs : P s)
    (hkeep : ∀ c u, L.allowed c → P u → P (D.exec c u).2) : P t := by
  induction h with
  | refl => exact hs
  | tail _ hstep ih =>
    obtain ⟨c, hc, rfl⟩ := hstep
    exact hkeep c _ hc ih

/-- A relation in which the others keep the store, from one rest to the next. -/
structure Frame (D : Store A R σ) (L : Outline S R σ) (G : σ → σ → Prop) : Prop where
  refl (s : σ) : G s s
  trans {s t u : σ} : G s t → G t u → G s u
  rest (c : S) (s : σ) : L.atRest s → L.before c s
  others (c : S) (s : σ) : L.allowed c → L.atRest s →
    L.atRest (D.exec c s).2 ∧ G s (D.exec c s).2

/-- A routine that does no more to the store than the others may do. -/
def Keeps (D : Store A R σ) (L : Outline S R σ) (G : σ → σ → Prop) (r : Routine A R α) : Prop :=
  ∀ s, L.atRest s → Safe D L (fun _ t => L.atRest t ∧ G s t) r s

section Frames

variable {G : σ → σ → Prop} {post : β → σ → Prop} {f : α → Routine A R β} {r : Routine A R α}
variable {s t : σ}

theorem Frame.interfere (hframe : Frame D L G) (h : Others D L s t) (hs : L.atRest s) :
    L.atRest t ∧ G s t := by
  refine h.keeps (P := fun u => L.atRest u ∧ G s u) ⟨hs, hframe.refl s⟩ ?_
  intro c u hc hu
  obtain ⟨hrest, hg⟩ := hframe.others c u hc hu.1
  exact ⟨hrest, hframe.trans hu.2 hg⟩

theorem Frame.done (hframe : Frame D L G) (a : α) : Keeps D L G (pure a : Routine A R α) :=
  fun s hs => ⟨hs, hframe.refl s⟩

theorem Frame.perform (hframe : Frame D L G) {c : S} (hc : L.allowed c) :
    Keeps D L G (perform c) :=
  fun s hs => ⟨hframe.rest c s hs, hframe.others c s hc hs⟩

/-- The rule for a routine that keeps the frame, and what follows it. -/
theorem Keeps.safe_bind (h : Keeps D L G r) (hs : L.atRest s)
    (hf : ∀ a t, L.atRest t → G s t → Safe D L post (f a) t) : Safe D L post (r >>= f) s :=
  Routines.safe_bind (safe_mono (fun a t ht => hf a t ht.1 ht.2) (h s hs))

theorem Keeps.safe {post : α → σ → Prop} (h : Keeps D L G r) (hs : L.atRest s)
    (hpost : ∀ a t, L.atRest t → G s t → post a t) : Safe D L post r s :=
  safe_mono (fun a t ht => hpost a t ht.1 ht.2) (h s hs)

theorem Frame.bind (hframe : Frame D L G) (h : Keeps D L G r) (hf : ∀ a, Keeps D L G (f a)) :
    Keeps D L G (r >>= f) := by
  intro s hs
  refine h.safe_bind hs fun a t ht hst => (hf a).safe ht fun _ u hu htu => ?_
  exact ⟨hu, hframe.trans hst htu⟩

/-- The rule for a request. Meanwhile the others may have been at work. -/
theorem Frame.safe_request (hframe : Frame D L G) {q : Q} {f : R q → Routine A R β}
    (hs : L.atRest s)
    (h : ∀ t, L.atRest t → G s t → ∀ x, L.valid q x → Safe D L post (f x) (D.hear q x t)) :
    Safe D L post (request q >>= f) s := by
  refine Routines.safe_request hs fun t hst x hx => ?_
  obtain ⟨ht, hg⟩ := hframe.interfere hst hs
  exact h t ht hg x hx

theorem Frame.request (hframe : Frame D L G) {q : Q} (hhear : ∀ x s, D.hear q x s = s) :
    Keeps D L G (request q : Routine A R (R q)) := by
  refine fun s hs => ⟨hs, fun t hst x _ => ?_⟩
  rw [hhear]
  exact hframe.interfere hst hs

end Frames

section Parts

variable {S' Q' : Type} {A' : S' → Type} {R' : Q' → Type} {e : Part A R A' R'}
variable {D' : Store A' R' σ} {L' : Outline S' R' σ} {post : Option α → σ → Prop}

/-- The rule for a part, which may have an outline of its own. -/
theorem safe_attempt
    (hexec : ∀ c s, D.exec c s =
      (e.answer c (D'.exec (e.statement c) s).1, (D'.exec (e.statement c) s).2))
    (hhear : ∀ q x y s, e.reply q x = some y → D'.hear (e.request q) x s = D.hear q y s)
    (hrest : ∀ s, L.atRest s → L'.atRest s)
    (hbefore : ∀ c s, L.before c s → L'.before (e.statement c) s)
    (hothers : ∀ s t, Others D' L' s t → Others D L s t)
    (hvalid : ∀ q x y, e.reply q x = some y → L'.valid (e.request q) x → L.valid q y)
    (hfail : ∀ q x s t, L.atRest s → Others D L s t → e.reply q x = none →
      post none (D'.hear (e.request q) x t))
    {r : Routine A R α} {s : σ} (h : Safe D L (fun a => post (some a)) r s) :
    Safe D' L' post (attempt e r) s := by
  induction r generalizing s with
  | done a => exact h
  | issue c k ih =>
    obtain ⟨hs, hk⟩ := h
    rw [hexec] at hk
    exact ⟨hbefore c s hs, ih _ hk⟩
  | await q k ih =>
    obtain ⟨hs, hk⟩ := h
    rw [attempt]
    refine ⟨hrest s hs, fun t hst x hx => ?_⟩
    have hst' := hothers s t hst
    cases hreply : e.reply q x with
    | none =>
      simp only [hreply]
      exact hfail q x s t hs hst' hreply
    | some y =>
      simp only [hreply, hhear q x y t hreply]
      exact ih y (hk t hst' y (hvalid q x y hreply hx))

end Parts

def Replies (V : ∀ q, R q → Prop) (p : Process A R σ) : Input S R → Prop
  | .reply server => ∀ q k, p.routine = .await q k → V q (server q)
  | _ => True

def OthersKeep (O : S → Prop) (_ : Process A R σ) : Input S R → Prop
  | .other c => O c
  | _ => True

section Finishing

variable (D) (server : ∀ q, R q)

/-- The routine run to its end by one server, with nobody else about. -/
def finish : Routine A R α → σ → α × σ
  | .done a, s => (a, s)
  | .issue c k, s => finish (k (D.exec c s).1) (D.exec c s).2
  | .await q k, s => finish (k (server q)) (D.hear q (server q) s)

theorem finish_bind (f : α → Routine A R β) (r : Routine A R α) (s : σ) :
    finish D server (r >>= f) s =
      finish D server (f (finish D server r s).1) (finish D server r s).2 := by
  induction r generalizing s with
  | done a => rfl
  | issue c k ih => exact ih _ _
  | await q k ih => exact ih _ _

theorem finish_of_safe {post : α → σ → Prop} (hserver : ∀ q, L.valid q (server q))
    {r : Routine A R α} {s : σ} (h : Safe D L post r s) :
    post (finish D server r s).1 (finish D server r s).2 := by
  induction r generalizing s with
  | done a => exact h
  | issue c k ih => exact ih _ h.2
  | await q k ih => exact ih _ (h.2 s .refl _ (hserver q))

def Alone (server : ∀ q, R q) (i : Input S R) : Prop :=
  i = .tick ∨ i = .reply server ∨ i = .restart

variable {D server} {is : List (Input S R)} {p : Process A R σ}

theorem Alone.replies {V : ∀ q, R q → Prop} (hserver : ∀ q, V q (server q))
    (h : ∀ i ∈ is, Alone server i) : Along (step D main) (Replies V) p is := by
  refine along_of_forall (fun i hi p => ?_) p
  obtain rfl | rfl | rfl := h i hi
  · trivial
  · exact fun q _ _ => hserver q
  · trivial

theorem Alone.othersKeep {O : S → Prop} (h : ∀ i ∈ is, Alone server i) :
    Along (step D main) (OthersKeep O) p is := by
  refine along_of_forall (fun i hi p => ?_) p
  obtain rfl | rfl | rfl := h i hi <;> trivial

variable (D main server)

theorem exists_run_finish (r : Routine A R Unit) (s : σ) :
    ∃ is : List (Input S R), (∀ i ∈ is, Alone server i) ∧
      run (step D main) ⟨s, r⟩ is = ⟨(finish D server r s).2, .done ()⟩ := by
  induction r generalizing s with
  | done a => exact ⟨[], by simp, rfl⟩
  | issue c k ih =>
    obtain ⟨is, his, hrun⟩ := ih (D.exec c s).1 (D.exec c s).2
    exact ⟨.tick :: is, List.forall_mem_cons.mpr ⟨.inl rfl, his⟩, hrun⟩
  | await q k ih =>
    obtain ⟨is, his, hrun⟩ := ih (server q) (D.hear q (server q) s)
    exact ⟨.reply server :: is, List.forall_mem_cons.mpr ⟨.inr (.inl rfl), his⟩, hrun⟩

end Finishing

section Processes

def Outlined (L : Outline S R σ) (p : Process A R σ) : Prop :=
  match p.routine with
  | .issue c _ => L.before c p.store
  | _ => L.atRest p.store

def SafeProcess (D : Store A R σ) (L : Outline S R σ) (p : Process A R σ) : Prop :=
  Safe D L (fun _ => L.atRest) p.routine p.store

theorem replies_and {V W : ∀ q, R q → Prop} {p : Process A R σ} {i : Input S R} :
    Replies (fun q x => V q x ∧ W q x) p i ↔ Replies V p i ∧ Replies W p i := by
  cases i <;> simp [Replies, forall_and]

/-- The process is not stopped before a statement unless the condition holds. -/
def StopsWhere (C : S → σ → Prop) (p : Process A R σ) : Input S R → Prop
  | .restart => ∀ c k, p.routine = .issue c k → C c p.store
  | _ => True

theorem outlined_of_safe {p : Process A R σ} (h : SafeProcess D L p) : Outlined L p := by
  obtain ⟨s, r⟩ := p
  cases r with
  | done a => exact h
  | issue c k => exact h.1
  | await q k => exact h.1

section Stopping

variable {C : S → σ → Prop} {K : Process A R σ → Prop}

/-- One step of a process that keeps to its outline. Only where it is stopped
can it leave it, and lose the property that the outline stands for. -/
theorem outlined_step {p p' : Process A R σ} {i : Input S R}
    (hmain : ∀ s, L.atRest s → Safe D L (fun _ => L.atRest) main s)
    (hK : ∀ p, Outlined L p → K p)
    (hstart : ∀ c s, L.before c s → K ⟨s, main⟩ → L.atRest s)
    (hothers : ∀ c s, L.allowed c → L.atRest s → L.atRest (D.exec c s).2)
    (hstop : ∀ c s, L.before c s → (L.atRest s ↔ C c s))
    (hp : SafeProcess D L p) (hreply : Replies L.valid p i) (hother : OthersKeep L.allowed p i)
    (h : step D main p i = .ok p') :
    (K p' ↔ StopsWhere C p i) ∧ (K p' → SafeProcess D L p') := by
  have hsafe (hp' : SafeProcess D L p') (hC : StopsWhere C p i) :
      (K p' ↔ StopsWhere C p i) ∧ (K p' → SafeProcess D L p') :=
    ⟨iff_of_true (hK p' (outlined_of_safe hp')) hC, fun _ => hp'⟩
  obtain ⟨s, r⟩ := p
  cases i with
  | tick =>
    cases r with
    | done a =>
      cases h
      exact hsafe (hmain s hp) trivial
    | issue c k =>
      cases h
      exact hsafe hp.2 trivial
    | await q k => cases h
  | reply server =>
    cases r with
    | await q k =>
      cases h
      exact hsafe (hp.2 s .refl _ (hreply q k rfl)) trivial
    | done | issue => cases h
  | fail =>
    cases r with
    | await q k =>
      cases h
      exact hsafe hp.1 trivial
    | done | issue => cases h
  | other c =>
    cases r with
    | done a =>
      cases h
      exact hsafe (hothers c s hother hp) trivial
    | await q k =>
      cases h
      refine hsafe ⟨hothers c s hother hp.1, fun t ht => hp.2 t ?_⟩ trivial
      exact .head ⟨c, hother, rfl⟩ ht
    | issue => cases h
  | restart =>
    cases h
    cases r with
    | done a => exact hsafe (hmain s hp) (fun _ _ hr => by cases hr)
    | await q k => exact hsafe (hmain s hp.1) (fun _ _ hr => by cases hr)
    | issue c k =>
      refine ⟨⟨?_, ?_⟩, fun hrest => hmain s (hstart c s hp.1 hrest)⟩
      · rintro hrest c' k' hr
        cases hr
        exact (hstop c s hp.1).mp (hstart c s hp.1 hrest)
      · intro hC
        exact hK _ (outlined_of_safe (hmain s ((hstop c s hp.1).mpr (hC c k rfl))))

/-- In a run whose others keep to the rules, a process keeps the property
exactly when it is only ever stopped where the condition holds. -/
theorem throughout_iff_stopsWhere
    (hmain : ∀ s, L.atRest s → Safe D L (fun _ => L.atRest) main s)
    (hK : ∀ p, Outlined L p → K p)
    (hstart : ∀ c s, L.before c s → K ⟨s, main⟩ → L.atRest s)
    (hothers : ∀ c s, L.allowed c → L.atRest s → L.atRest (D.exec c s).2)
    (hstop : ∀ c s, L.before c s → (L.atRest s ↔ C c s)) {s : σ} (hs : L.atRest s)
    {is : List (Input S R)} (hreplies : Along (step D main) (Replies L.valid) ⟨s, main⟩ is)
    (hkeep : Along (step D main) (OthersKeep L.allowed) ⟨s, main⟩ is) :
    Throughout (step D main) K ⟨s, main⟩ is ↔
      Along (step D main) (StopsWhere C) ⟨s, main⟩ is :=
  throughout_iff_along (J := SafeProcess D L)
    (fun _ _ _ hp _ hi h => outlined_step hmain hK hstart hothers hstop hp hi.1 hi.2 h)
    (hmain s hs) (hK _ (outlined_of_safe (hmain s hs))) (along_and.mpr ⟨hreplies, hkeep⟩)

/-- Where nothing depends on the place a process is stopped at, it keeps to its
outline in every such run. -/
theorem throughout_of_outline
    (hmain : ∀ s, L.atRest s → Safe D L (fun _ => L.atRest) main s)
    (hbefore : ∀ c s, L.before c s ↔ L.atRest s)
    (hothers : ∀ c s, L.allowed c → L.atRest s → L.atRest (D.exec c s).2) {s : σ}
    (hs : L.atRest s) {is : List (Input S R)}
    (hreplies : Along (step D main) (Replies L.valid) ⟨s, main⟩ is)
    (hkeep : Along (step D main) (OthersKeep L.allowed) ⟨s, main⟩ is) :
    Throughout (step D main) (fun p => L.atRest p.store) ⟨s, main⟩ is := by
  have hplain (p : Process A R σ) : Outlined L p → L.atRest p.store := by
    unfold Outlined
    split
    · exact (hbefore _ _).mp
    · exact id
  refine (throughout_iff_stopsWhere (C := fun _ _ => True) hmain hplain (fun _ _ _ => id) hothers
    (fun c s h => iff_of_true ((hbefore c s).mp h) trivial) hs hreplies hkeep).mpr ?_
  refine along_of_forall (fun i _ p => ?_) _
  cases i <;> simp [StopsWhere]

end Stopping

end Processes

end Suban.Basis.Routines

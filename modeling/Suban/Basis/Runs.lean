import Mathlib.Algebra.BigOperators.Group.List.Basic
import Mathlib.Tactic.Basic

namespace Suban.Basis.Runs

variable {σ ι δ : Type} (step : σ → ι → Except δ σ)

/-- The state after one call. A failing call is rolled back: it leaves the
state it found. -/
def next (s : σ) (i : ι) : σ :=
  match step s i with
  | .ok t => t
  | .error _ => s

def run (s : σ) (is : List ι) : σ := is.foldl (next step) s

/-- The property holds at the start of the run and in every state it reaches. -/
def Throughout (P : σ → Prop) : σ → List ι → Prop
  | s, [] => P s
  | s, i :: is => P s ∧ Throughout P (next step s i) is

/-- Every call of the run that is accepted satisfies the condition, in the
state it is made in. -/
def Along (C : σ → ι → Prop) : σ → List ι → Prop
  | _, [] => True
  | s, i :: is => (∀ t, step s i = .ok t → C s i) ∧ Along C (next step s i) is

def accepted : σ → List ι → List ι
  | _, [] => []
  | s, i :: is =>
    match step s i with
    | .ok t => i :: accepted t is
    | .error _ => accepted s is

/-- The accepted calls of the run, each between the states around it. -/
def history : σ → List ι → List (σ × ι × σ)
  | _, [] => []
  | s, i :: is =>
    match step s i with
    | .ok t => (s, i, t) :: history t is
    | .error _ => history s is

variable {step}

theorem next_ok {s t : σ} {i : ι} (h : step s i = .ok t) : next step s i = t := by
  simp [next, h]

theorem next_error {s : σ} {i : ι} {e : δ} (h : step s i = .error e) : next step s i = s := by
  simp [next, h]

theorem history_ok {s t : σ} {i : ι} (h : step s i = .ok t) (is : List ι) :
    history step s (i :: is) = (s, i, t) :: history step t is := by
  simp [history, h]

theorem history_error {s : σ} {i : ι} {e : δ} (h : step s i = .error e) (is : List ι) :
    history step s (i :: is) = history step s is := by
  simp [history, h]

theorem step_of_mem_history {s : σ} {is : List ι} {x : σ × ι × σ} (h : x ∈ history step s is) :
    step x.1 x.2.1 = .ok x.2.2 := by
  induction is generalizing s with
  | nil => cases h
  | cons i is ih =>
    cases hi : step s i with
    | error e =>
      rw [history_error hi] at h
      exact ih h
    | ok t =>
      rw [history_ok hi] at h
      obtain rfl | h := List.mem_cons.mp h
      · exact hi
      · exact ih h

/-- What an accepted call does from every state of a run holds of its history. -/
theorem forall_history {P : σ → Prop} {Q : σ × ι × σ → Prop}
    (hstep : ∀ s i t, P s → step s i = .ok t → Q (s, i, t)) {s : σ} {is : List ι}
    (h : Throughout step P s is) : ∀ x ∈ history step s is, Q x := by
  induction is generalizing s with
  | nil => exact fun _ hx => absurd hx List.not_mem_nil
  | cons i is ih =>
    have hrest := ih h.2
    cases hi : step s i with
    | error e =>
      rw [next_error hi] at hrest
      rw [history_error hi]
      exact hrest
    | ok t =>
      rw [next_ok hi] at hrest
      rw [history_ok hi]
      exact List.forall_mem_cons.mpr ⟨hstep s i t h.1 hi, hrest⟩

theorem accepted_ok {s t : σ} {i : ι} (h : step s i = .ok t) (is : List ι) :
    accepted step s (i :: is) = i :: accepted step t is := by
  simp [accepted, h]

theorem accepted_error {s : σ} {i : ι} {e : δ} (h : step s i = .error e) (is : List ι) :
    accepted step s (i :: is) = accepted step s is := by
  simp [accepted, h]

theorem run_ok {s t : σ} {i : ι} (h : step s i = .ok t) (is : List ι) :
    run step s (i :: is) = run step t is := by
  rw [run, List.foldl_cons, next_ok h]
  rfl

theorem run_error {s : σ} {i : ι} {e : δ} (h : step s i = .error e) (is : List ι) :
    run step s (i :: is) = run step s is := by
  rw [run, List.foldl_cons, next_error h]
  rfl

theorem run_append (s : σ) (is js : List ι) :
    run step s (is ++ js) = run step (run step s is) js :=
  List.foldl_append

theorem accepted_append (s : σ) (is js : List ι) :
    accepted step s (is ++ js) = accepted step s is ++ accepted step (run step s is) js := by
  induction is generalizing s with
  | nil => rfl
  | cons i is ih =>
    cases hi : step s i with
    | error e =>
      rw [List.cons_append, accepted_error hi, accepted_error hi, run_error hi]
      exact ih s
    | ok t =>
      rw [List.cons_append, accepted_ok hi, accepted_ok hi, run_ok hi, List.cons_append, ih]

theorem forall_accepted {Q : ι → Prop} (hstep : ∀ s i t, step s i = .ok t → Q i) (s : σ)
    (is : List ι) : ∀ i ∈ accepted step s is, Q i := by
  induction is generalizing s with
  | nil => exact fun _ hi => absurd hi List.not_mem_nil
  | cons i is ih =>
    cases hi : step s i with
    | error e =>
      rw [accepted_error hi]
      exact ih s
    | ok t =>
      rw [accepted_ok hi]
      exact List.forall_mem_cons.mpr ⟨hstep s i t hi, ih t⟩

theorem throughout_head {P : σ → Prop} {s : σ} {is : List ι} (h : Throughout step P s is) :
    P s := by
  cases is with
  | nil => exact h
  | cons i is => exact h.1

theorem throughout_run {P : σ → Prop} {s : σ} {is : List ι} (h : Throughout step P s is) :
    P (run step s is) := by
  induction is generalizing s with
  | nil => exact h
  | cons i is ih => exact ih h.2

theorem throughout_mono {P Q : σ → Prop} (hPQ : ∀ s, P s → Q s) {s : σ} {is : List ι}
    (h : Throughout step P s is) : Throughout step Q s is := by
  induction is generalizing s with
  | nil => exact hPQ s h
  | cons i is ih => exact ⟨hPQ s h.1, ih h.2⟩

/-- What no accepted call can restore holds throughout a run when it holds at
its end. -/
theorem throughout_iff_run {P : σ → Prop} (hback : ∀ s i t, step s i = .ok t → P t → P s)
    {s : σ} {is : List ι} : Throughout step P s is ↔ P (run step s is) := by
  refine ⟨throughout_run, fun h => ?_⟩
  induction is generalizing s with
  | nil => exact h
  | cons i is ih =>
    have hrest := ih h
    refine ⟨?_, hrest⟩
    have hnext := throughout_head hrest
    cases hi : step s i with
    | ok t => exact hback s i t hi (next_ok hi ▸ hnext)
    | error e => exact next_error hi ▸ hnext

/-- A record that every accepted call extends by what it asks for holds, after
a run, what the accepted calls asked for. -/
theorem record_run {α : Type} {record : σ → List α} {asked : ι → Option α}
    (hstep : ∀ s i t, step s i = .ok t → record t = record s ++ (asked i).toList)
    (s : σ) (is : List ι) :
    record (run step s is) = record s ++ (accepted step s is).filterMap asked := by
  induction is generalizing s with
  | nil => exact (List.append_nil _).symm
  | cons i is ih =>
    rw [run, List.foldl_cons, ← run, ih, accepted]
    cases hi : step s i with
    | error e => rw [next_error hi]
    | ok t =>
      rw [next_ok hi, hstep s i t hi, List.append_assoc]
      cases ha : asked i with
      | none => simp [ha]
      | some a => simp [ha]

/-- What every accepted call keeps between the state and an account of the calls
holds, after a run, of the account of its accepted calls. -/
theorem account_run {β : Type} {R : σ → β → Prop} {note : β → ι → β}
    (hstep : ∀ s i t b, step s i = .ok t → R s b → R t (note b i)) {s : σ} {b : β} (h : R s b)
    (is : List ι) : R (run step s is) ((accepted step s is).foldl note b) := by
  induction is generalizing s b with
  | nil => exact h
  | cons i is ih =>
    cases hi : step s i with
    | error e =>
      rw [run_error hi, accepted_error hi]
      exact ih h
    | ok t =>
      rw [run_ok hi, accepted_ok hi, List.foldl_cons]
      exact ih (hstep s i t b hi h)

/-- A quantity that every accepted call moves by what it asks for has moved,
after a run, by all that the accepted calls asked for. -/
theorem sum_run {M : Type} [AddMonoid M] (measure : σ → M) {asked : ι → Option M}
    (hstep : ∀ s i t, step s i = .ok t → measure t = measure s + (asked i).getD 0)
    (s : σ) (is : List ι) :
    measure (run step s is) = measure s + ((accepted step s is).filterMap asked).sum := by
  induction is generalizing s with
  | nil => exact (add_zero _).symm
  | cons i is ih =>
    cases hi : step s i with
    | error e => rw [run_error hi, accepted_error hi, ih]
    | ok t =>
      rw [run_ok hi, accepted_ok hi, ih, hstep s i t hi, add_assoc, List.filterMap_cons]
      cases ha : asked i with
      | none => simp
      | some a => simp

/-- A quantity that every accepted call moves by what the call did has moved,
after a run, by the sum over the run's history. -/
theorem sum_history {M : Type} [AddMonoid M] (measure : σ → M) {moved : σ × ι × σ → M}
    {P : σ → Prop}
    (hstep : ∀ s i t, P s → step s i = .ok t → measure t = measure s + moved (s, i, t))
    {s : σ} {is : List ι} (h : Throughout step P s is) :
    measure (run step s is) = measure s + ((history step s is).map moved).sum := by
  induction is generalizing s with
  | nil => exact (add_zero _).symm
  | cons i is ih =>
    have hrest := ih h.2
    cases hi : step s i with
    | error e =>
      rw [next_error hi] at hrest
      rw [run_error hi, history_error hi, hrest]
    | ok t =>
      rw [next_ok hi] at hrest
      rw [run_ok hi, history_ok hi, hrest, hstep s i t h.1 hi, List.map_cons, List.sum_cons,
        add_assoc]

/-- A record that every accepted call extends by what it asks for, as long as an
invariant holds, holds after a run what the accepted calls asked for. -/
theorem record_along {α : Type} {record : σ → List α} {asked : ι → Option α} {P : σ → Prop}
    (hstep : ∀ s i t, P s → step s i = .ok t → record t = record s ++ (asked i).toList)
    {s : σ} {is : List ι} (h : Throughout step P s is) :
    record (run step s is) = record s ++ (accepted step s is).filterMap asked := by
  induction is generalizing s with
  | nil => exact (List.append_nil _).symm
  | cons i is ih =>
    have hrest := ih h.2
    cases hi : step s i with
    | error e =>
      rw [next_error hi] at hrest
      rw [run_error hi, accepted_error hi, hrest]
    | ok t =>
      rw [next_ok hi] at hrest
      rw [run_ok hi, accepted_ok hi, hrest, hstep s i t h.1 hi, List.append_assoc]
      cases ha : asked i with
      | none => rw [List.filterMap_cons_none ha, Option.toList_none, List.nil_append]
      | some a => rw [List.filterMap_cons_some ha, Option.toList_some, List.singleton_append]

section Keys

variable {κ : Type} (used : σ → κ → Prop) {key : ι → Option κ}

theorem used_run (hused : ∀ s i t k, step s i = .ok t → (used t k ↔ used s k ∨ key i = some k))
    (s : σ) (is : List ι) (k : κ) :
    used (run step s is) k ↔ used s k ∨ k ∈ (accepted step s is).filterMap key := by
  induction is generalizing s with
  | nil => simp [run, accepted]
  | cons i is ih =>
    cases hi : step s i with
    | error e => rw [run_error hi, accepted_error hi, ih]
    | ok t =>
      rw [run_ok hi, accepted_ok hi, ih, hused s i t k hi, List.filterMap_cons, or_assoc]
      cases hk : key i with
      | none => simp
      | some j =>
        rw [List.mem_cons, Option.some.injEq, eq_comm]

theorem nodup_keys (hfresh : ∀ s i t k, step s i = .ok t → key i = some k → ¬ used s k)
    (hused : ∀ s i t k, step s i = .ok t → (used t k ↔ used s k ∨ key i = some k))
    (s : σ) (is : List ι) :
    ((accepted step s is).filterMap key).Nodup ∧
      ∀ k ∈ (accepted step s is).filterMap key, ¬ used s k := by
  induction is generalizing s with
  | nil => simp [accepted]
  | cons i is ih =>
    cases hi : step s i with
    | error e =>
      rw [accepted_error hi]
      exact ih s
    | ok t =>
      obtain ⟨hnodup, hnew⟩ := ih t
      have hold : ∀ k ∈ (accepted step t is).filterMap key, ¬ used s k := fun k hk hs =>
        hnew k hk ((hused s i t k hi).mpr (.inl hs))
      rw [accepted_ok hi, List.filterMap_cons]
      cases hk : key i with
      | none => exact ⟨hnodup, hold⟩
      | some j =>
        refine ⟨List.nodup_cons.mpr ⟨fun hj => ?_, hnodup⟩, List.forall_mem_cons.mpr ⟨?_, hold⟩⟩
        · exact hnew j hj ((hused s i t j hi).mpr (.inr hk))
        · exact hfresh s i t j hi hk

end Keys

theorem along_true (s : σ) (is : List ι) : Along step (fun _ _ => True) s is := by
  induction is generalizing s with
  | nil => trivial
  | cons i is ih => exact ⟨fun _ _ => trivial, ih _⟩

theorem along_of_forall {C : σ → ι → Prop} {is : List ι} (h : ∀ i ∈ is, ∀ s, C s i) (s : σ) :
    Along step C s is := by
  induction is generalizing s with
  | nil => trivial
  | cons i is ih =>
    exact ⟨fun _ _ => h i List.mem_cons_self s, ih (fun j hj => h j (List.mem_cons_of_mem i hj)) _⟩

/-- Induction over a run: what every accepted call under the condition
preserves holds throughout. -/
theorem throughout_of_along {P : σ → Prop} {C : σ → ι → Prop}
    (hstep : ∀ s i t, P s → C s i → step s i = .ok t → P t)
    {s : σ} {is : List ι} (hs : P s) (h : Along step C s is) : Throughout step P s is := by
  induction is generalizing s with
  | nil => exact hs
  | cons i is ih =>
    refine ⟨hs, ih ?_ h.2⟩
    cases hi : step s i with
    | ok t => rw [next_ok hi]; exact hstep s i t hs (h.1 t hi) hi
    | error e => rw [next_error hi]; exact hs

theorem along_of_throughout {P : σ → Prop} {C D : σ → ι → Prop}
    (hstep : ∀ s i t, P s → C s i → step s i = .ok t → D s i)
    {s : σ} {is : List ι} (hP : Throughout step P s is) (hC : Along step C s is) :
    Along step D s is := by
  induction is generalizing s with
  | nil => trivial
  | cons i is ih =>
    exact ⟨fun t ht => hstep s i t hP.1 (hC.1 t ht) ht, ih hP.2 hC.2⟩

theorem along_and {C D : σ → ι → Prop} {s : σ} {is : List ι} :
    Along step (fun s i => C s i ∧ D s i) s is ↔ Along step C s is ∧ Along step D s is := by
  induction is generalizing s with
  | nil => simp [Along]
  | cons i is ih =>
    simp only [Along, ih]
    refine ⟨?_, ?_⟩
    · rintro ⟨h, hC, hD⟩
      exact ⟨⟨fun t ht => (h t ht).1, hC⟩, fun t ht => (h t ht).2, hD⟩
    · rintro ⟨⟨h, hC⟩, h', hD⟩
      exact ⟨fun t ht => ⟨h t ht, h' t ht⟩, hC, hD⟩

/-- What every accepted call under the condition keeps between the state and the
calls made so far holds after a run. -/
theorem history_of_along {R : σ → List (σ × ι × σ) → Prop} {C : σ → ι → Prop}
    (hstep : ∀ s i t past, R s past → C s i → step s i = .ok t → R t (past ++ [(s, i, t)]))
    {s : σ} {is : List ι} {past : List (σ × ι × σ)} (hs : R s past) (h : Along step C s is) :
    R (run step s is) (past ++ history step s is) := by
  induction is generalizing s past with
  | nil => simpa [run, history] using hs
  | cons i is ih =>
    have hrest := h.2
    cases hi : step s i with
    | error e =>
      rw [next_error hi] at hrest
      rw [run_error hi, history_error hi]
      exact ih hs hrest
    | ok t =>
      rw [next_ok hi] at hrest
      rw [run_ok hi, history_ok hi, List.append_cons]
      exact ih (hstep s i t past hs (h.1 t hi) hi) hrest

theorem along_append {C : σ → ι → Prop} {s : σ} {is js : List ι} :
    Along step C s (is ++ js) ↔ Along step C s is ∧ Along step C (run step s is) js := by
  induction is generalizing s with
  | nil => simp [Along, run]
  | cons i is ih =>
    rw [List.cons_append, Along, Along, ih, and_assoc]
    rfl

/-- Conditions that agree on every accepted call agree along a run. The
background invariant `J` is kept under the frame condition `E`. -/
theorem along_congr {J : σ → Prop} {E C D : σ → ι → Prop}
    (hJ : ∀ s i t, J s → E s i → step s i = .ok t → J t)
    (hiff : ∀ s i t, J s → E s i → step s i = .ok t → (C s i ↔ D s i))
    {s : σ} {is : List ι} (hs : J s) (hE : Along step E s is) :
    Along step C s is ↔ Along step D s is := by
  have hall : Throughout step J s is := throughout_of_along hJ hs hE
  refine ⟨?_, ?_⟩
  · intro h
    exact along_of_throughout (fun u i t hu hi ht => (hiff u i t hu hi.1 ht).mp hi.2) hall
      (along_and.mpr ⟨hE, h⟩)
  · intro h
    exact along_of_throughout (fun u i t hu hi ht => (hiff u i t hu hi.1 ht).mpr hi.2) hall
      (along_and.mpr ⟨hE, h⟩)

/-- Where an accepted call keeps the property exactly when it meets the
condition, the property holds throughout a run exactly when all of the run's
accepted calls meet it. The background invariant `J` may rely on the property,
and the environment is held to the frame condition `E`. -/
theorem throughout_iff_along {J P : σ → Prop} {E C : σ → ι → Prop}
    (hstep : ∀ s i t, J s → P s → E s i → step s i = .ok t → (P t ↔ C s i) ∧ (P t → J t))
    {s : σ} {is : List ι} (hJ : J s) (hP : P s) (hE : Along step E s is) :
    Throughout step P s is ↔ Along step C s is := by
  induction is generalizing s with
  | nil => simp [Throughout, Along, hP]
  | cons i is ih =>
    cases hi : step s i with
    | error e =>
      have hn := next_error hi
      simp only [Throughout, Along, hP, hi, reduceCtorEq, false_implies, implies_true, true_and]
      have hE' := hE.2
      rw [hn] at hE' ⊢
      exact ih hJ hP hE'
    | ok t =>
      have hn := next_ok hi
      obtain ⟨hiff, hJt⟩ := hstep s i t hJ hP (hE.1 t hi) hi
      have hE' := hE.2
      simp only [Throughout, Along, hP, hi, hn, true_and, Except.ok.injEq, forall_eq'] at hE' ⊢
      refine ⟨?_, ?_⟩
      · intro h
        have hPt := throughout_head h
        exact ⟨hiff.mp hPt, (ih (hJt hPt) hPt hE').mp h⟩
      · rintro ⟨hC, h⟩
        have hPt := hiff.mpr hC
        exact (ih (hJt hPt) hPt hE').mpr h

/-- The rule for a property that needs no other invariant beside it. -/
theorem throughout_iff_along_self {P : σ → Prop} {E C : σ → ι → Prop}
    (hstep : ∀ s i t, P s → E s i → step s i = .ok t → (P t ↔ C s i))
    {s : σ} {is : List ι} (hP : P s) (hE : Along step E s is) :
    Throughout step P s is ↔ Along step C s is := by
  have hboth : ∀ s i t, True → P s → E s i → step s i = .ok t → (P t ↔ C s i) ∧ (P t → True) :=
    fun s i t _ hs hi ht => ⟨hstep s i t hs hi ht, fun _ => trivial⟩
  exact throughout_iff_along hboth trivial hP hE

section Moves

variable {μ : Type} (step) (input : σ → μ → Option ι)

/-- A move comes to an input of the system, which is worked out in the state that
it is made in. Some moves come to nothing there. -/
def moved (s : σ) (m : μ) : Except (Option δ) σ :=
  match input s m with
  | some i => (step s i).mapError some
  | none => .error none

variable {step input}

theorem moved_eq_ok {s t : σ} {m : μ} :
    moved step input s m = .ok t ↔ ∃ i, input s m = some i ∧ step s i = .ok t := by
  unfold moved
  cases input s m with
  | none => simp
  | some i => cases hi : step s i <;> simp [Except.mapError, hi]

end Moves

section Notes

variable {γ : Type} (step) (note : γ → σ × ι × σ → γ)

/-- The system next to notes on the calls that it accepts. What is said about a
run may look at the notes, the system never does. -/
def noted (x : σ × γ) (i : ι) : Except δ (σ × γ) :=
  match step x.1 i with
  | .ok t => .ok (t, note x.2 (x.1, i, t))
  | .error e => .error e

variable {step note}

theorem noted_eq_ok {x y : σ × γ} {i : ι} :
    noted step note x i = .ok y ↔ ∃ t, step x.1 i = .ok t ∧ (t, note x.2 (x.1, i, t)) = y := by
  unfold noted
  cases step x.1 i <;> simp

theorem next_noted (x : σ × γ) (i : ι) : (next (noted step note) x i).1 = next step x.1 i := by
  unfold next noted
  cases step x.1 i <;> rfl

theorem run_noted (s : σ) (g : γ) (is : List ι) :
    run (noted step note) (s, g) is = (run step s is, (history step s is).foldl note g) := by
  induction is generalizing s g with
  | nil => rfl
  | cons i is ih =>
    cases hi : step s i with
    | ok t =>
      have hn : noted step note (s, g) i = .ok (t, note g (s, i, t)) := noted_eq_ok.mpr ⟨t, hi, rfl⟩
      rw [run_ok hn, run_ok hi, history_ok hi, ih]
      rfl
    | error e =>
      have hn : noted step note (s, g) i = .error e := by simp only [noted, hi]
      rw [run_error hn, run_error hi, history_error hi, ih]

theorem throughout_noted {P : σ → Prop} {x : σ × γ} {is : List ι} :
    Throughout (noted step note) (fun x => P x.1) x is ↔ Throughout step P x.1 is := by
  induction is generalizing x with
  | nil => rfl
  | cons i is ih => simp only [Throughout, ih, next_noted]

theorem along_noted {C : σ → ι → Prop} {x : σ × γ} {is : List ι} :
    Along (noted step note) (fun x => C x.1) x is ↔ Along step C x.1 is := by
  induction is generalizing x with
  | nil => rfl
  | cons i is ih =>
    simp only [Along, ih, next_noted]
    refine and_congr_left fun _ => ⟨fun h t ht => ?_, fun h y hy => ?_⟩
    · exact h _ (noted_eq_ok.mpr ⟨t, ht, rfl⟩)
    · obtain ⟨t, ht, -⟩ := noted_eq_ok.mp hy
      exact h t ht

end Notes

end Suban.Basis.Runs

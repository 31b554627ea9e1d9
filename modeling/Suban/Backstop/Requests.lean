import Mathlib.Tactic.IntervalCases
import Suban.Backstop.Accounting
import Suban.Basis.Runs

namespace Suban.Backstop.Requests

open Suban.Basis.Calls Suban.Basis.Tables Suban.Basis.Runs Suban.Soroban.Host
open Suban.Backstop.Contract Suban.Backstop.Transitions Suban.Backstop.Accounting

variable {Address W : Type} [DecidableEq Address] {contract : Address}
variable {T : Sep41 Address W} {env : Env Address contract} {s t : Storage Address W}

abbrev History (Address W : Type) [DecidableEq Address] (contract : Address) :=
  List (Storage Address W × Input Address W contract (Call Address) × Storage Address W)

variable {h : History Address W contract} {src : Address} {j k : Nat}
variable {x : Storage Address W × Input Address W contract (Call Address) × Storage Address W}

def touches (src : Address) :
    Storage Address W × Input Address W contract (Call Address) × Storage Address W → Bool
  | (_, .call _ (.requestClaim a _), _) | (_, .call _ (.claim a _), _) => a = src
  | _ => false

/-- A claim in place `k` uses up a request in place `j`. The depositor requests
and claims nothing between the two. -/
structure Consumes (h : History Address W contract) (src : Address) (j k : Nat) : Prop where
  before : j < k
  between : ∀ i x, j < i → i < k → h[i]? = some x → touches src x = false

/-- Every claim uses up a request of the same depositor, made a claim delay
earlier, for as many shares or more, all held at that time. -/
def Answered (h : History Address W contract) : Prop :=
  ∀ k s env src n t, h[k]? = some (s, .call env (.claim src n), t) →
    ∃ j s' env' m t', h[j]? = some (s', .call env' (.requestClaim src m), t') ∧
      Consumes h src j k ∧ env'.sequence + s.claimDelay ≤ env.sequence ∧
      n ≤ m ∧ m ≤ s'.sharesOf src

def UsedOnce (h : History Address W contract) : Prop :=
  ∀ src j k l s s' env env' n n' t t', h[k]? = some (s, .call env (.claim src n), t) →
    h[l]? = some (s', .call env' (.claim src n'), t') →
    Consumes h src j k → Consumes h src j l → k = l

/-- A claim is for no more shares than the request that it uses up, and that was
for no more than the depositor held. -/
def WithinRequest (x : Storage Address W × History Address W contract) :
    Input Address W contract (Call Address) → Prop
  | .call _ (.claim src n) => ∀ j s' env' m t',
      x.2[j]? = some (s', .call env' (.requestClaim src m), t') →
      Consumes x.2 src j x.2.length → n ≤ m ∧ m ≤ s'.sharesOf src
  | _ => True

/-- A request on file was filed by the last of the depositor's calls for one. -/
def OnFile (x : Storage Address W × History Address W contract) : Prop :=
  ∀ src request, x.1.claimRequests.lookup src = some request →
    ∃ j s' env' t', x.2[j]? = some (s', .call env' (.requestClaim src request.shares), t') ∧
      env'.sequence = request.requestedAt ∧ Consumes x.2 src j x.2.length

def record (h : History Address W contract)
    (x : Storage Address W × Input Address W contract (Call Address) × Storage Address W) :
    History Address W contract :=
  h ++ [x]

theorem length_record : (record h x).length = h.length + 1 := List.length_append

theorem getElem?_record {i : Nat}
    {y : Storage Address W × Input Address W contract (Call Address) × Storage Address W} :
    (record h x)[i]? = some y ↔ h[i]? = some y ∨ i = h.length ∧ x = y := by
  obtain hi | rfl | hi := lt_trichotomy i h.length
  · simp [record, List.getElem?_append_left hi, hi.ne]
  · simp [record]
  · have hout : (record h x)[i]? = none := List.getElem?_eq_none (length_record.trans_le hi)
    rw [hout, List.getElem?_eq_none hi.le]
    simp [hi.ne']

theorem getElem?_record_of_lt {i : Nat} (hi : i < h.length) : (record h x)[i]? = h[i]? :=
  List.getElem?_append_left hi

theorem lt_length {i : Nat}
    {y : Storage Address W × Input Address W contract (Call Address) × Storage Address W}
    (hi : h[i]? = some y) : i < h.length := (List.getElem?_eq_some_iff.mp hi).1

theorem consumes_unique {y z : Storage Address W × Input Address W contract (Call Address) ×
    Storage Address W} {i : Nat} (hi : Consumes h src i k) (hj : Consumes h src j k)
    (hy : h[i]? = some y) (hz : h[j]? = some z) (hyt : touches src y = true)
    (hzt : touches src z = true) : i = j := by
  obtain hlt | heq | hlt := lt_trichotomy i j
  · exact absurd hzt (by simp [hi.between j z hlt hj.before hz])
  · exact heq
  · exact absurd hyt (by simp [hj.between i y hlt hi.before hy])

theorem usedOnce (h : History Address W contract) : UsedOnce h := by
  intro src j k l s s' env env' n n' t t' hk hl hjk hjl
  obtain hlt | heq | hlt := lt_trichotomy k l
  · exact absurd (hjl.between k _ hjk.before hlt hk) (by simp [touches])
  · exact heq
  · exact absurd (hjk.between l _ hjl.before hlt hl) (by simp [touches])

/-- Up to a place before the end, what is recorded later does not matter. -/
theorem consumes_record (hk : k ≤ h.length) :
    Consumes (record h x) src j k ↔ Consumes h src j k := by
  refine ⟨fun hc => ⟨hc.before, fun i y hij hik hy => ?_⟩,
    fun hc => ⟨hc.before, fun i y hij hik hy => ?_⟩⟩
  · exact hc.between i y hij hik ((getElem?_record_of_lt (hik.trans_le hk)).trans hy)
  · exact hc.between i y hij hik ((getElem?_record_of_lt (hik.trans_le hk)).symm.trans hy)

/-- A call that is none of the depositor's on requests leaves the last one open. -/
theorem consumes_succ (hc : Consumes h src j h.length) (hx : touches src x = false) :
    Consumes (record h x) src j (record h x).length := by
  refine ⟨by rw [length_record]; exact hc.before.trans (Nat.lt_succ_self _), ?_⟩
  intro i y hij _ hy
  obtain hy | ⟨-, rfl⟩ := getElem?_record.mp hy
  · exact hc.between i y hij (lt_length hy) hy
  · exact hx

theorem onFile_keep (hs : OnFile (s, h)) {a : Address} {request : ClaimRequest Address}
    (hl : s.claimRequests.lookup a = some request) (hx : touches a x = false) :
    ∃ j s' env' t', (record h x)[j]? = some (s', .call env' (.requestClaim a request.shares), t') ∧
      env'.sequence = request.requestedAt ∧ Consumes (record h x) a j (record h x).length := by
  obtain ⟨j, s', env', t', hj, hat, hc⟩ := hs a request hl
  exact ⟨j, s', env', t', getElem?_record.mpr (.inl hj), hat, consumes_succ hc hx⟩

theorem onFile_transition {c : Call Address} (htrans : Transition T env s c t)
    (hs : OnFile (s, h)) : OnFile (t, record h (s, .call env c, t)) := by
  cases htrans with
  | requestClaim src shares =>
    intro a request hl
    obtain ⟨rfl, rfl⟩ | ⟨hne, hl⟩ := lookup_insert_eq_some.mp hl
    · refine ⟨h.length, s, env, _, getElem?_record.mpr (.inr ⟨rfl, rfl⟩), rfl, ?_, ?_⟩
      · exact (Nat.lt_succ_self _).trans_eq length_record.symm
      · intro i y hi hlt hy
        have hend := lt_length hy
        rw [length_record] at hend
        omega
    · exact onFile_keep hs hl (by simpa [touches] using Ne.symm hne)
  | claim src shares =>
    intro a request hl
    have hne : a ≠ src := by
      rintro rfl
      rw [AList.lookup_erase] at hl
      cases hl
    rw [AList.lookup_erase_ne hne] at hl
    exact onFile_keep hs hl (by simpa [touches] using Ne.symm hne)
  | _ => exact fun a request hl => onFile_keep hs hl rfl

theorem answered_record (ha : Answered h)
    (hx : ∀ s env src n t, x = (s, .call env (.claim src n), t) →
      ∃ j s' env' m t', h[j]? = some (s', .call env' (.requestClaim src m), t') ∧
        Consumes h src j h.length ∧ env'.sequence + s.claimDelay ≤ env.sequence ∧
        n ≤ m ∧ m ≤ s'.sharesOf src) : Answered (record h x) := by
  intro k s env src n t hk
  obtain hold | ⟨rfl, hlast⟩ := getElem?_record.mp hk
  · obtain ⟨j, s', env', m, t', hj, hc, hrest⟩ := ha k s env src n t hold
    exact ⟨j, s', env', m, t', getElem?_record.mpr (.inl hj),
      (consumes_record (lt_length hold).le).mpr hc, hrest⟩
  · obtain ⟨j, s', env', m, t', hj, hc, hrest⟩ := hx s env src n t hlast
    exact ⟨j, s', env', m, t', getElem?_record.mpr (.inl hj), (consumes_record le_rfl).mpr hc,
      hrest⟩

theorem answered_transition {c : Call Address} (htrans : Transition T env s c t)
    (hs : OnFile (s, h)) (ha : Answered h) :
    Answered (record h (s, .call env c, t)) ↔ WithinRequest (s, h) (.call env c) := by
  cases htrans with
  | claim src shares payout request w hpos huser hrequest hdue =>
    refine ⟨fun hnew j s' env' m t' hj hc => ?_, fun hwithin => answered_record ha ?_⟩
    · obtain ⟨i, s₁, env₁, m₁, t₁, hi, hci, -, hn, hm⟩ :=
        hnew h.length s env src shares _ (getElem?_record.mpr (.inr ⟨rfl, rfl⟩))
      rw [getElem?_record_of_lt hci.before] at hi
      have heq : i = j := consumes_unique ((consumes_record le_rfl).mp hci) hc hi hj
        (by simp [touches]) (by simp [touches])
      subst heq
      cases hi.symm.trans hj
      exact ⟨hn, hm⟩
    · intro s₀ env₀ src₀ n₀ t₀ heq
      cases heq
      obtain ⟨j, s', env', t', hj, hat, hc⟩ := hs src request hrequest
      have hmeets := hwithin j s' env' request.shares t' hj hc
      exact ⟨j, s', env', request.shares, t', hj, hc, hat ▸ hdue, hmeets⟩
  | _ => exact iff_of_true (answered_record ha (by simp)) trivial

theorem answered_step {x y : Storage Address W × History Address W contract}
    {i : Input Address W contract (Call Address)} (hi : noted (step T) record x i = .ok y)
    (hs : OnFile x) (ha : Answered x.2) :
    (Answered y.2 ↔ WithinRequest x i) ∧ OnFile y := by
  obtain ⟨t, hstep, rfl⟩ := noted_eq_ok.mp hi
  cases i with
  | call env c =>
    have htrans := invoke_transition hstep
    exact ⟨answered_transition htrans hs ha, onFile_transition htrans hs⟩
  | world w =>
    cases pure_eq_ok.mp hstep
    refine ⟨iff_of_true (answered_record ha (by simp)) trivial, fun a request hl => ?_⟩
    exact onFile_keep hs hl rfl

/-- The claims of a run are answered by requests exactly when each is within the
request that it uses up. No request is ever used up twice. -/
theorem answered_iff_withinRequest (w : W)
    (is : List (Input Address W contract (Call Address))) :
    (Throughout (noted (step T) record) (fun x => Answered x.2) (Storage.fresh w, []) is ↔
      Along (noted (step T) record) WithinRequest (Storage.fresh w, []) is) ∧
    UsedOnce (history (step T) (Storage.fresh w) is) := by
  refine ⟨?_, usedOnce _⟩
  refine throughout_iff_along (J := OnFile) (E := fun _ _ => True)
    (fun x i y hs ha _ hi => ?_) (fun a request hl => ?_) ?_ (along_true _ is)
  · obtain ⟨hiff, hfile⟩ := answered_step hi hs ha
    exact ⟨hiff, fun _ => hfile⟩
  · cases hl
  · exact fun k s env src n t hk => by cases hk

/-- A thousand shares are claimed on a request for one, and on a request that was
made without any. -/
theorem claims_unanswered :
    ¬ Throughout (noted (step (bookToken Nat)) record) (fun x => Answered x.2)
        (Storage.fresh sample.world, [])
        [.call (Env.signed 0 0) (.initialise 1 2 9 1000000 100 100000 100), sampleDeposit,
          .call (Env.signed 0 2) (.requestClaim 3 1), .call (Env.signed 0 102) (.claim 3 1000)] ∧
      ¬ Throughout (noted (step (bookToken Nat)) record) (fun x => Answered x.2)
        (Storage.fresh sample.world, [])
        [.call (Env.signed 0 0) (.initialise 1 2 9 1000000 100 100000 100),
          .call (Env.signed 0 0) (.requestClaim 3 1000), sampleDeposit,
          .call (Env.signed 0 102) (.claim 3 1000)] := by
  refine ⟨fun h => ?_, fun h => ?_⟩
  · obtain ⟨j, s', env', m, t', hj, hc, -, hn, -⟩ := throughout_run h 3 _ _ 3 1000 _ rfl
    have hlt := hc.before
    interval_cases j
    · cases hj
    · cases hj
    · cases hj
      exact absurd hn (by decide)
  · obtain ⟨j, s', env', m, t', hj, hc, -, hn, hm⟩ := throughout_run h 3 _ _ 3 1000 _ rfl
    have hlt := hc.before
    interval_cases j
    · cases hj
    · cases hj
      exact absurd hm (by decide)
    · cases hj

end Suban.Backstop.Requests

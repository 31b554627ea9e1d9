import Suban.Basis.Urls
import Suban.Indexer.Horizon

namespace Suban.Indexer.HorizonClient

open Suban.Basis.Urls Suban.Indexer.Events Suban.Indexer.Horizon

structure Sent (H : Type) where
  pathOrUrl : List Char
  url : Url H

inductive Response (T : Type) where
  | page (collection : HorizonCollection T)
  | status (code : Nat)
  | failed

def retried (code : Nat) : Bool := [429, 502, 503, 504].contains code

section Client

variable {H T : Type} (R : Rules H) (baseUrl : List Char)

def startsWithHttp (pathOrUrl : List Char) : Bool := "http".toList.isPrefixOf pathOrUrl

/-- Of an absolute link only its path and its query are kept. -/
def urlOf (pathOrUrl : List Char) : Option (Url H) :=
  if startsWithHttp pathOrUrl then do
    let url ← parse R none pathOrUrl
    let base ← parse R none baseUrl
    parse R (some base) (url.pathname ++ url.search)
  else do
    let base ← parse R none (baseUrl ++ ['/'])
    parse R (some base) pathOrUrl

/-- The upstream may answer by all that it was sent before. -/
abbrev Upstream (H T : Type) := List (Sent H) → Response T

variable (upstream : Upstream H T)

/-- Sends a request, and so many more after failures that pass. -/
def request (pathOrUrl : List Char) :
    Nat → List (Sent H) → List (Sent H) × Option (HorizonCollection T)
  | retries, sent =>
    match urlOf R baseUrl pathOrUrl with
    | none => (sent, none)
    | some url =>
      let sent := sent ++ [⟨pathOrUrl, url⟩]
      match upstream sent with
      | .page collection => (sent, some collection)
      | .failed => (sent, none)
      | .status code =>
        match retries with
        | 0 => (sent, none)
        | retries + 1 => if retried code then request pathOrUrl retries sent else (sent, none)

def collection : Nat → Option String → List (Sent H) → List T → List (Sent H) × Option (List T)
  | 0, _, sent, records => (sent, some records)
  | _ + 1, none, sent, records => (sent, some records)
  | pages + 1, some next, sent, records =>
    match request R baseUrl upstream next.toList 3 sent with
    | (sent, none) => (sent, none)
    | (sent, some page) =>
      collection pages (truthy page.next) sent (records ++ page.records.getD [])

def requests (path : String) : List (Sent H) :=
  (collection R baseUrl upstream 50 (some path) [] []).1

end Client

section Sites

variable {H T : Type} {R : Rules H} {baseUrl : List Char} {upstream : Upstream H T}
variable {base url : Url H} {pathOrUrl : List Char} {sent : List (Sent H)}

/-- Every request goes where its link leads. -/
def Followed (R : Rules H) (baseUrl : List Char) (sent : List (Sent H)) : Prop :=
  ∀ x ∈ sent, urlOf R baseUrl x.pathOrUrl = some x.url

theorem followed_sent {pathOrUrl : List Char} {url : Url H} (h : Followed R baseUrl sent)
    (hurl : urlOf R baseUrl pathOrUrl = some url) :
    Followed R baseUrl (sent ++ [⟨pathOrUrl, url⟩]) :=
  List.forall_mem_append.mpr ⟨h, List.forall_mem_singleton.mpr hurl⟩

theorem followed_request (upstream : Upstream H T) (pathOrUrl : List Char) (retries : Nat)
    (h : Followed R baseUrl sent) :
    Followed R baseUrl (request R baseUrl upstream pathOrUrl retries sent).1 := by
  induction retries generalizing sent with
  | zero =>
    unfold request
    split
    · exact h
    next url hurl =>
      have hsent := followed_sent h hurl
      dsimp only
      split <;> exact hsent
  | succ retries ih =>
    unfold request
    split
    · exact h
    next url hurl =>
      have hsent := followed_sent h hurl
      dsimp only
      split
      · exact hsent
      · exact hsent
      · split
        · exact ih hsent
        · exact hsent

theorem followed_collection (pages : Nat) (next : Option String) (records : List T)
    (h : Followed R baseUrl sent) :
    Followed R baseUrl (collection R baseUrl upstream pages next sent records).1 := by
  induction pages generalizing next sent records with
  | zero => exact h
  | succ pages ih =>
    cases next with
    | none => exact h
    | some next =>
      have hrequest := followed_request upstream next.toList 3 h
      unfold collection
      split
      next hsent =>
        rw [hsent] at hrequest
        exact hrequest
      next hsent =>
        rw [hsent] at hrequest
        exact ih _ _ hrequest

/-- A link that has no scheme and no host of its own, nor its path, if it is
taken for an absolute one. -/
def Harmless (R : Rules H) (base : Url H) (pathOrUrl : List Char) : Prop :=
  if startsWithHttp pathOrUrl then
    ∀ url, parse R none pathOrUrl = some url → KeepsSite R base (url.pathname ++ url.search)
  else KeepsSite R base pathOrUrl

/-- A base for web requests. -/
def IsWeb (base : Url H) : Prop := base.scheme = "http" ∨ base.scheme = "https"

theorem IsWeb.special (h : IsWeb base) : isSpecial base.scheme = true ∧ base.scheme ≠ "file" := by
  obtain h | h := h <;> rw [h] <;> decide

theorem sameSite_urlOf (hbase : parse R none baseUrl = some base) (hweb : IsWeb base)
    (h : urlOf R baseUrl pathOrUrl = some url) :
    SameSite url base ↔ Harmless R base pathOrUrl := by
  obtain ⟨hspecial, hfile⟩ := hweb.special
  unfold urlOf at h
  unfold Harmless
  split_ifs at h ⊢ with hhttp
  · obtain ⟨absolute, habsolute, h⟩ := Option.bind_eq_some_iff.mp h
    rw [hbase] at h
    obtain ⟨rest, -, hauthority⟩ := parse_special hbase hspecial hfile
    obtain ⟨names, hpath⟩ := withAuthority_path hauthority
    rw [parse_site hspecial hfile hpath h, habsolute]
    simp
  · obtain ⟨directory, hdirectory, h⟩ := Option.bind_eq_some_iff.mp h
    obtain ⟨hsite, names, hpath⟩ := parse_slash hbase hspecial hfile hdirectory
    have hiff := parse_site (hsite.1 ▸ hspecial) (hsite.1 ▸ hfile) hpath h
    rw [← KeepsSite.congr hsite, ← hiff, SameSite, SameSite, hsite.1, hsite.2]

theorem harmless_path {c : Char} {rest : List Char} (hc : c.isAlpha = true) :
    Harmless R base ('/' :: c :: rest) := by
  have hhttp : startsWithHttp ('/' :: c :: rest) = false := rfl
  rw [Harmless, hhttp, if_neg Bool.false_ne_true]
  exact keepsSite_path hc

/-- Whatever the upstream answers, the requests of a client stay on its site
exactly when all the links that it follows are harmless. -/
theorem sameSite_iff_harmless (hbase : parse R none baseUrl = some base) (hweb : IsWeb base)
    {path : String} {c : Char} {rest : List Char} (hpath : path.toList = '/' :: c :: rest)
    (hc : c.isAlpha = true) (upstream : Upstream H T) :
    (∀ x ∈ requests R baseUrl upstream path, SameSite x.url base) ↔
      ∀ x ∈ requests R baseUrl upstream path,
        x.pathOrUrl = path.toList ∨ Harmless R base x.pathOrUrl := by
  have hfollowed : Followed R baseUrl (requests R baseUrl upstream path) :=
    followed_collection 50 (some path) [] (by simp [Followed])
  refine forall₂_congr fun x hx => ?_
  rw [sameSite_urlOf hbase hweb (hfollowed x hx), hpath]
  refine ⟨.inr, fun h => h.elim (fun heq => ?_) id⟩
  rw [heq]
  exact harmless_path hc

end Sites

theorem path_listing (listing : Listing) :
    ∃ rest, listing.path.toList = '/' :: 'l' :: rest := by
  have hfront {front : String} (text : String) (h : ∃ rest, front.toList = '/' :: 'l' :: rest) :
      ∃ rest, (front ++ text).toList = '/' :: 'l' :: rest := by
    obtain ⟨rest, hrest⟩ := h
    exact ⟨rest ++ text.toList, by rw [String.toList_append, hrest]; rfl⟩
  have hledgers : ∃ rest, "/ledgers?order=asc&limit=".toList = '/' :: 'l' :: rest :=
    ⟨"edgers?order=asc&limit=".toList, by decide +kernel⟩
  have hledger : ∃ rest, "/ledgers/".toList = '/' :: 'l' :: rest :=
    ⟨"edgers/".toList, by decide +kernel⟩
  cases listing with
  | ledgersFrom sequence limit => exact hfront _ (hfront _ (hfront _ hledgers))
  | transactionsForLedger sequence => exact hfront _ (hfront _ hledger)
  | operationsForLedger sequence => exact hfront _ (hfront _ hledger)

section Sample

def sampleRules : Rules (List Char) where
  authority _ text :=
    match text.getLast? with
    | none => none
    | some c => if isBlank c then none else some text
  authority_blank _ text c _ hc := by simp [hc]
  encodePath c := [c]
  encodeOpaque c := [c]
  encodeQuery c := [c]

def sampleBase : List Char := "https://horizon.test".toList

def linking (href : String) : Upstream (List Char) Unit := fun sent =>
  .page ⟨some [], if sent.length = 1 then some href else none⟩

def sampleHosts (href : String) : List (Option String) :=
  (requests sampleRules sampleBase (linking href) "/ledgers?order=asc&limit=200").map
    fun x => x.url.host.map String.ofList

theorem sameSite_iff_harmless_sample :
    ∃ base, parse sampleRules none sampleBase = some base ∧
      ((∀ x ∈ requests sampleRules sampleBase (linking "/ledgers?cursor=7")
          (Listing.ledgersFrom 0 200).path, SameSite x.url base) ↔
        ∀ x ∈ requests sampleRules sampleBase (linking "/ledgers?cursor=7")
          (Listing.ledgersFrom 0 200).path,
          x.pathOrUrl = (Listing.ledgersFrom 0 200).path.toList ∨
            Harmless sampleRules base x.pathOrUrl) := by
  obtain ⟨rest, hpath⟩ := path_listing (.ledgersFrom 0 200)
  exact ⟨_, rfl, sameSite_iff_harmless rfl (.inr rfl) hpath (by decide) _⟩

/-- A link with two slashes leads to another host, and so does one with two
slashes behind the host that it pretends to lead to. -/
theorem link_leads_elsewhere :
    sampleHosts "//evil.test/ledgers" = [some "horizon.test", some "evil.test"] ∧
      sampleHosts "https://horizon.test//evil.test/ledgers" =
        [some "horizon.test", some "evil.test"] := by
  decide +kernel

end Sample

end Suban.Indexer.HorizonClient

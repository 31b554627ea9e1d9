import Mathlib.Data.List.DropRight
import Suban.Basis.JsonText
import Suban.Indexer.Quotas
import Suban.Indexer.TimeFilters

namespace Suban.Indexer.Access

open Suban.Basis.Doubles Suban.Basis.JsonText Suban.Indexer.Quotas Suban.Indexer.TimeFilters

/-- A key as it is configured. Of the key itself only the hash is known. -/
structure ApiKey extends ApiKeyConfig where
  name : String
  hash : String

def trim (text : List Char) : List Char :=
  (text.dropWhile isWhitespace).rdropWhile isWhitespace

section Configuration

variable (sha256 : String → String)

/-- The double that a number is read as, when it is above zero. -/
def orElse (n : ℚ) (fallback : Limit) : Limit :=
  if hpos : 0 < toDouble n then
    if toDouble n < 2 ^ 1024 then
      ⟨toDouble n, by exact_mod_cast hpos, fun q hq => by
        rw [← WithTop.coe_inj.mp hq, toDouble_toDouble]⟩
    else ⟨⊤, WithTop.coe_lt_top 0, fun q hq => absurd hq WithTop.top_ne_coe⟩
  else fallback

structure Written where
  key : String
  name : String
  perMinute : ℚ
  perDay : ℚ
  deriving DecidableEq

def keyOf (w : Written) : ApiKey where
  id := "key_" ++ String.ofList ((sha256 w.key).toList.take 12)
  perMinute := orElse w.perMinute (.ofNat 60 (by decide) (by decide))
  perDay := orElse w.perDay (.ofNat 10000 (by decide) (by decide))
  name := if w.name = "" then "unnamed" else w.name
  hash := sha256 w.key

/-- A key that was seen before is passed over, and so is none at all. -/
def add (keys : List ApiKey) (w : Written) : List ApiKey :=
  if w.key = "" ∨ sha256 w.key ∈ keys.map ApiKey.hash then keys else keys ++ [keyOf sha256 w]

/-- Of two members of one name the last one counts. -/
def member (fields : List (String × JsonOf ℚ)) (name : String) : Option (JsonOf ℚ) :=
  fields.reverse.lookup name

/-- Members of other types than they are declared with are not read. -/
def textMember (fields : List (String × JsonOf ℚ)) (name : String) : Option String :=
  match member fields name with
  | none | some .null => some ""
  | some (.str text) => some text
  | some _ => none

def numberMember (fields : List (String × JsonOf ℚ)) (name : String) : Option (Option ℚ) :=
  match member fields name with
  | none | some .null => some none
  | some (.num n) => some (some n)
  | some _ => none

def writtenEntry : JsonOf ℚ → Option Written
  | .obj fields => do
    let key ← textMember fields "key"
    let name ← textMember fields "name"
    let perMinute ← numberMember fields "perMinute"
    let per_minute ← numberMember fields "per_minute"
    let perDay ← numberMember fields "perDay"
    let per_day ← numberMember fields "per_day"
    pure ⟨key, name, (perMinute.or per_minute).getD 60, (perDay.or per_day).getD 10000⟩
  | _ => none

def int (value : Option String) (fallback : ℚ) : ℚ :=
  ((parseFinite (value.getD "")).map Int.cast).getD fallback

def writtenToken (token : List Char) : Written :=
  let parts := ((trim token).splitOn ':').map String.ofList
  ⟨parts.headD "", parts[1]?.getD "", int parts[2]? 60, int parts[3]? 10000⟩

/-- Either a JSON list, or tokens between commas. -/
def written (raw : String) : Option (List Written) :=
  let text := trim raw.toList
  if text = [] then some []
  else if text.head? = some '[' then
    match parseWith parseDecimal raw with
    | some (.arr entries) => entries.mapM writtenEntry
    | _ => none
  else some ((raw.toList.splitOn ',').map writtenToken)

end Configuration

structure Request where
  apiKey : Option String
  authorization : Option String
  time : Nat

def extractApiKey (r : Request) : Option String :=
  match r.apiKey with
  | none | some "" =>
    match r.authorization with
    | some text =>
      if (text.toList.map Char.toLower).take 7 = "bearer ".toList then
        some (String.ofList (trim (text.toList.drop 7)))
      else none
    | none => none
  | some text => some (String.ofList (trim text.toList))

def given (r : Request) : Option String := (extractApiKey r).filter (· ≠ "")

def findKey (sha256 : String → String) (raw : String) (keys : List ApiKey) : Option ApiKey :=
  keys.find? fun key => key.hash = sha256 raw

inductive Answer where
  | keyRequired
  | invalidKey
  | quotaExceeded (key : ApiKey) (usage : UsageResult)
  | next (key : Option (ApiKey × UsageResult))

section Middleware

variable (sha256 : String → String) (requireApiKey : Bool) (keys : List ApiKey)

def answer (count : ApiKeyConfig → UsageResult) (r : Request) : Answer :=
  match given r with
  | none => if requireApiKey then .keyRequired else .next none
  | some raw =>
    match findKey sha256 raw keys with
    | none => .invalidKey
    | some key =>
      let usage := count key.toApiKeyConfig
      if usage.allowed then .next (some (key, usage)) else .quotaExceeded key usage

def asked (r : Request) : Option ApiKey := (given r).bind fun raw => findKey sha256 raw keys

def apiKeyMiddleware (rows : List UsageRow) (r : Request) : Answer × List UsageRow :=
  (answer sha256 requireApiKey keys (fun key => (consume rows key r.time).1) r,
    match asked sha256 keys r with
    | none => rows
    | some key => (consume rows key.toApiKeyConfig r.time).2)

/-- The service is asked, or it is started again. -/
inductive Turn where
  | request (r : Request)
  | restart (now : Nat)

def Turn.time : Turn → Nat
  | .request r => r.time
  | .restart now => now

def serve : List UsageRow → List Turn → List (Request × Answer)
  | _, [] => []
  | rows, .request r :: turns =>
    (r, (apiKeyMiddleware sha256 requireApiKey keys rows r).1) ::
      serve (apiKeyMiddleware sha256 requireApiKey keys rows r).2 turns
  | rows, .restart now :: turns => serve (prune rows now) turns

end Middleware

def entryOf : Request × Answer → Option Entry
  | (r, .quotaExceeded key usage) => some ⟨key.toApiKeyConfig, r.time, usage⟩
  | (r, .next (some (key, usage))) => some ⟨key.toApiKeyConfig, r.time, usage⟩
  | _ => none

def entries (log : List (Request × Answer)) : List Entry := log.filterMap entryOf

/-- How many requests with the key went through in the window of a time. -/
def used (log : List (Request × Answer)) (key : ApiKey) (kind : WindowKind) (now : Nat) : Nat :=
  granted (entries log) key.id kind now

/-- Without a key a request goes through where none is required, with an unknown
one never, and with a known one exactly as long as something is left of its
minute and of its day, so that less than one request goes through beyond either
limit. -/
structure Orderly (sha256 : String → String) (requireApiKey : Bool) (keys : List ApiKey)
    (log : List (Request × Answer)) : Prop where
  within : ∀ key ∈ keys, ∀ kind now,
    (used log key kind now : WithTop ℚ) < (key.limit kind).value + 1
  anonymous : ∀ x ∈ log, given x.1 = none →
    x.2 = if requireApiKey then .keyRequired else .next none
  unknown : ∀ x ∈ log, ∀ raw, given x.1 = some raw → (∀ key ∈ keys, key.hash ≠ sha256 raw) →
    x.2 = .invalidKey
  known : Throughout (fun before x => ∀ key, asked sha256 keys x.1 = some key →
    (∃ usage, x.2 = .next (some (key, usage)) ∧
        ∀ kind, (used before key kind x.1.time : WithTop ℚ) < (key.limit kind).value) ∨
      ∃ usage, x.2 = .quotaExceeded key usage ∧
        ∃ kind, (key.limit kind).value ≤ (used before key kind x.1.time : WithTop ℚ)) log

section Keys

variable {sha256 : String → String} {keys : List ApiKey}

theorem asked_spec {r : Request} {key : ApiKey} (h : asked sha256 keys r = some key) :
    key ∈ keys ∧ ∃ raw, given r = some raw ∧ findKey sha256 raw keys = some key := by
  obtain ⟨raw, hraw, hfind⟩ := Option.bind_eq_some_iff.mp h
  exact ⟨List.mem_of_find?_eq_some hfind, raw, hraw, hfind⟩

end Keys

section Log

variable {sha256 : String → String} {requireApiKey : Bool} {keys : List ApiKey}
variable {log past : List (Request × Answer)} {rows : List UsageRow} {turns : List Turn}
variable {count : ApiKeyConfig → UsageResult} {time : Nat} {key : ApiKey}

theorem answer_asked {r : Request} (h : asked sha256 keys r = some key) :
    answer sha256 requireApiKey keys count r =
      if (count key.toApiKeyConfig).allowed then .next (some (key, count key.toApiKeyConfig))
      else .quotaExceeded key (count key.toApiKeyConfig) := by
  obtain ⟨-, raw, hraw, hfind⟩ := asked_spec h
  simp only [answer, hraw, hfind]

theorem entryOf_answer (r : Request) :
    entryOf (r, answer sha256 requireApiKey keys count r) = (asked sha256 keys r).map
      fun key => ⟨key.toApiKeyConfig, r.time, count key.toApiKeyConfig⟩ := by
  cases hasked : asked sha256 keys r with
  | some key =>
    rw [answer_asked hasked]
    split <;> rfl
  | none =>
    unfold answer
    unfold asked at hasked
    cases hgiven : given r with
    | none => cases requireApiKey <;> rfl
    | some raw =>
      rw [hgiven, Option.bind_some] at hasked
      simp only [hasked]
      rfl

theorem entries_append (log : List (Request × Answer)) (x : Request × Answer) :
    entries (log ++ [x]) = entries log ++ (entryOf x).toList := by
  rw [entries, entries, List.filterMap_append]
  cases h : entryOf x with
  | none => rw [List.filterMap_cons_none h, Option.toList_none, List.filterMap_nil]
  | some e => rw [List.filterMap_cons_some h, Option.toList_some, List.filterMap_nil]

/-- The answers of the log, where nothing is ever forgotten. -/
def Due (sha256 : String → String) (requireApiKey : Bool) (keys : List ApiKey)
    (past log : List (Request × Answer)) : Prop :=
  Throughout (fun before x => x.2 = answer sha256 requireApiKey keys
    (fun key => due (entries (past ++ before)) key x.1.time) x.1) log

theorem Due.cons {x : Request × Answer}
    (hx : x.2 = answer sha256 requireApiKey keys (fun key => due (entries past) key x.1.time) x.1)
    (h : Due sha256 requireApiKey keys (past ++ [x]) log) :
    Due sha256 requireApiKey keys past (x :: log) := by
  refine throughout_cons.mpr ⟨by rwa [List.append_nil], ?_⟩
  simpa only [Due, List.append_assoc, List.singleton_append] using h

theorem Due.counted (h : Due sha256 requireApiKey keys [] log) :
    Counted (entries log) ∧ ∀ e ∈ entries log, ∃ key ∈ keys, e.key = key.toApiKeyConfig := by
  induction log using List.reverseRecOn with
  | nil => exact ⟨throughout_nil, fun e he => absurd he List.not_mem_nil⟩
  | append_singleton log x ih =>
    obtain ⟨hrest, hx⟩ := throughout_concat.mp h
    obtain ⟨hcounted, hkeys⟩ := ih hrest
    have hentry : entryOf x = (asked sha256 keys x.1).map fun key =>
        ⟨key.toApiKeyConfig, x.1.time, due (entries log) key.toApiKeyConfig x.1.time⟩ := by
      have hpair : x = (x.1, x.2) := rfl
      rw [hpair, hx, List.nil_append, entryOf_answer]
    rw [entries_append, hentry]
    cases hasked : asked sha256 keys x.1 with
    | none =>
      rw [Option.map_none, Option.toList_none, List.append_nil]
      exact ⟨hcounted, hkeys⟩
    | some key =>
      refine ⟨throughout_concat.mpr ⟨hcounted, rfl⟩, List.forall_mem_append.mpr ⟨hkeys, ?_⟩⟩
      exact List.forall_mem_singleton.mpr ⟨key, (asked_spec hasked).1, rfl⟩

end Log

end Suban.Indexer.Access

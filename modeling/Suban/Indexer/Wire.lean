import Suban.Indexer.Events
import Suban.Indexer.Financial

namespace Suban.Indexer.Wire

open Suban.Basis.JsonText (Json)
open Suban.Indexer.Database Suban.Indexer.Values Suban.Indexer.Events Suban.Indexer.StoredJson
open Suban.Indexer.Financial

variable {X : Type}

structure WireEvent where
  id : Option String
  ledger : Option Nat
  txHash : Option String
  transactionHash : Option String
  ledgerClosedAt : Option String
  topic : Option (List Json)
  topics : Option (List Json)
  value : Option Json

namespace WireEvent

variable (w : WireEvent)

def event : SorobanEvent X where
  id := w.id
  ledger := w.ledger
  txHash := w.txHash
  transactionHash := w.transactionHash
  ledgerClosedAt := w.ledgerClosedAt
  topic := w.topic.map ofJsonAll
  topics := w.topics.map ofJsonAll
  value := w.value.map ofJson

def allTopics : List Json := (w.topic.orElse fun _ => w.topics).getD []

def fields : List (String × Option Json) :=
  [("id", w.id.map .str), ("ledger", w.ledger.map fun n : Nat => .num n),
    ("txHash", w.txHash.map .str), ("transactionHash", w.transactionHash.map .str),
    ("ledgerClosedAt", w.ledgerClosedAt.map .str), ("topic", w.topic.map .arr),
    ("topics", w.topics.map .arr), ("value", w.value)]

/-- A field without a value is left out. -/
def object : Json := .obj (w.fields.filterMap fun f => f.2.map fun value => (f.1, value))

end WireEvent

theorem ofJsonFields_eq_map (fs : List (String × Json)) :
    (ofJsonFields fs : List (String × Value X)) = fs.map fun f => (f.1, ofJson f.2) := by
  induction fs with
  | nil => rfl
  | cons f fs ih => rw [ofJsonFields, ih, List.map_cons]

theorem lookup_filterMap {α : Type} (key : String) (fs : List (String × Option α))
    (h : (fs.map Prod.fst).Nodup) :
    (fs.filterMap fun f => f.2.map fun value => (f.1, value)).lookup key =
      (fs.lookup key).bind id := by
  induction fs with
  | nil => rfl
  | cons f fs ih =>
    obtain ⟨name, value⟩ := f
    obtain ⟨hnew, hrest⟩ := List.nodup_cons.mp h
    by_cases hkey : key = name
    · subst hkey
      cases value with
      | some v => simp
      | none =>
        have hmissing : fs.lookup key = none := by
          rw [List.lookup_eq_none_iff]
          intro g hg
          have hne : key ≠ g.1 := fun heq => hnew (List.mem_map.mpr ⟨g, hg, heq.symm⟩)
          simpa using hne
        simp [ih hrest, hmissing]
    · have hne : (key == name) = false := by simpa using hkey
      cases value with
      | some v => simp [List.lookup_cons, hne, ih hrest]
      | none => simp [List.lookup_cons, hne, ih hrest]

theorem lookup_map {α β : Type} (f : α → β) (key : String) (fs : List (String × α)) :
    (fs.map fun g => (g.1, f g.2)).lookup key = (fs.lookup key).map f := by
  induction fs with
  | nil => rfl
  | cons g fs ih =>
    rw [List.map_cons, List.lookup_cons, List.lookup_cons, ih]
    cases key == g.1 <;> rfl

theorem event_object (w : WireEvent) : (w.event : SorobanEvent X).object = ofJson w.object := by
  have hfields : (w.event : SorobanEvent X).object =
      .obj ((w.fields.map fun f => (f.1, f.2.map (ofJson (X := X)))).filterMap
        fun f => f.2.map fun value => (f.1, value)) := by
    simp only [SorobanEvent.object, WireEvent.event, WireEvent.fields, List.map_cons,
      List.map_nil, Option.map_map, Function.comp_def, ofJson]
  rw [hfields, WireEvent.object, ofJson, ofJsonFields_eq_map, List.filterMap_map,
    List.map_filterMap]
  simp only [Function.comp_def, Option.map_map]

theorem field_object (w : WireEvent) (key : String) :
    Value.field (ofJsonFields (w.fields.filterMap fun f => f.2.map fun value => (f.1, value)))
      key = (((w.fields.lookup key).bind id).map ofJson : Option (Value X)) := by
  have hnodup : (w.fields.map Prod.fst).Nodup := by
    simp only [WireEvent.fields, List.map_cons, List.map_nil]
    decide
  rw [Value.field, ofJsonFields_eq_map, lookup_map, lookup_filterMap key w.fields hnodup]

variable {sdk : ScValSdk X}

theorem topicsOf_stored {row : EventRow} (w : WireEvent)
    (hraw : row.raw = stringify sdk (w.event : SorobanEvent X).object) :
    topicsOf sdk row = (ofJsonAll w.allTopics).map (decodeScVal sdk) := by
  rw [topicsOf, hraw, event_object, parseJson_stringify, WireEvent.object, ofJson]
  simp only [present, field_object]
  have htopic : (w.fields.lookup "topic").bind id = w.topic.map .arr := rfl
  have htopics : (w.fields.lookup "topics").bind id = w.topics.map .arr := rfl
  rw [htopic, htopics, WireEvent.allTopics]
  cases w.topic with
  | some js => simp [ofJson]
  | none =>
    cases w.topics with
    | some js => simp [ofJson]
    | none => rfl

theorem event_allTopics (w : WireEvent) :
    (w.event : SorobanEvent X).allTopics = ofJsonAll w.allTopics := by
  unfold SorobanEvent.allTopics WireEvent.allTopics WireEvent.event
  cases w.topic with
  | some js => rfl
  | none => cases w.topics <;> rfl

section Rows

variable {P : Platform X} {contract : ContractConfig} {index now : Nat} {e : SorobanEvent X}

theorem eventType_stored {symbol : String} {accounts : List (Value X)}
    (h : e.allTopics.map (decodeScVal P.toScValSdk) = .str symbol :: accounts) :
    (eventRow P contract e index now).eventType = symbol := by
  obtain ⟨topic, topics, htopics, hdecoded, -⟩ := List.map_eq_cons_iff.mp h
  change eventTypeFrom P e = symbol
  simp only [eventTypeFrom, htopics, hdecoded]

theorem data_stored {v : Value X} {js : List Json} (hv : e.value = some v)
    (h : decodeScVal P.toScValSdk v = .arr (ofJsonAll js)) :
    parseJson (eventRow P contract e index now).data (.null : Value X) =
      .arr (ofJsonAll js) := by
  have hdata : eventData P e = .arr (ofJsonAll js) := by simp only [eventData, hv, h]
  have hstored : (eventRow P contract e index now).data =
      some (stringify P.toScValSdk (ofJson (.arr js))) := by
    simp only [eventRow, hdata, ofJson]
  rw [hstored, parseJson_stringify, ofJson]

end Rows

end Suban.Indexer.Wire

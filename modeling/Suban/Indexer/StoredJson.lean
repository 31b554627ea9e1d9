import Suban.Indexer.Values

namespace Suban.Indexer.StoredJson

open Suban.Basis.JsonText (Json print printAll printFields parse parse_print)
open Suban.Indexer.Values

variable {X : Type} (sdk : ScValSdk X)

mutual

def ofJson : Json → Value X
  | .null => .null
  | .bool b => .bool b
  | .num n => .num n
  | .str s => .str s
  | .arr entries => .arr (ofJsonAll entries)
  | .obj fields => .obj (ofJsonFields fields)

def ofJsonAll : List Json → List (Value X)
  | [] => []
  | j :: js => ofJson j :: ofJsonAll js

def ofJsonFields : List (String × Json) → List (String × Value X)
  | [] => []
  | (key, j) :: fs => (key, ofJson j) :: ofJsonFields fs

end

/-- A text that is no JSON leaves the fallback. -/
def parseJson (value : Option String) (fallback : Value X) : Value X :=
  match value.bind parse with
  | some j => ofJson j
  | none => fallback

mutual

theorem toList_stringify : ∀ j : Json, (stringify sdk (ofJson j)).toList = print j
  | .null => by
    rw [ofJson, stringify, print]
    decide
  | .bool true => by
    rw [ofJson, stringify, print]
    decide
  | .bool false => by
    rw [ofJson, stringify, print]
    decide
  | .num n => by rw [ofJson, stringify, print]
  | .str s => by rw [ofJson, stringify, print, String.toList_ofList]
  | .arr entries => by
    have hall := toList_stringifyAll entries
    simp only [ofJson, stringify, print, String.toList_append, hall]
    rfl
  | .obj fields => by
    have hall := toList_stringifyFields fields
    simp only [ofJson, stringify, print, String.toList_append, hall]
    rfl

theorem toList_stringifyAll : ∀ js : List Json,
    (",".intercalate (stringifyAll sdk (ofJsonAll js))).toList = printAll js
  | [] => rfl
  | [j] => by
    have hj := toList_stringify j
    simp only [ofJsonAll, stringifyAll, String.intercalate_singleton, printAll, hj]
  | j :: k :: js => by
    have hj := toList_stringify j
    have hjs := toList_stringifyAll (k :: js)
    simp only [ofJsonAll, stringifyAll] at hjs
    simp only [ofJsonAll, stringifyAll, String.intercalate_cons_cons, String.toList_append, hj,
      hjs, printAll]
    simp

theorem toList_stringifyFields : ∀ fs : List (String × Json),
    (",".intercalate (stringifyFields sdk (ofJsonFields fs))).toList = printFields fs
  | [] => rfl
  | [(key, j)] => by
    have hj := toList_stringify j
    simp only [ofJsonFields, stringifyFields, String.intercalate_singleton, printFields,
      String.toList_append, String.toList_ofList, hj]
    simp
  | (key, j) :: (key', k) :: fs => by
    have hj := toList_stringify j
    have hfs := toList_stringifyFields ((key', k) :: fs)
    simp only [ofJsonFields, stringifyFields] at hfs
    simp only [ofJsonFields, stringifyFields, String.intercalate_cons_cons, String.toList_append,
      String.toList_ofList, hj, hfs, printFields]
    simp

end

theorem parseJson_stringify (j : Json) (fallback : Value X) :
    parseJson (some (stringify sdk (ofJson j))) fallback = ofJson j := by
  have htext : stringify sdk (ofJson j) = String.ofList (print j) := by
    rw [← toList_stringify sdk j, String.ofList_toList]
  rw [parseJson, Option.bind_some, htext, parse_print]

end Suban.Indexer.StoredJson

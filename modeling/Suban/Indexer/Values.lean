import Suban.Basis.JsonText

namespace Suban.Indexer.Values

open Suban.Basis.JsonText (quote)

/-- What a Soroban value may look like on its way into the store. `X` is the type
of the values that the Stellar SDK keeps in its own form. -/
inductive Value (X : Type) where
  | null
  | bool (b : Bool)
  | num (n : Int)
  | bigint (n : Int)
  | str (s : String)
  | arr (entries : List (Value X))
  | obj (fields : List (String × Value X))
  | scval (x : X)

/-- The part of the SDK that the indexer reads values with. A text that is not
the XDR of a value has no native form. -/
structure ScValSdk (X : Type) where
  scValToNative : X → Value X
  nativeOfXdr : String → Option (Value X)
  ownFields : X → List (String × Value X)
  toJson : X → String

variable {X : Type}

namespace Value

def field (fields : List (String × Value X)) (key : String) : Option (Value X) := fields.lookup key

def entries? : Value X → Option (List (Value X))
  | .arr entries => some entries
  | _ => none

end Value

section Decoding

variable (sdk : ScValSdk X)

mutual

/-- Big integers become texts. -/
def normalize : Value X → Value X
  | .bigint n => .str (toString n)
  | .arr entries => .arr (normalizeAll entries)
  | .obj fields => .obj (normalizeFields fields)
  | .scval x => .obj (sdk.ownFields x)
  | value => value

def normalizeAll : List (Value X) → List (Value X)
  | [] => []
  | value :: values => normalize value :: normalizeAll values

def normalizeFields : List (String × Value X) → List (String × Value X)
  | [] => []
  | (key, value) :: fields => (key, normalize value) :: normalizeFields fields

end

def integerKeys : List String := ["i128", "u128", "i64", "u64", "i32", "u32", "i256", "u256"]

/-- An object that wraps one value under the name of its type stands for that
value. `decoded` has its fields decoded. -/
def decodeRecord (record decoded : List (String × Value X)) : Value X :=
  let vec := (Value.field record "vec").bind Value.entries?
  let map := (Value.field record "map").bind Value.entries?
  if let some symbol := Value.field record "symbol" then symbol
  else if let some address := Value.field record "address" then address
  else if vec.isSome then (Value.field decoded "vec").getD .null
  else if map.isSome then (Value.field decoded "map").getD .null
  else if let some b := Value.field record "bool" then b
  else if (Value.field record "void").isSome then .null
  else if let some n := integerKeys.findSome? (Value.field record) then n
  else if let some bytes := Value.field record "bytes" then bytes
  else .obj decoded

mutual

def decodeRaw : Value X → Value X
  | .scval x => sdk.scValToNative x
  | .str s => (sdk.nativeOfXdr s).getD (.str s)
  | .arr entries => .arr (decodeAll entries)
  | .obj record => decodeRecord record (decodeFields record)
  | value => value

def decodeAll : List (Value X) → List (Value X)
  | [] => []
  | value :: values => decodeRaw value :: decodeAll values

def decodeFields : List (String × Value X) → List (String × Value X)
  | [] => []
  | (key, value) :: fields => (key, decodeRaw value) :: decodeFields fields

end

def decodeScVal (value : Value X) : Value X := normalize sdk (decodeRaw sdk value)

end Decoding

section Printing

variable (sdk : ScValSdk X)

mutual

/-- The JSON text of a value. A big integer has none. The indexer only prints
values without any. -/
def stringify : Value X → String
  | .null => "null"
  | .bool b => toString b
  | .num n => toString n
  | .bigint n => toString n
  | .str s => String.ofList (quote s.toList)
  | .arr entries => "[" ++ ",".intercalate (stringifyAll entries) ++ "]"
  | .obj fields => "\x7b" ++ ",".intercalate (stringifyFields fields) ++ "\x7d"
  | .scval x => sdk.toJson x

def stringifyAll : List (Value X) → List String
  | [] => []
  | value :: values => stringify value :: stringifyAll values

def stringifyFields : List (String × Value X) → List String
  | [] => []
  | (key, value) :: fields =>
    (String.ofList (quote key.toList) ++ ":" ++ stringify value) :: stringifyFields fields

end

end Printing

end Suban.Indexer.Values

import Mathlib.Data.List.Sort
import Suban.Basis.Numbers
import Suban.Indexer.StoredJson

namespace Suban.Indexer.Encodings

open Suban.Basis.JsonText (Json)
open Suban.Basis.Numbers Suban.Indexer.Values Suban.Indexer.StoredJson

inductive IntType where
  | i32
  | u32
  | i64
  | u64
  | i128
  | u128
  | i256
  | u256

namespace IntType

def key : IntType → String
  | i32 => "i32"
  | u32 => "u32"
  | i64 => "i64"
  | u64 => "u64"
  | i128 => "i128"
  | u128 => "u128"
  | i256 => "i256"
  | u256 => "u256"

def Fits : IntType → Int → Prop
  | i32, n => -2 ^ 31 ≤ n ∧ n < 2 ^ 31
  | u32, n => 0 ≤ n ∧ n < 2 ^ 32
  | i64, n => -2 ^ 63 ≤ n ∧ n < 2 ^ 63
  | u64, n => 0 ≤ n ∧ n < 2 ^ 64
  | i128, n => -2 ^ 127 ≤ n ∧ n < 2 ^ 127
  | u128, n => 0 ≤ n ∧ n < 2 ^ 128
  | i256, n => -2 ^ 255 ≤ n ∧ n < 2 ^ 255
  | u256, n => 0 ≤ n ∧ n < 2 ^ 256

/-- Numbers are wide enough for the types of 32 bits. -/
def narrow : IntType → Bool
  | i32 | u32 => true
  | _ => false

end IntType

/-- A value of a contract. -/
inductive ScVal where
  | symbol (text : String)
  | address (text : String)
  | bool (b : Bool)
  | void
  | int (type : IntType) (n : Int) (fits : type.Fits n)
  | vec (entries : List ScVal)
  | map (entries : List (ScVal × ScVal))

variable {X : Type}

section Keys

mutual

def propertyKey : Value X → String
  | .null => "null"
  | .bool b => if b then "true" else "false"
  | .num n => toString n
  | .bigint n => toString n
  | .str s => s
  | .arr entries => ",".intercalate (entryKeys entries)
  | .obj _ => "[object Object]"
  | .scval _ => "[object Object]"

def entryKeys : List (Value X) → List String
  | [] => []
  | .null :: values => "" :: entryKeys values
  | value :: values => propertyKey value :: entryKeys values

end

/-- Names that count as indices come before the others, in their order. -/
def indexOf (key : String) : Option Nat :=
  (numeral key.toList).filter fun n => decide (toString n = key ∧ n < 2 ^ 32 - 1)

/-- A field of an object is set: one of its name keeps its place. -/
def setField (fields : List (String × Value X)) (entry : String × Value X) :
    List (String × Value X) :=
  if fields.any fun f => f.1 = entry.1 then
    fields.map fun f => if f.1 = entry.1 then entry else f
  else fields ++ [entry]

def fromEntries (entries : List (String × Value X)) : List (String × Value X) :=
  let fields := entries.foldl setField []
  (fields.filter fun f => (indexOf f.1).isSome).insertionSort
      (fun f g => (indexOf f.1).getD 0 ≤ (indexOf g.1).getD 0) ++
    fields.filter fun f => (indexOf f.1).isNone

end Keys

mutual

def native : ScVal → Value X
  | .symbol text => .str text
  | .address text => .str text
  | .bool b => .bool b
  | .void => .null
  | .int type n _ => if type.narrow then .num n else .bigint n
  | .vec entries => .arr (nativeAll entries)
  | .map entries => .obj (fromEntries (nativeFields entries))

def nativeAll : List ScVal → List (Value X)
  | [] => []
  | v :: vs => native v :: nativeAll vs

def nativeFields : List (ScVal × ScVal) → List (String × Value X)
  | [] => []
  | (key, val) :: es => (propertyKey (native key : Value X), native val) :: nativeFields es

end

section Objects

variable (nothing : Value X)

mutual

/-- The value as other servers send it, with something under the name of a void. -/
def objectForm : ScVal → Value X
  | .symbol text => .obj [("symbol", .str text)]
  | .address text => .obj [("address", .str text)]
  | .bool b => .obj [("bool", .bool b)]
  | .void => .obj [("void", nothing)]
  | .int type n _ => .obj [(type.key, if type.narrow then .num n else .str (toString n))]
  | .vec entries => .obj [("vec", .arr (objectForms entries))]
  | .map entries => .obj [("map", .arr (objectEntries entries))]

def objectForms : List ScVal → List (Value X)
  | [] => []
  | v :: vs => objectForm v :: objectForms vs

def objectEntries : List (ScVal × ScVal) → List (Value X)
  | [] => []
  | (key, val) :: es => .obj [("key", objectForm key), ("val", objectForm val)] :: objectEntries es

end

end Objects

mutual

def mapFree : ScVal → Bool
  | .vec entries => mapFreeAll entries
  | .map _ => false
  | _ => true

def mapFreeAll : List ScVal → Bool
  | [] => true
  | v :: vs => mapFree v && mapFreeAll vs

end

section Decoding

variable (sdk : ScValSdk X) (nothing : Value X)

/-- An object with one of the names of the types is decoded to what stands under
it. -/
theorem decode_atom (type : IntType) (w : Value X) :
    decodeRaw sdk (.obj [("symbol", w)]) = w ∧ decodeRaw sdk (.obj [("address", w)]) = w ∧
      decodeRaw sdk (.obj [("bool", w)]) = w ∧ decodeRaw sdk (.obj [("void", w)]) = .null ∧
      decodeRaw sdk (.obj [(type.key, w)]) = w := by
  refine ⟨rfl, rfl, rfl, rfl, ?_⟩
  cases type <;> rfl

theorem decode_vec (ws : List (Value X)) :
    decodeRaw sdk (.obj [("vec", .arr ws)]) = .arr (decodeAll sdk ws) := rfl

theorem decode_map (ws : List (Value X)) :
    decodeRaw sdk (.obj [("map", .arr ws)]) = .arr (decodeAll sdk ws) := rfl

theorem decode_entry (key val : Value X) :
    decodeRaw sdk (.obj [("key", key), ("val", val)]) =
      .obj [("key", decodeRaw sdk key), ("val", decodeRaw sdk val)] := rfl

mutual

/-- The two forms of a value come to the same unless there is a map in it, which
the one has as an object and the other as a list. -/
theorem decode_objectForm : ∀ v : ScVal,
    decodeScVal sdk (objectForm nothing v) = Values.normalize sdk (native v) ↔ mapFree v = true
  | .symbol text => iff_of_true rfl rfl
  | .address text => iff_of_true rfl rfl
  | .bool b => iff_of_true rfl rfl
  | .void => iff_of_true rfl rfl
  | .int type n fits => by
    refine iff_of_true ?_ rfl
    rw [objectForm, decodeScVal, (decode_atom sdk type _).2.2.2.2, native]
    cases type.narrow <;> rfl
  | .vec entries => by
    have hall := decodeAll_objectForms entries
    rw [objectForm, decodeScVal, decode_vec, native, Values.normalize, Values.normalize,
      Value.arr.injEq, hall]
    rfl
  | .map entries => by
    refine iff_of_false ?_ nofun
    rw [objectForm, decodeScVal, decode_map, native, Values.normalize, Values.normalize]
    nofun

theorem decodeAll_objectForms : ∀ vs : List ScVal,
    normalizeAll sdk (decodeAll sdk (objectForms nothing vs)) = normalizeAll sdk (nativeAll vs) ↔
      mapFreeAll vs = true
  | [] => iff_of_true rfl rfl
  | v :: vs => by
    have hv := decode_objectForm v
    have hvs := decodeAll_objectForms vs
    rw [decodeScVal] at hv
    rw [objectForms, decodeAll, normalizeAll, nativeAll, normalizeAll, List.cons.injEq, hv, hvs,
      mapFreeAll, Bool.and_eq_true]

end

def IsJson (w : Value X) : Prop := ∃ j : Json, w = ofJson j

theorem isJson_arr {ws : List (Value X)} (h : ∀ w ∈ ws, IsJson w) : IsJson (.arr ws) := by
  have hall : ∃ js : List Json, ws = ofJsonAll js := by
    induction ws with
    | nil => exact ⟨[], rfl⟩
    | cons w ws ih =>
      obtain ⟨⟨j, rfl⟩, hrest⟩ := List.forall_mem_cons.mp h
      obtain ⟨js, rfl⟩ := ih hrest
      exact ⟨j :: js, rfl⟩
  obtain ⟨js, rfl⟩ := hall
  exact ⟨.arr js, by rw [ofJson]⟩

theorem isJson_obj {fs : List (String × Value X)} (h : ∀ f ∈ fs, IsJson f.2) :
    IsJson (.obj fs) := by
  have hall : ∃ js : List (String × Json), fs = ofJsonFields js := by
    induction fs with
    | nil => exact ⟨[], rfl⟩
    | cons f fs ih =>
      obtain ⟨⟨j, hj⟩, hrest⟩ := List.forall_mem_cons.mp h
      obtain ⟨js, rfl⟩ := ih hrest
      exact ⟨(f.1, j) :: js, by rw [ofJsonFields, ← hj]⟩
  obtain ⟨js, rfl⟩ := hall
  exact ⟨.obj js, by rw [ofJson]⟩

theorem normalizeAll_eq_map (ws : List (Value X)) :
    normalizeAll sdk ws = ws.map (Values.normalize sdk) := by
  induction ws with
  | nil => rfl
  | cons w ws ih => rw [normalizeAll, ih, List.map_cons]

theorem normalizeFields_eq_map (fs : List (String × Value X)) :
    normalizeFields sdk fs = fs.map fun f => (f.1, Values.normalize sdk f.2) := by
  induction fs with
  | nil => rfl
  | cons f fs ih => rw [normalizeFields, ih, List.map_cons]

theorem mem_fromEntries {entries : List (String × Value X)} {f : String × Value X}
    (h : f ∈ fromEntries entries) : f ∈ entries := by
  have hset : ∀ (es fields : List (String × Value X)), f ∈ es.foldl setField fields →
      f ∈ es ∨ f ∈ fields := by
    intro es
    induction es with
    | nil => exact fun fields hf => .inr hf
    | cons e es ih =>
      intro fields hf
      obtain hes | hfields := ih _ hf
      · exact .inl (List.mem_cons_of_mem e hes)
      · unfold setField at hfields
        split at hfields
        · obtain ⟨g, hg, heq⟩ := List.mem_map.mp hfields
          split at heq
          · exact .inl (heq ▸ List.mem_cons_self)
          · exact .inr (heq ▸ hg)
        · obtain hold | hnew := List.mem_append.mp hfields
          · exact .inr hold
          · exact .inl (List.mem_singleton.mp hnew ▸ List.mem_cons_self)
  have hfields : f ∈ entries.foldl setField [] := by
    obtain h | h := List.mem_append.mp h
    · exact (List.mem_filter.mp ((List.mem_insertionSort _).mp h)).1
    · exact (List.mem_filter.mp h).1
  exact (hset entries [] hfields).resolve_right List.not_mem_nil

mutual

theorem isJson_native : ∀ v : ScVal, IsJson (Values.normalize sdk (native v))
  | .symbol text => ⟨.str text, rfl⟩
  | .address text => ⟨.str text, rfl⟩
  | .bool b => ⟨.bool b, rfl⟩
  | .void => ⟨.null, rfl⟩
  | .int type n _ => by
    rw [native]
    cases type.narrow with
    | true => exact ⟨.num n, rfl⟩
    | false => exact ⟨.str (toString n), rfl⟩
  | .vec entries => by
    rw [native, Values.normalize, normalizeAll_eq_map]
    refine isJson_arr fun w hw => ?_
    obtain ⟨u, hu, rfl⟩ := List.mem_map.mp hw
    exact isJson_nativeAll entries u hu
  | .map entries => by
    rw [native, Values.normalize, normalizeFields_eq_map]
    refine isJson_obj fun f hf => ?_
    obtain ⟨g, hg, rfl⟩ := List.mem_map.mp hf
    exact isJson_nativeFields entries g (mem_fromEntries hg)

theorem isJson_nativeAll : ∀ vs : List ScVal, ∀ w ∈ nativeAll vs, IsJson (Values.normalize sdk w)
  | [] => nofun
  | v :: vs => List.forall_mem_cons.mpr ⟨isJson_native v, isJson_nativeAll vs⟩

theorem isJson_nativeFields : ∀ es : List (ScVal × ScVal), ∀ f ∈ nativeFields es,
    IsJson (Values.normalize sdk f.2)
  | [] => nofun
  | (_, val) :: es => List.forall_mem_cons.mpr ⟨isJson_native val, isJson_nativeFields es⟩

end

mutual

theorem isJson_objectForm : ∀ v : ScVal, IsJson (decodeScVal sdk (objectForm nothing v))
  | .symbol text => ⟨.str text, rfl⟩
  | .address text => ⟨.str text, rfl⟩
  | .bool b => ⟨.bool b, rfl⟩
  | .void => ⟨.null, rfl⟩
  | .int type n _ => by
    rw [objectForm, decodeScVal, (decode_atom sdk type _).2.2.2.2]
    cases type.narrow with
    | true => exact ⟨.num n, rfl⟩
    | false => exact ⟨.str (toString n), rfl⟩
  | .vec entries => by
    rw [objectForm, decodeScVal, decode_vec, Values.normalize]
    exact isJson_arr (isJson_objectForms entries)
  | .map entries => by
    rw [objectForm, decodeScVal, decode_map, Values.normalize]
    exact isJson_arr (isJson_objectEntries entries)

theorem isJson_objectForms : ∀ vs : List ScVal,
    ∀ w ∈ normalizeAll sdk (decodeAll sdk (objectForms nothing vs)), IsJson w
  | [] => nofun
  | v :: vs => List.forall_mem_cons.mpr ⟨isJson_objectForm v, isJson_objectForms vs⟩

theorem isJson_objectEntries : ∀ es : List (ScVal × ScVal),
    ∀ w ∈ normalizeAll sdk (decodeAll sdk (objectEntries nothing es)), IsJson w
  | [] => nofun
  | (key, val) :: es => by
    refine List.forall_mem_cons.mpr ⟨?_, isJson_objectEntries es⟩
    rw [decode_entry, Values.normalize]
    refine isJson_obj (List.forall_mem_cons.mpr ⟨isJson_objectForm key, ?_⟩)
    exact List.forall_mem_singleton.mpr (isJson_objectForm val)

end

theorem stringify_inj {u w : Value X} (hu : IsJson u) (hw : IsJson w) :
    stringify sdk u = stringify sdk w ↔ u = w := by
  obtain ⟨j, rfl⟩ := hu
  obtain ⟨k, rfl⟩ := hw
  refine ⟨fun h => ?_, fun h => by rw [h]⟩
  have hj := parseJson_stringify sdk j (.null : Value X)
  rw [h, parseJson_stringify] at hj
  exact hj.symm

/-- The indexer stores one text for a value in either encoding exactly where the
value has no map in it. -/
theorem encodings_agree_iff (v : ScVal) {text : String}
    (hxdr : sdk.nativeOfXdr text = some (native v)) :
    stringify sdk (decodeScVal sdk (.str text)) =
        stringify sdk (decodeScVal sdk (objectForm nothing v)) ↔ mapFree v = true := by
  have hdecoded : decodeScVal sdk (.str text) = Values.normalize sdk (native v) := by
    rw [decodeScVal, decodeRaw, hxdr, Option.getD_some]
  rw [hdecoded, stringify_inj sdk (isJson_native sdk v) (isJson_objectForm sdk nothing v),
    ← decode_objectForm sdk nothing v]
  exact eq_comm

end Decoding

section Sample

/-- The XDR of a vector of the symbol `swap` and one, and of the map from the
symbol `a` to one. -/
def sampleSdk : ScValSdk Empty where
  scValToNative x := nomatch x
  nativeOfXdr text :=
    if text = "AAAAEAAAAAEAAAACAAAADwAAAARzd2FwAAAAAwAAAAE=" then
      some (.arr [.str "swap", .num 1])
    else if text = "AAAAEQAAAAEAAAABAAAADwAAAAFhAAAAAAAAAwAAAAE=" then some (.obj [("a", .num 1)])
    else none
  ownFields x := nomatch x
  toJson x := nomatch x

def sampleVector : ScVal := .vec [.symbol "swap", .int .u32 1 ⟨by decide, by decide⟩]

theorem native_sampleVector :
    (native sampleVector : Value Empty) = .arr [.str "swap", .num 1] := by
  simp [sampleVector, native, nativeAll, IntType.narrow]

theorem encodings_agree_iff_sample :
    stringify sampleSdk (decodeScVal sampleSdk
        (.str "AAAAEAAAAAEAAAACAAAADwAAAARzd2FwAAAAAwAAAAE=")) =
      stringify sampleSdk (decodeScVal sampleSdk (objectForm .null sampleVector)) := by
  have hxdr : sampleSdk.nativeOfXdr "AAAAEAAAAAEAAAACAAAADwAAAARzd2FwAAAAAwAAAAE=" =
      some (native sampleVector) := by
    rw [native_sampleVector]
    simp [sampleSdk]
  exact (encodings_agree_iff sampleSdk .null sampleVector hxdr).mpr (by decide)

def sampleMap : ScVal := .map [(.symbol "a", .int .u32 1 ⟨by decide, by decide⟩)]

theorem native_sampleMap : (native sampleMap : Value Empty) = .obj [("a", .num 1)] := by
  have hkey : indexOf "a" = none := by decide +kernel
  simp [sampleMap, native, nativeFields, fromEntries, setField, propertyKey, IntType.narrow, hkey]

/-- The one encoding gives an object, the other a list of keys and values. -/
theorem map_encodings_differ :
    sampleSdk.nativeOfXdr "AAAAEQAAAAEAAAABAAAADwAAAAFhAAAAAAAAAwAAAAE=" =
        some (native sampleMap) ∧
      stringify sampleSdk (decodeScVal sampleSdk
          (.str "AAAAEQAAAAEAAAABAAAADwAAAAFhAAAAAAAAAwAAAAE=")) ≠
        stringify sampleSdk (decodeScVal sampleSdk (objectForm .null sampleMap)) := by
  refine ⟨?_, ?_⟩
  · rw [native_sampleMap]
    simp [sampleSdk]
  · decide +kernel

end Sample

end Suban.Indexer.Encodings

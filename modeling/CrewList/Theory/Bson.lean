/-
# CrewList.Theory.Bson -- BSON as a serde format

The element kinds the server writes or a validator tells apart are constructors
of their own; every other kind is `foreign`, which keeps its type tag.  A date is
its signed 64-bit count of milliseconds.

A `DateCodec` is a timestamp type together with the dates it is written as.  It
need not reach every date: a date no timestamp is written as may still be read as
one (`reading`).  `Bson.DatesIn` says which documents hold only dates from a given
set, and `DistinctKeys` that no document level repeats a key.
-/
import CrewList.Theory.Derive

namespace CrewList.Theory.Serde

set_option autoImplicit false

/-- The element kinds kept as raw bytes. -/
inductive ForeignType where
  | double | binData | undefined | regex | dbPointer | javascript | symbol
  | javascriptWithScope | timestamp | decimal | minKey | maxKey
  deriving DecidableEq, Repr

/-- The `bsonType` aliases. -/
inductive BsonType where
  | string | object | array | objectId | bool | date | null | int | long
  | foreign (type : ForeignType)
  deriving DecidableEq, Repr

inductive Bson where
  | null
  | boolean (b : Bool)
  | int32 (n : Int32)
  | int64 (n : Int64)
  | string (s : String)
  | objectId (bytes : BitVec 96)
  | dateTime (millis : Int64)
  | array (elements : List Bson)
  | document (entries : List (String × Bson))
  | foreign (type : ForeignType) (bytes : List UInt8)

namespace Bson

def type : Bson → BsonType
  | .null => .null
  | .boolean _ => .bool
  | .int32 _ => .int
  | .int64 _ => .long
  | .string _ => .string
  | .objectId _ => .objectId
  | .dateTime _ => .date
  | .array _ => .array
  | .document _ => .object
  | .foreign type _ => .foreign type

instance : Deserializer Bson where
  deserializeBool
    | .boolean b => .ok b
    | _ => .error (.invalidType "a boolean")
  deserializeInt
    | .int32 n => .ok n.toInt
    | .int64 n => .ok n.toInt
    | _ => .error (.invalidType "an integer")
  deserializeStr
    | .string s => .ok s
    | _ => .error (.invalidType "a string")
  deserializeOption
    | .null => none
    | v => some v
  deserializeSeq
    | .array vs => .ok vs
    | _ => .error (.invalidType "a sequence")
  deserializeStruct
    | .document es => .ok (.entries es)
    | .array vs => .ok (.elements vs)
    | _ => .error (.invalidType "a struct")

instance : Serializer Bson where
  serializeBool := .boolean
  serializeI32 := .int32
  serializeI64 := .int64
  serializeStr := .string
  serializeNone := .null
  serializeSeq := .array
  serializeMap := .document

instance : LawfulFormat Bson where
  bool _ := rfl
  i32 _ := rfl
  i64 _ := rfl
  str _ := rfl
  seq _ := rfl
  map _ := rfl
  none := rfl
  some_i64 _ := rfl
  some_str _ := rfl

/-! ## Documents with distinct keys, and their dates -/

mutual

/-- No document level repeats a key. -/
def DistinctKeys : Bson → Prop
  | .array vs => DistinctKeysList vs
  | .document es => (es.map Prod.fst).Nodup ∧ DistinctKeysEntries es
  | _ => True

def DistinctKeysList : List Bson → Prop
  | [] => True
  | v :: vs => v.DistinctKeys ∧ DistinctKeysList vs

def DistinctKeysEntries : List (String × Bson) → Prop
  | [] => True
  | e :: es => e.2.DistinctKeys ∧ DistinctKeysEntries es

end

mutual

/-- Every date in the document, at any depth, satisfies `p`. -/
def DatesIn (p : Int64 → Prop) : Bson → Prop
  | .dateTime millis => p millis
  | .array vs => DatesInList p vs
  | .document es => DatesInEntries p es
  | _ => True

def DatesInList (p : Int64 → Prop) : List Bson → Prop
  | [] => True
  | v :: vs => v.DatesIn p ∧ DatesInList p vs

def DatesInEntries (p : Int64 → Prop) : List (String × Bson) → Prop
  | [] => True
  | e :: es => e.2.DatesIn p ∧ DatesInEntries p es

end

theorem distinctKeysList_iff {vs : List Bson} :
    DistinctKeysList vs ↔ ∀ v ∈ vs, v.DistinctKeys := by
  induction vs with
  | nil => simp [DistinctKeysList]
  | cons v vs ih => simp [DistinctKeysList, ih]

theorem distinctKeysEntries_iff {es : List (String × Bson)} :
    DistinctKeysEntries es ↔ ∀ e ∈ es, e.2.DistinctKeys := by
  induction es with
  | nil => simp [DistinctKeysEntries]
  | cons e es ih => simp [DistinctKeysEntries, ih]

theorem datesInList_iff {p : Int64 → Prop} {vs : List Bson} :
    DatesInList p vs ↔ ∀ v ∈ vs, v.DatesIn p := by
  induction vs with
  | nil => simp [DatesInList]
  | cons v vs ih => simp [DatesInList, ih]

theorem datesInEntries_iff {p : Int64 → Prop} {es : List (String × Bson)} :
    DatesInEntries p es ↔ ∀ e ∈ es, e.2.DatesIn p := by
  induction es with
  | nil => simp [DatesInEntries]
  | cons e es ih => simp [DatesInEntries, ih]

end Bson

/-! ## Timestamps as dates -/

/-- A timestamp type written as a BSON date and read back unchanged.  Dates it does not
write may be read as well, or refused. -/
structure DateCodec (T : Type) where
  write : T → Int64
  read : Int64 → Option T
  read_write : ∀ t, read (write t) = some t

namespace DateCodec

variable {T : Type}

/-- The dates some timestamp is written as. -/
def Written (c : DateCodec T) (millis : Int64) : Prop := ∃ t, millis = c.write t

def codec (c : DateCodec T) : Codec Bson T :=
  .canonical (fun t => .dateTime (c.write t)) (fun
    | .dateTime millis =>
        match c.read millis with
        | some t => .ok t
        | none => .error (.custom "the date is out of range")
    | _ => .error (.invalidType "a date")) fun t => by simp [c.read_write]

/-- The dates that are read as some timestamp. -/
def Readable (c : DateCodec T) (millis : Int64) : Prop := ∃ t, c.read millis = some t

theorem Written.readable {c : DateCodec T} {millis : Int64} (written : c.Written millis) :
    c.Readable millis := by
  obtain ⟨t, rfl⟩ := written
  exact ⟨t, c.read_write t⟩

/-- The same codec, where a date spells the timestamp it is read as, whether or not that
one is written so. -/
def reading (c : DateCodec T) : Codec Bson T where
  encode := c.codec.encode
  decode := c.codec.decode
  Spells t v := ∃ millis, v = .dateTime millis ∧ c.read millis = some t
  spells_encode t := ⟨c.write t, rfl, c.read_write t⟩
  decode_spells := by
    rintro t v ⟨millis, rfl, read⟩
    simp [codec, Codec.canonical, read]

end DateCodec

end CrewList.Theory.Serde

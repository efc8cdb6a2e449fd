import ServiceFlow.Ir.Codec
import ServiceFlow.Value.Store

/-!
# Values as JSON

An abstract value is an object with its kind and, where there is one, its content; the pair of the
two is read as well, in some places also with the number of the kind.  The fields of an object value
are a list of pairs in ascending order; on reading, a later pair of the same field replaces an
earlier one.
-/

namespace ServiceFlow

open Json (record? required variant? noContent plainVariant? tagged)

namespace Value

def kindMembers : List String := ["kind", "value"]

def objectMembers : List String := ["ty", "fields"]

mutual

def encode : Value → Json
  | .unknown => .obj [("kind", .str "unknown")]
  | .str s => .obj [("kind", .str "string_const"), ("value", .str s)]
  | .cls name => .obj [("kind", .str "class_const"), ("value", .str name)]
  | .null => .obj [("kind", .str "null_const")]
  | .object type none =>
      .obj [("kind", .str "object_ref"), ("value", .obj [("ty", type.encode), ("fields", .null)])]
  | .object type (some fields) =>
      .obj [("kind", .str "object_ref"),
        ("value", .obj [("ty", type.encode), ("fields", .arr (encodeFields fields))])]

def encodeFields : List (FieldSig × Value) → List Json
  | [] => []
  | (f, v) :: rest => .arr [f.encode, v.encode] :: encodeFields rest

end

/-- The kinds in ascending order. -/
def kinds : List String := ["unknown", "string_const", "class_const", "null_const", "object_ref"]

/-- A kind by its name or by its number. -/
def numberedKind? : Json → Option String
  | .str name => some name
  | .int i => if 0 ≤ i then kinds[i.toNat]? else none
  | _ => none

/-- The kind and the content of a value, the kind of a pair read by `pairKind`. -/
def kindAndContent? (pairKind : Json → Option String) : Json → Option (String × Option Json)
  | .obj members =>
      match record? kindMembers (.obj members) with
      | some [kind, content] => (required plainVariant? kind).map (fun name => (name, content))
      | _ => none
  | .arr [kind, content] => (pairKind kind).map (fun name => (name, some content))
  | _ => none

/-- A field with its value, the value read by `read`. -/
def decodePair? (read : Json → Option Value) : Json → Option (FieldSig × Value)
  | .arr [f, v] => do
      let f ← FieldSig.decode? f
      let v ← read v
      return (f, v)
  | _ => none

/-- Pairs as the fields of an object, a later pair of a field replacing an earlier one. -/
def fieldsOfList (entries : List (FieldSig × Value)) : List (FieldSig × Value) :=
  entries.foldl (fun fields e => Sorted.insert e.1 e.2 fields) []

/-- The content of an object value, the values of its fields read by `read`. -/
def decodeObject? (read : Json → Option Value) : Json → Option Value
  | .obj members =>
      match record? objectMembers (.obj members) with
      | some [type, some .null] => (required ClassName.decode? type).map (fun c => .object c none)
      | some [type, some (.arr items)] => do
          let type ← required ClassName.decode? type
          let entries ← items.mapM (decodePair? read)
          return .object type (some (fieldsOfList entries))
      | _ => none
  | _ => none

/-- Reads a value whose objects are nested at most so deep. -/
def decodeWithin (pairKind : Json → Option String) : Nat → Json → Option Value
  | 0, _ => none
  | fuel + 1, j =>
      match kindAndContent? pairKind j with
      | some ("unknown", content) => if noContent content then some .unknown else none
      | some ("string_const", some content) => content.string?.map .str
      | some ("class_const", some content) => content.string?.map .cls
      | some ("null_const", content) => if noContent content then some .null else none
      | some ("object_ref", some content) => decodeObject? (decodeWithin pairKind fuel) content
      | _ => none

/-- Objects are nested no deeper than the JSON value is. -/
def decode? (j : Json) : Option Value := decodeWithin Json.string? (j.depth + 1) j

/-- Reads a value whose pairs may have the numbers of the kinds. -/
def decodeNumbered? (j : Json) : Option Value := decodeWithin numberedKind? (j.depth + 1) j

end Value

namespace Location

def varMembers : List String := ["method", "local"]

def encode : Location → Json
  | .var m l => tagged "local" (.obj [("method", m.encode), ("local", l.encode)])
  | .static f => tagged "static_field" f.encode

def decode? (j : Json) : Option Location :=
  match variant? j with
  | some ("local", some content) =>
      match record? varMembers content with
      | some [m, l] => do
          let m ← required MethodSig.decode? m
          let l ← required Local.decode? l
          return .var m l
      | _ => none
  | some ("static_field", some content) => (FieldSig.decode? content).map .static
  | _ => none

end Location

end ServiceFlow

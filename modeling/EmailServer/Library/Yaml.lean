import EmailServer.Library.Bytes

/-! # YAML trees

A parsed document, and the lookups of a library that turns a node into a map
when it is subscripted with a text. Anchors are resolved: a node that a document
uses twice is two nodes here.
-/

namespace EmailServer

inductive Yaml where
  | null
  | scalar (text : Bytes)
  | sequence (items : List Yaml)
  | map (pairs : List (Yaml × Yaml))

/-- Reading a text, printing a tree, and the text of a null, which some versions
    refuse to convert. -/
structure YamlLibrary where
  load : Bytes → Option Yaml
  emit : Yaml → Bytes
  nullText : Option Bytes

namespace Yaml

abbrev Fields := List (Yaml × Yaml)

/-- `as<std::string>()`; `none` when it throws. -/
def asString (yaml : YamlLibrary) : Yaml → Option Bytes
  | .null => yaml.nullText
  | .scalar text => some text
  | _ => none

def isKey (key : Bytes) : Yaml → Bool
  | .scalar text => text == key
  | _ => false

/-- What a subscript makes of a node; it throws on a scalar. The items of a
    sequence get their positions as keys. -/
def asMap : Yaml → Option Fields
  | .null => some []
  | .scalar _ => none
  | .sequence items =>
      some (items.zipIdx.map fun (item, i) => (.scalar (toDecimal i), item))
  | .map pairs => some pairs

/-- The value of the first pair with the key. -/
def find (key : Bytes) (fields : Fields) : Option Yaml :=
  (fields.find? fun pair => isKey key pair.1).map Prod.snd

/-- Assign to the first pair with the key, or to a new one. -/
def assign (key : Bytes) (value : Yaml) : Fields → Fields
  | [] => [(.scalar key, value)]
  | pair :: rest => if isKey key pair.1 then (pair.1, value) :: rest else pair :: assign key value rest

/-- The pairs an iteration gives; `none` when reading the first name throws,
    because the items of a sequence have none. -/
def pairs : Yaml → Option Fields
  | .null | .scalar _ | .sequence [] => some []
  | .sequence (_ :: _) => none
  | .map pairs => some pairs

@[simp] theorem asString_scalar (yaml : YamlLibrary) (text : Bytes) :
    (Yaml.scalar text).asString yaml = some text := rfl

@[simp] theorem asMap_map (fields : Fields) : (Yaml.map fields).asMap = some fields := rfl

@[simp] theorem find_assign (key : Bytes) (value : Yaml) (fields : Fields) :
    find key (assign key value fields) = some value := by
  induction fields with
  | nil => simp [assign, find, isKey]
  | cons pair rest ih =>
      unfold assign
      split
      · rename_i same
        simp [find, same]
      · rename_i other
        simpa [find, other] using ih

end Yaml

end EmailServer

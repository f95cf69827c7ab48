import WereraChess.Json.Value
/-!
# JSON forms

How values of a type are written as JSON and read back. A record is written as an object with all
its fields in order. It is read from an object in any order, unknown members ignored and none of its
own given twice, or from a list of its fields. A missing member stands for an empty optional field;
a list may end early only before fields that have a default.
-/

namespace WereraChess

class JsonForm (α : Type) where
  write : α → Json
  read : Json → Option α

namespace Json

/-- What a document says about a field of a record: what is given, that the object has no such
member, or that the list ends before the field. -/
inductive Slot where
  | given (j : Json)
  | absent
  | beyond

/-- The slots of a record by the names of its fields. -/
abbrev Slots := List (String × Slot)

/-- The text of a member name, which an unpaired surrogate has not. -/
def Quoted.text? : Quoted → Option String
  | .text s => some s
  | .unpaired => none

/-- What an object says about a field; `none` if it says it twice. -/
def slotOf? (members : List (String × Json)) (name : String) : Option Slot :=
  match members.filter (·.1 = name) with
  | [] => some .absent
  | [(_, j)] => some (.given j)
  | _ => none

/-- What a document says about the fields with the given names. -/
def slots? (names : List String) : Json → Option Slots
  | .obj members => do
    let named ← members.mapM fun (q, j) => q.text?.map (·, j)
    names.mapM fun name => (slotOf? named name).map (name, ·)
  | .arr items =>
    if items.length ≤ names.length then
      some (names.zipIdx.map fun (name, i) =>
        (name, match items[i]? with | some j => .given j | none => .beyond))
    else none
  | _ => none

namespace Slots

def required {α : Type} [JsonForm α] (slots : Slots) (name : String) : Option α :=
  match slots.lookup name with
  | some (.given j) => JsonForm.read j
  | _ => none

/-- An optional field, empty if it is `null` or has no member. -/
def optional {α : Type} [JsonForm α] (slots : Slots) (name : String) : Option (Option α) :=
  match slots.lookup name with
  | some (.given .null) | some .absent => some none
  | some (.given j) => (JsonForm.read j).map some
  | _ => none

def defaulted {α : Type} [JsonForm α] (slots : Slots) (name : String) (default : α) : Option α :=
  match slots.lookup name with
  | some (.given j) => JsonForm.read j
  | some .absent | some .beyond => some default
  | none => none

end Slots

/-- A name out of a list, written as a string. It is also read from an object with this one member,
which is `null`. -/
def readName {α : Type} (all : List α) (name : α → String) : Json → Option α
  | .str (.text s) => all.find? (name · = s)
  | .obj [(.text s, .null)] => all.find? (name · = s)
  | _ => none

def readNatBelow (bound : Nat) : Json → Option Nat
  | .int (.ofNat n) => if n < bound then some n else none
  | _ => none

/-- Items read one by one, all of which have to be readable. -/
def readItems {α : Type} (read : Json → Option α) : Json → Option (List α)
  | .arr items => items.mapM read
  | _ => none

end Json

namespace JsonForm

instance : JsonForm Bool where
  write b := .bool b
  read
    | .bool b => some b
    | _ => none

instance : JsonForm String where
  write s := .ofText s
  read
    | .str (.text s) => some s
    | _ => none

instance : JsonForm UInt8 where
  write n := .int n.toNat
  read j := (Json.readNatBelow UInt8.size j).map Nat.toUInt8

instance : JsonForm UInt32 where
  write n := .int n.toNat
  read j := (Json.readNatBelow UInt32.size j).map Nat.toUInt32

instance : JsonForm UInt64 where
  write n := .int n.toNat
  read j := (Json.readNatBelow UInt64.size j).map Nat.toUInt64

instance {α : Type} [JsonForm α] : JsonForm (Option α) where
  write
    | some a => write a
    | none => .null
  read
    | .null => some none
    | j => (read j).map some

instance {α : Type} [JsonForm α] : JsonForm (List α) where
  write l := .arr (l.map write)
  read := Json.readItems read

end JsonForm

end WereraChess

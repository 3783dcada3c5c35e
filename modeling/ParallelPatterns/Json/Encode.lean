import ParallelPatterns.Json.Writer
import ParallelPatterns.Table
import ParallelPatterns.Text.Basic

/-!
# Values of other types as JSON

`Encode` gives the JSON form of a value, `Decode` reads one. Reading is total: what has another
shape stands for the default of the type. Collections without an order are wrapped as `Unordered`,
which sorts their items.
-/

namespace ParallelPatterns

/-- Types whose values have a JSON form. -/
class Encode (α : Type) where
  encode : α → Json

/-- Types whose values are read from JSON. -/
class Decode (α : Type) where
  decode : Json → α

export Encode (encode)
export Decode (decode)

/-- A collection whose items have no order. -/
structure Unordered (α : Type) where
  items : List α

instance : Encode Json := ⟨id⟩

instance : Encode String := ⟨.str⟩

instance : Encode Int := ⟨.int⟩

instance : Encode Nat := ⟨fun n => .int n⟩

instance : Encode Bool := ⟨.bool⟩

instance : Encode Unit := ⟨fun _ => .null⟩

/-- Real numbers are written with nine places. -/
instance : Encode Float := ⟨fun x => .str (Decimal.fixed 9 x)⟩

instance {α : Type} [Encode α] : Encode (Option α) where
  encode
    | some a => encode a
    | none => .null

instance {α : Type} [Encode α] : Encode (List α) := ⟨fun xs => .arr (xs.map encode)⟩

instance {α : Type} [Encode α] : Encode (Unordered α) :=
  ⟨fun s => .arr (Json.sortValues (s.items.map encode))⟩

/-- The last items of a tuple. -/
class EncodeRest (α : Type) where
  encodeRest : α → List Json

instance (priority := low) {α : Type} [Encode α] : EncodeRest α := ⟨fun a => [encode a]⟩

instance {α β : Type} [Encode α] [EncodeRest β] : EncodeRest (α × β) :=
  ⟨fun p => encode p.1 :: EncodeRest.encodeRest p.2⟩

instance {α β : Type} [Encode α] [EncodeRest β] : Encode (α × β) :=
  ⟨fun p => .arr (encode p.1 :: EncodeRest.encodeRest p.2)⟩

/-- Keys that are written as text. -/
class EncodeKey (κ : Type) where
  key : κ → String

instance : EncodeKey String := ⟨id⟩

instance : EncodeKey Int := ⟨toString⟩

instance {κ ν : Type} [EncodeKey κ] [Encode ν] : Encode (Table κ ν) :=
  ⟨fun t => .obj (t.entries.map fun e => (EncodeKey.key e.1, encode e.2))⟩

/-- Texts collected under keys have no order. -/
instance {κ : Type} [EncodeKey κ] : Encode (Table κ (List String)) :=
  ⟨fun t => encode (t.map fun _ xs => Unordered.mk xs)⟩

namespace Json

def item (j : Json) (i : Nat) : Json := ((j.items?.getD [])[i]?).getD .null

def field (j : Json) (key : String) : Json := (j.get? key).getD .null

def shownMembers (ms : List (String × Json)) : List (String × Json) :=
  ms.filter fun m => !Text.begins "_" m.1

end Json

instance : Decode Json := ⟨id⟩

instance : Decode String := ⟨fun j => j.text?.getD ""⟩

instance : Decode (Option String) := ⟨Json.text?⟩

instance : Decode Int := ⟨fun j => j.int?.getD 0⟩

instance : Decode Nat := ⟨fun j => (j.int?.getD 0).toNat⟩

instance : Decode (Option Int) := ⟨Json.int?⟩

instance : Decode Bool where
  decode
    | .bool b => b
    | _ => false

instance : Decode Float where
  decode
    | .real x => x
    | j => Float.ofInt (decode j)

instance {α : Type} [Decode α] : Decode (List α) := ⟨fun j => (j.items?.getD []).map decode⟩

/-- The last items of a tuple. -/
class DecodeRest (α : Type) where
  decodeRest : List Json → α

instance (priority := low) {α : Type} [Decode α] : DecodeRest α := ⟨fun js => decode (js.headD .null)⟩

instance {α β : Type} [Decode α] [DecodeRest β] : DecodeRest (α × β) :=
  ⟨fun js => (decode (js.headD .null), DecodeRest.decodeRest js.tail)⟩

instance {α β : Type} [Decode α] [DecodeRest β] : Decode (α × β) :=
  ⟨fun j => DecodeRest.decodeRest (j.items?.getD [])⟩

/-- Keys that are read from text. -/
class DecodeKey (κ : Type) where
  ofKey : String → κ

instance : DecodeKey String := ⟨id⟩

instance : DecodeKey Int := ⟨fun s => s.toInt?.getD 0⟩

instance {κ ν : Type} [DecodeKey κ] [Decode ν] : Decode (Table κ ν) :=
  ⟨fun j => ⟨(j.members?.getD []).map fun (k, v) => (DecodeKey.ofKey k, decode v)⟩⟩

end ParallelPatterns

import PubsubVenue.Bytes
import Mathlib.Data.Vector.Defs

/-! # Definitions of messages

A file of the serialisation language declares enumerations and messages. A message's fields are of
primitive types, strings, byte strings, arrays of primitives, lists, and of the enumerations and
messages declared; each may be optional. The C++ generator emits, for each message, functions that
are built along the types of its fields, and that call those of the messages it refers to.

* **`WireType`**, **`WireFields`**: types with what they refer to written out.
* **`emit`**: the messages of a file for which the generator emits functions that compile.
* **`emit_compact`**: no message that is emitted, nor any message within it, holds more in arrays
  and numbers than an object may.
* **`Value`**, **`Values`**: what a field of a type holds, and what a message holds.

What the validator refuses besides unknown names (names and ids declared twice, cycles, enumerations
with a value twice, wrong topics) is not asked for here: the results hold of those files too. -/

namespace PubsubVenue

/-- The primitive types. -/
inductive PrimitiveType
  | i8
  | char
  | bool
  | i16
  | i32
  | i64
  | datetimeNs
  deriving DecidableEq

/-- The types that an enumeration may be stored as. -/
inductive UnderlyingType
  | i8
  | i16
  | i32
  | i64
  | char
  deriving DecidableEq

/-- A type, as a definition writes it. -/
inductive TypeNode
  | primitive (type : PrimitiveType)
  | string
  | bytes
  | list (element : TypeNode)
  | array (element : PrimitiveType) (length : Nat)
  | reference (name : String)
  deriving DecidableEq

/-- A field of a message. -/
structure DslField where
  name : String
  type : TypeNode
  optional : Bool := false
  deriving DecidableEq

/-- A declaration: an enumeration, or a message. -/
inductive Declaration
  | enum (name : String) (underlying : UnderlyingType)
  | message (name : String) (fields : List DslField)
  deriving DecidableEq

/-- A file of definitions. -/
abbrev DslFile := List Declaration

/-- The bytes that a primitive takes on the wire, and in memory. -/
def PrimitiveType.wireSize : PrimitiveType → Nat
  | i8 | char | bool => 1
  | i16 => 2
  | i32 => 4
  | i64 | datetimeNs => 8

/-- The bytes that an enumeration takes. -/
def UnderlyingType.wireSize : UnderlyingType → Nat
  | i8 | char => 1
  | i16 => 2
  | i32 => 4
  | i64 => 8

theorem PrimitiveType.wireSize_pos (p : PrimitiveType) : 0 < p.wireSize := by cases p <;> decide

theorem UnderlyingType.wireSize_pos (u : UnderlyingType) : 0 < u.wireSize := by cases u <;> decide

/-! ## Types written out -/

mutual

/-- A type with what it refers to written out. A list of primitives is treated apart by every
emitter. -/
inductive WireType
  | primitive (type : PrimitiveType)
  | string
  | bytes
  | array (element : PrimitiveType) (length : Nat)
  | primitiveList (element : PrimitiveType)
  | list (element : WireType)
  | enum (underlying : UnderlyingType)
  | message (fields : WireFields)

/-- The fields of a message. -/
inductive WireFields
  | nil
  | cons (optional : Bool) (type : WireType) (rest : WireFields)

end

/-- The field's bytes are as many whatever it holds: a primitive, an array, an enumeration. -/
def WireType.isFixedWidth : WireType → Bool
  | .primitive _ | .array _ _ | .enum _ => true
  | .string | .bytes | .primitiveList _ | .list _ | .message _ => false

/-- The message is of fixed size: no field is optional, and each is of fixed width. -/
def WireFields.isFixedSize : WireFields → Bool
  | .nil => true
  | .cons optional type rest => !optional && type.isFixedWidth && rest.isFixedSize

/-- The bytes that a field of fixed width takes, on the wire and in the struct. -/
def WireType.fixedWidth : WireType → Nat
  | .primitive p => p.wireSize
  | .array p n => p.wireSize * n
  | .enum u => u.wireSize
  | .string | .bytes | .primitiveList _ | .list _ | .message _ => 0

/-- The bytes that the fields of fixed width take in the struct. -/
def WireFields.inlineBytes : WireFields → Nat
  | .nil => 0
  | .cons _ type rest => type.fixedWidth + rest.inlineBytes

/-- The largest object that there can be has fewer bytes than this. -/
def objectLimit : Nat := 9223372036854775808

mutual

/-- Every message within the type can be an object. -/
def WireType.Compact : WireType → Prop
  | .primitive _ | .string | .bytes | .array _ _ | .primitiveList _ | .enum _ => True
  | .list element => element.Compact
  | .message fields => fields.inlineBytes < objectLimit ∧ fields.Compact

/-- Every message within the fields can be an object. -/
def WireFields.Compact : WireFields → Prop
  | .nil => True
  | .cons _ type rest => type.Compact ∧ rest.Compact

end

/-! ## What the generator emits -/

/-- The enumerations that a file declares. They are emitted before any message. -/
def enumsOf (file : DslFile) : List (String × UnderlyingType) :=
  file.filterMap fun
    | .enum name underlying => some (name, underlying)
    | .message _ _ => none

section Emit

variable (enums : List (String × UnderlyingType)) (messages : List (String × WireFields))

/-- Write out a type, with the messages declared so far. There is none where the header does not
compile: a name that is not declared before its use, or a list of an enumeration, whose view type
does not exist; a list of arrays is not emitted at all. -/
def resolve : TypeNode → Option WireType
  | .primitive p => some (.primitive p)
  | .string => some .string
  | .bytes => some .bytes
  | .array p n => some (.array p n)
  | .reference name =>
    match enums.lookup name with
    | some underlying => some (.enum underlying)
    | none => (messages.lookup name).map .message
  | .list (.primitive p) => some (.primitiveList p)
  | .list .string => some (.list .string)
  | .list .bytes => some (.list .bytes)
  | .list (.list element) => (resolve (.list element)).map .list
  | .list (.reference name) =>
    match enums.lookup name with
    | some _ => none
    | none => (messages.lookup name).map fun fields => .list (.message fields)
  | .list (.array _ _) => none

/-- Write out the fields of a message. -/
def resolveFields : List DslField → Option WireFields
  | [] => some .nil
  | field :: rest => do
    let type ← resolve enums messages field.type
    let fields ← resolveFields rest
    pure (.cons field.optional type fields)

/-- Emit the messages of the declarations, after those emitted already. A message whose arrays are
larger than any object can be does not compile. -/
def emitMessages : DslFile → List (String × WireFields) → Option (List (String × WireFields))
  | [], done => some done
  | .enum _ _ :: rest, done => emitMessages rest done
  | .message name fields :: rest, done => do
    let fields ← resolveFields enums done fields
    if fields.inlineBytes < objectLimit then emitMessages rest (done ++ [(name, fields)]) else none

end Emit

/-- The messages of a file, in their order, for which the generator emits functions that compile. -/
def emit (file : DslFile) : Option (List (String × WireFields)) := emitMessages (enumsOf file) file []

section Compact

variable {enums : List (String × UnderlyingType)} {messages : List (String × WireFields)}

/-- Every message of the list, and every message within it, can be an object. -/
def AllCompact (messages : List (String × WireFields)) : Prop :=
  ∀ message ∈ messages, message.2.inlineBytes < objectLimit ∧ message.2.Compact

theorem AllCompact.of_lookup (h : AllCompact messages) {name : String} {fields : WireFields}
    (hlookup : messages.lookup name = some fields) : fields.inlineBytes < objectLimit ∧ fields.Compact := by
  obtain ⟨before, after, rfl, -⟩ := List.lookup_eq_some_iff.mp hlookup
  exact h (name, fields) (by simp)

/-- A type written out with compact messages is compact. -/
theorem resolve_compact (h : AllCompact messages) {node : TypeNode} {type : WireType}
    (hresolve : resolve enums messages node = some type) : type.Compact := by
  induction node generalizing type with
  | primitive | string | bytes | array => cases hresolve; trivial
  | reference =>
    simp only [resolve] at hresolve
    split at hresolve
    · cases hresolve
      trivial
    · obtain ⟨fields, hfields, rfl⟩ := Option.map_eq_some_iff.mp hresolve
      exact h.of_lookup hfields
  | list element ih =>
    cases element with
    | primitive | string | bytes => cases hresolve; trivial
    | array => cases hresolve
    | list =>
      obtain ⟨innerType, hinner, rfl⟩ := Option.map_eq_some_iff.mp hresolve
      have hcompact : innerType.Compact := ih hinner
      exact hcompact
    | reference =>
      simp only [resolve] at hresolve
      split at hresolve
      · cases hresolve
      · obtain ⟨fields, hfields, rfl⟩ := Option.map_eq_some_iff.mp hresolve
        exact h.of_lookup hfields

theorem resolveFields_compact (h : AllCompact messages) {fields : List DslField} {resolved : WireFields}
    (hresolve : resolveFields enums messages fields = some resolved) : resolved.Compact := by
  induction fields generalizing resolved with
  | nil => cases hresolve; trivial
  | cons field rest ih =>
    obtain ⟨type, htype, hrest⟩ := Option.bind_eq_some_iff.mp hresolve
    obtain ⟨fields, hfields, hpure⟩ := Option.bind_eq_some_iff.mp hrest
    cases hpure
    exact ⟨resolve_compact h htype, ih hfields⟩

theorem emitMessages_compact {file : DslFile} {done : List (String × WireFields)} (h : AllCompact done)
    (hemit : emitMessages enums file done = some messages) : AllCompact messages := by
  induction file generalizing done with
  | nil => cases hemit; exact h
  | cons declaration rest ih =>
    cases declaration with
    | enum => exact ih h hemit
    | message name fields =>
      obtain ⟨resolved, hresolved, hrest⟩ := Option.bind_eq_some_iff.mp hemit
      split at hrest
      · rename_i hlimit
        refine ih ?_ hrest
        intro message hmem
        rcases List.mem_append.mp hmem with hold | hnew
        · exact h message hold
        · obtain rfl := List.mem_singleton.mp hnew
          exact ⟨hlimit, resolveFields_compact h hresolved⟩
      · cases hrest

end Compact

/-- **What is emitted is compact.** -/
theorem emit_compact {file : DslFile} {messages : List (String × WireFields)}
    (hemit : emit file = some messages) : AllCompact messages :=
  emitMessages_compact (fun _ h => absurd h List.not_mem_nil) hemit

/-! ## Values -/

/-- What a field of a primitive type holds: the bits of a number, or a truth value. -/
@[reducible] def PrimitiveType.Value : PrimitiveType → Type
  | .bool => Bool
  | p => BitVec (8 * p.wireSize)

mutual

/-- What a field of a type holds. The numbers of an enumeration are all those of its underlying
type. -/
@[reducible] def Value : WireType → Type
  | .primitive p => p.Value
  | .string | .bytes => Bytes
  | .array p n => List.Vector p.Value n
  | .primitiveList p => List p.Value
  | .list element => List (Value element)
  | .enum underlying => BitVec (8 * underlying.wireSize)
  | .message fields => Values fields

/-- What a message holds: an optional field may be absent, and then nothing reads what stands in it. -/
@[reducible] def Values : WireFields → Type
  | .nil => Unit
  | .cons true type rest => Option (Value type) × Values rest
  | .cons false type rest => Value type × Values rest

end

mutual

/-- Every string, byte string and list of the value is shorter than `limit`. -/
def Fits (limit : Nat) : (type : WireType) → Value type → Prop
  | .primitive _, _ | .array _ _, _ | .enum _, _ => True
  | .string, v | .bytes, v => List.length (α := UInt8) v < limit
  | .primitiveList p, vs => List.length (α := p.Value) vs < limit
  | .list element, vs => List.length (α := Value element) vs < limit ∧
      ∀ v, List.Mem (α := Value element) v vs → Fits limit element v
  | .message fields, vs => FieldsFit limit fields vs

/-- Every string, byte string and list of the message is shorter than `limit`. -/
def FieldsFit (limit : Nat) : (fields : WireFields) → Values fields → Prop
  | .nil, _ => True
  | .cons true _ rest, (none, vs) => FieldsFit limit rest vs
  | .cons true type rest, (some v, vs) => Fits limit type v ∧ FieldsFit limit rest vs
  | .cons false type rest, (v, vs) => Fits limit type v ∧ FieldsFit limit rest vs

end

end PubsubVenue

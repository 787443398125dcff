import PubsubVenue.Fix.FieldWalk

/-! # Validating the fields of a FIX message

`FixMessageValidator` checks the fields of a framed message, in order, against the FIX dictionary, and gives
the first violation. A NUMINGROUP counter opens a repeating group: `walk_repeating_group` takes the fields that
are members of the group, instance by instance, and returns at the first field beyond it. The tables of the
dictionary are generated, so that the validator is over any dictionary. -/

namespace PubsubVenue

open List FixMessageReader

/-- `RejectReason`, without `None`. -/
inductive RejectReason where
  | invalidTagNumber
  | requiredTagMissing
  | tagNotDefinedForThisMessage
  | valueIsIncorrect
  | incorrectDataFormat
  | tagAppearsMoreThanOnce
  | incorrectNumInGroupCount
  deriving DecidableEq

/-- `FixReject`, of a message that is not valid. -/
structure FixReject where
  reason : RejectReason
  refTag : Int
  refMsgType : Bytes
  value : Bytes := []
  deriving DecidableEq

/-- `field_format`. -/
inductive FieldFormat where
  | fixInt
  | fixDecimal
  | fixChar
  | fixBoolean
  | fixUtcTimestamp
  | fixString
  | fixData
  | fixMultipleValue
  deriving DecidableEq

/-- What the dictionary says of a tag it defines: its format, and the values of its enumeration if
it has one. -/
structure FieldDef where
  format : FieldFormat
  enumValues : Option (List Bytes)

/-- `group_member`. -/
structure GroupMember where
  tag : Int
  required : Bool
  nestedGroup : Option Nat

/-- `group_def`. -/
structure GroupDef where
  counterTag : Int
  delimiterTag : Int
  members : List GroupMember

/-- `fix_dictionary.hpp`: the tags that are defined, those permitted and those required in a type of
message, the groups, and the LENGTH tags that have a DATA field. -/
structure FixDictionary where
  isDataLengthTag : Int → Bool
  fieldOf : Int → Option FieldDef
  permitted : Bytes → Option (Int → Bool)
  requiredTags : Bytes → List Int
  groupIndexForCounter : Int → Option Nat
  groupAt : Nat → GroupDef

/-! ## One field -/

def isDigit (b : UInt8) : Bool := decide (48 ≤ b ∧ b ≤ 57)

/-- A text without its leading `+` or `-`. -/
def unsigned : Bytes → Bytes
  | 43 :: digits | 45 :: digits => digits
  | digits => digits

/-- `as_decimal` succeeds: digits, one of them at least, and at most one dot. -/
def isDecimal (text : Bytes) : Bool :=
  (unsigned text).all (fun b => isDigit b || b == 46) && (unsigned text).any isDigit &&
    decide ((unsigned text).count 46 ≤ 1)

/-- `is_utc_timestamp`: `YYYYMMDD-HH:MM:SS`, and whatever follows. -/
def isUtcTimestamp (text : Bytes) : Bool :=
  let digitsIn (offset count low high : Nat) : Bool :=
    (digitsValue ((text.drop offset).take count)).any fun n => decide (low ≤ n ∧ n ≤ high)
  decide (17 ≤ text.length ∧ text[8]? = some 45 ∧ text[11]? = some 58 ∧ text[14]? = some 58) &&
    digitsIn 0 4 0 9999 && digitsIn 4 2 1 12 && digitsIn 6 2 1 31 &&
    digitsIn 9 2 0 23 && digitsIn 12 2 0 59 && digitsIn 15 2 0 60

/-- `check_format` finds nothing wrong. -/
def FieldFormat.admits (text : Bytes) : FieldFormat → Bool
  | .fixInt => (digitsValue (unsigned text)).isSome
  | .fixDecimal => isDecimal text
  | .fixChar => text.length == 1
  | .fixBoolean => text == [89] || text == [78]
  | .fixUtcTimestamp => isUtcTimestamp text
  | .fixString | .fixData | .fixMultipleValue => true

variable (dictionary : FixDictionary) (type : Bytes)

/-- `check_field_semantics`. The value of a multiple-value field is a list of values with spaces
between them. -/
def checkFieldSemantics (field : FixField) : Except FixReject Unit :=
  match dictionary.fieldOf field.tag with
  | none => pure ()
  | some ⟨format, enumValues⟩ =>
    if !format.admits field.value then throw ⟨.incorrectDataFormat, field.tag, type, field.value⟩
    else
      let isDefined (element : Bytes) : Bool := enumValues.all (·.contains element)
      if if format = .fixMultipleValue then (field.value.splitOn 32).all fun e => e.isEmpty || isDefined e
        else isDefined field.value then pure ()
      else throw ⟨.valueIsIncorrect, field.tag, type, field.value⟩

/-! ## Repeating groups -/

/-- `max_tracked_tags`. -/
def maxTrackedTags : Nat := 256

/-- `max_group_depth`. -/
def maxGroupDepth : Nat := 16

/-- `parse_num_in_group`, in an `int`. -/
def parseNumInGroup (text : Bytes) : Int :=
  (text.filter isDigit).foldl (fun n b => (n * 10 + (b.toNat - 48 : Int)).bmod 4294967296) 0

/-- `leave_instance`: every required member is among the tags seen. -/
def leaveInstance (group : GroupDef) (seen : List Int) : Except FixReject Unit :=
  match group.members.find? fun member => member.required && !seen.contains member.tag with
  | some member =>
    if maxTrackedTags ≤ seen.length then pure () else throw ⟨.requiredTagMissing, member.tag, type, []⟩
  | none => pure ()

/-- The end of `walk_repeating_group`: the last instance is left, then the group. -/
def leaveGroup (group : GroupDef) (counter : FixField) (instances : Nat) (seen : Option (List Int)) :
    Except FixReject Unit := do
  seen.forM (leaveInstance type group)
  if (instances : Int) ≠ parseNumInGroup counter.value then
    throw ⟨.incorrectNumInGroupCount, group.counterTag, type, counter.value⟩

/-- A field that begins an instance or belongs to one: how many instances there are, and the tags
seen in it. -/
def visitMember (group : GroupDef) (instances : Nat) (seen : Option (List Int)) (field : FixField) :
    Except FixReject (Nat × List Int) := do
  let (instances, seen) ←
    if field.tag = group.delimiterTag then do
      seen.forM (leaveInstance type group)
      pure (instances + 1, [])
    else
      match seen with
      | some seen => pure (instances, seen)
      | none => throw ⟨.requiredTagMissing, group.delimiterTag, type, []⟩
  if field.tag ∈ seen then throw ⟨.tagAppearsMoreThanOnce, field.tag, type, []⟩
  checkFieldSemantics dictionary type field
  pure (instances, if seen.length < maxTrackedTags then seen ++ [field.tag] else seen)

/-- The fields from where an iterator has got to: no more than there were. -/
abbrev Left (fields : List FixField) := { left : List FixField // left.length ≤ fields.length }

/-- `walk_repeating_group` with the validating visitor, after so many instances, in the last of
which these tags have been seen: the fields beyond the group. -/
def walkRepeatingGroup (group : GroupDef) (counter : FixField) (depth instances : Nat)
    (seen : Option (List Int)) (fields : List FixField) : Except FixReject (Left fields) :=
  match fields with
  | [] => (leaveGroup type group counter instances seen).map fun _ => ⟨[], le_rfl⟩
  | field :: rest =>
    match group.members.find? (·.tag == field.tag) with
    | none => (leaveGroup type group counter instances seen).map fun _ => ⟨field :: rest, le_rfl⟩
    | some member => do
      let (instances, seen) ← visitMember dictionary type group instances seen field
      let ⟨left, hleft⟩ ← (match member.nestedGroup with
        | some nested =>
          if depth < maxGroupDepth then
            walkRepeatingGroup (dictionary.groupAt nested) field (depth + 1) 0 none rest
          else pure ⟨rest, le_rfl⟩
        | none => pure ⟨rest, le_rfl⟩ : Except FixReject (Left rest))
      let beyond ← walkRepeatingGroup group counter depth instances (some seen) left
      pure ⟨beyond.1, by simp only [length_cons]; omega⟩
termination_by fields.length

/-! ## The message -/

/-- The `while` loop of `validate`, after these tags: the tags seen outside groups. -/
def validateFields (seen : List Int) (fields : List FixField) : Except FixReject (List Int) :=
  match fields with
  | [] => pure seen
  | field :: rest => do
    if (dictionary.fieldOf field.tag).isNone then throw ⟨.invalidTagNumber, field.tag, type, field.value⟩
    if (dictionary.permitted type).any fun permitted => !permitted field.tag then
      throw ⟨.tagNotDefinedForThisMessage, field.tag, type, []⟩
    if field.tag ∈ seen then throw ⟨.tagAppearsMoreThanOnce, field.tag, type, []⟩
    checkFieldSemantics dictionary type field
    let ⟨left, _⟩ ← (match dictionary.groupIndexForCounter field.tag with
      | some group => walkRepeatingGroup dictionary type (dictionary.groupAt group) field 0 0 none rest
      | none => pure ⟨rest, le_rfl⟩ : Except FixReject (Left rest))
    validateFields (seen ++ [field.tag]) left
termination_by fields.length

/-- `FixMessageValidator::validate`. -/
def validate (fields : List FixField) : Except FixReject Unit := do
  let type := ((fields.find? (·.tag == 35)).map FixField.value).getD []
  let seen ← validateFields dictionary type [] fields
  match (dictionary.requiredTags type).find? fun required => !seen.contains required with
  | some required => throw ⟨.requiredTagMissing, required, type, []⟩
  | none => pure ()

end PubsubVenue

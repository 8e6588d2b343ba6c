/-! Records in data formats.

A record is written with the names of its fields, or as the list of its fields in order. A
field that may be missing can only be left out of a list if it has a default. -/
namespace SourceAudit

/-- The fields of a record with values of type `ν`. -/
structure Record (ν : Type) where
  field? : String → Option ν
  /-- Whether the fields are given by their order alone. -/
  positional : Bool

namespace Record

variable {ν α : Type}

/-- A record whose fields have names. -/
def ofFields (fields : List (String × ν)) : Record ν :=
  ⟨fun name => fields.lookup name, false⟩

/-- A record whose fields stand in the order of their names. -/
def ofItems (names : List String) (items : List ν) : Record ν :=
  ⟨fun name => (names.zip items).lookup name, true⟩

/-- A field that has to be there. -/
def required (r : Record ν) (name : String) (read : ν → Option α) : Option α :=
  (r.field? name).bind read

/-- A field that may be missing where fields have names. -/
def optional (r : Record ν) (name : String) (read : ν → Option (Option α)) :
    Option (Option α) :=
  match r.field? name with
  | none => if r.positional then none else some none
  | some v => read v

/-- A field with a value for when it is missing. -/
def defaulted (r : Record ν) (name : String) (value : α) (read : ν → Option α) : Option α :=
  match r.field? name with
  | none => some value
  | some v => read v

end Record
end SourceAudit

import StagePlanner.Total

/-!
# Schemas

The record types that flow through ports and the grouping that an input port
asks for. Types are compared by name and fields; the fields also give a guess
of how wide one record is.
-/

namespace StagePlanner

/-- The type of one field of a record. -/
inductive FieldType where
  | boolean
  | int32
  | int64
  | float32
  | float64
  | utf8
  | binary
  | date64
  | decimal128
  deriving DecidableEq, Repr

namespace FieldType

/-- Every field type. -/
def all : List FieldType :=
  [.boolean, .int32, .int64, .float32, .float64, .utf8, .binary, .date64, .decimal128]

/-- The written name of a field type. -/
def symbol : FieldType → String
  | .boolean => "Boolean"
  | .int32 => "Int32"
  | .int64 => "Int64"
  | .float32 => "Float32"
  | .float64 => "Float64"
  | .utf8 => "Utf8"
  | .binary => "Binary"
  | .date64 => "Date64"
  | .decimal128 => "Decimal128"

/-- The field type with a given name. -/
def ofSymbol? (symbol : String) : Option FieldType := all.find? fun type => type.symbol == symbol

/-- The average number of bytes of an encoded value. -/
def width : FieldType → Nat
  | .boolean => 1
  | .int32 | .float32 => 4
  | .int64 | .float64 | .date64 => 8
  | .decimal128 => 16
  | .utf8 => 32
  | .binary => 64

end FieldType

/-- One field of a record type. -/
structure Field where
  name : String
  type : FieldType
  nullable : Bool
  deriving DecidableEq, Repr

/-- The type of the records that flow through a port. -/
structure DataType where
  name : String
  fields : List Field := []
  deriving DecidableEq, Repr

namespace DataType

/-- A type of which only the name is known. -/
def named (name : String) : DataType := { name }

/-- The position of the first field with a given name. -/
def indexOf? (type : DataType) (name : String) : Option Nat :=
  type.fields.findIdx? fun field => field.name == name

/-- The estimated bytes of one record, never less than one. -/
def recordWidth (type : DataType) : Nat :=
  max 1 (total (type.fields.map fun field => field.type.width))

end DataType

/-- One key of the order within a group. -/
structure SortKey where
  field : String
  ascending : Bool
  deriving DecidableEq, Repr

/-- What an input port asks of its data: equal keys together, and an order among them. -/
structure Group where
  keys : List String
  ordering : List SortKey := []
  deriving DecidableEq, Repr

namespace Group

/-- The written form of a sort key: a sign and the field. -/
def sortKeyText (key : SortKey) : String := (if key.ascending then "+" else "-") ++ key.field

/-- The written form of a grouping: the keys, then the order. -/
def text (group : Group) : String :=
  "=" ++ String.intercalate "," group.keys ++
    String.join (group.ordering.map fun key => " " ++ sortKeyText key)

end Group

end StagePlanner

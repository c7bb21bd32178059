/-
  The ways in which an operation fails, and the message of each.

  Most constructors carry the text of one cause; the modules that raise them
  have a type for their causes and a function that words them.
-/
namespace RecordGraph

/-- Why an operation failed. -/
inductive Error where
  /-- The executor reports a failure of its own. -/
  | executor (message : String)
  /-- The database refuses a statement for none of the reasons below. -/
  | query (message : String)
  | notFound (what : String)
  | uniqueViolation (message : String)
  | foreignKeyViolation (message : String)
  | checkViolation (message : String)
  /-- The value of a column does not fit its field. -/
  | decode (column message : String)
  /-- No field answers to a column. -/
  | mapping (typeName column : String)
  /-- A condition that cannot be written. -/
  | condition (message : String)
  /-- The number of key values differs from the number of key fields. -/
  | keyCardinality (typeName : String) (expected actual : Nat)
  /-- A relation that does not fit the fields of its types. -/
  | relationIntegrity (relation message : String)
  /-- The stored row is newer than the record. -/
  | staleData (message : String)
  /-- A map of a type to tables that does not hold together. -/
  | schema (message : String)
  /-- A call that makes no sense by itself. -/
  | validation (message : String)
  | other (message : String)
  deriving DecidableEq

namespace Error

def message : Error → String
  | executor m => "Executor error: " ++ m
  | query m => "Query error: " ++ m
  | notFound m => "Not found: " ++ m
  | uniqueViolation m => "Unique constraint violation: " ++ m
  | foreignKeyViolation m => "Foreign key violation: " ++ m
  | checkViolation m => "Check constraint violation: " ++ m
  | decode column m => "Decode error on column '" ++ column ++ "': " ++ m
  | mapping typeName column =>
    "Mapping error: column '" ++ column ++ "' has no field on " ++ typeName
  | condition m => "Condition error: " ++ m
  | keyCardinality typeName expected actual =>
    "Key cardinality mismatch on " ++ typeName ++ ": expected " ++ toString expected ++
      " key value(s), got " ++ toString actual
  | relationIntegrity relation m => "Relation '" ++ relation ++ "': " ++ m
  | staleData m => "Stale data: " ++ m
  | schema m => "Schema error: " ++ m
  | validation m => "Validation error: " ++ m
  | other m => m

def isNotFound : Error → Bool
  | notFound _ => true
  | _ => false

def isUniqueViolation : Error → Bool
  | uniqueViolation _ => true
  | _ => false

def isStale : Error → Bool
  | staleData _ => true
  | _ => false

/-- The error comes from a malformed condition or list of keys. -/
def isShapeError : Error → Bool
  | condition _ => true
  | keyCardinality .. => true
  | _ => false

end Error

/-- The outcome of an operation that may fail. -/
abbrev Result (α : Type) := Except Error α

end RecordGraph

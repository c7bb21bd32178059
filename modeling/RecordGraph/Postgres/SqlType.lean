/-
  The types of columns and parameters in PostgreSQL.

  Types whose values have the same binary form are one constructor here.  All types
  that are not read or written are `other`.
-/
namespace RecordGraph.Postgres

/-- Types whose values are sent as their text. -/
inductive TextType where
  | text
  | varchar
  | bpchar
  | name
  | unknown
  | citext
  deriving DecidableEq

/-- Types whose values are sent as their text after the number of its version. -/
inductive PathType where
  | ltree
  | lquery
  | ltxtquery
  deriving DecidableEq

/-- The type of a column or parameter. -/
inductive SqlType where
  | bool
  | int2
  | int4
  | int8
  | float4
  | float8
  | numeric
  | text (t : TextType)
  | path (t : PathType)
  | uuid
  | timestamptz
  | timestamp
  | date
  | bytea
  | json
  | jsonb
  | other (name : String)
  deriving DecidableEq

def TextType.label : TextType → String
  | text => "text"
  | varchar => "varchar"
  | bpchar => "bpchar"
  | name => "name"
  | unknown => "unknown"
  | citext => "citext"

def PathType.label : PathType → String
  | ltree => "ltree"
  | lquery => "lquery"
  | ltxtquery => "ltxtquery"

namespace SqlType

/-- The name of a type. -/
def name : SqlType → String
  | bool => "bool"
  | int2 => "int2"
  | int4 => "int4"
  | int8 => "int8"
  | float4 => "float4"
  | float8 => "float8"
  | numeric => "numeric"
  | text t => t.label
  | path t => t.label
  | uuid => "uuid"
  | timestamptz => "timestamptz"
  | timestamp => "timestamp"
  | date => "date"
  | bytea => "bytea"
  | json => "json"
  | jsonb => "jsonb"
  | other n => n

/-- The types that are read or written. -/
def known : List SqlType :=
  [bool, int2, int4, int8, float4, float8, numeric, text .text, text .varchar, text .bpchar,
    text .name, text .unknown, text .citext, path .ltree, path .lquery, path .ltxtquery, uuid,
    timestamptz, timestamp, date, bytea, json, jsonb]

/-- The type of a name. -/
def ofName (name : String) : SqlType := (known.find? fun t => t.name = name).getD (.other name)

end SqlType

end RecordGraph.Postgres

import SearchQuery.Document

/-! # Field types

The types of document fields, by family: the names `match_only_text`, `constant_keyword` and
`wildcard` stand for members of the text and keyword families. -/
namespace SearchQuery

inductive FieldType
  | text
  | keyword
  | boolean
  | long
  | integer
  | short
  | byte
  | double
  | float
  | halfFloat
  | scaledFloat
  | unsignedLong
  | date
  | dateNanos
  | ip
  | unknown
deriving DecidableEq, Repr

namespace FieldType

instance : Inhabited FieldType := ⟨unknown⟩

def name : FieldType → String
  | text => "text"
  | keyword => "keyword"
  | boolean => "boolean"
  | long => "long"
  | integer => "integer"
  | short => "short"
  | byte => "byte"
  | double => "double"
  | float => "float"
  | halfFloat => "half_float"
  | scaledFloat => "scaled_float"
  | unsignedLong => "unsigned_long"
  | date => "date"
  | dateNanos => "date_nanos"
  | ip => "ip"
  | unknown => "unknown"

/-- Every type that has a name of its own. -/
def known : List FieldType :=
  [text, keyword, boolean, long, integer, short, byte, double, float, halfFloat, scaledFloat,
    unsignedLong, date, dateNanos, ip]

/-- The type with exactly this name; `unknown` for any other name. -/
def ofName (s : String) : FieldType :=
  if s = "match_only_text" then text
  else if s = "constant_keyword" ∨ s = "wildcard" then keyword
  else (known.find? fun t => t.name = s).getD unknown

def isNumeric : FieldType → Bool
  | long | integer | short | byte | double | float | halfFloat | scaledFloat | unsignedLong => true
  | _ => false

def isDate : FieldType → Bool
  | date | dateNanos => true
  | _ => false

/-- Whether a range query makes sense on the type. -/
def isRangeable (t : FieldType) : Bool := t.isDate || t.isNumeric || t = ip

/-- Whether values of the type can be aggregated, unless the field says otherwise. -/
def isAggregatable : FieldType → Bool
  | text | unknown => false
  | _ => true

def read : Document.Reader FieldType := .choice fun s => some (ofName s)

end FieldType
end SearchQuery

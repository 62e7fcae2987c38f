import SearchQuery.Json.Number

/-! # JSON values

The value type, its members and their look-up. Members keep their order; a value read from a
document has each name at most once in an object. -/
namespace SearchQuery

inductive Json
  | null
  | bool (b : Bool)
  | num (n : Json.Number)
  | str (s : String)
  | arr (items : List Json)
  | obj (members : List (String × Json))
deriving Inhabited

namespace Json

def members? : Json → Option (List (String × Json))
  | obj ms => some ms
  | _ => none

def items? : Json → Option (List Json)
  | arr xs => some xs
  | _ => none

def text? : Json → Option String
  | str s => some s
  | _ => none

def bool? : Json → Option Bool
  | bool b => some b
  | _ => none

def isNull : Json → Bool
  | null => true
  | _ => false

/-- The member of an object with a given name. -/
def member? (name : String) : Json → Option Json
  | obj ms => ms.lookup name
  | _ => none

/-- Sets a member: one of the same name keeps its place, a new one comes last. -/
def setMember (ms : List (String × Json)) (name : String) (value : Json) :
    List (String × Json) :=
  match ms with
  | [] => [(name, value)]
  | (n, v) :: rest => if n = name then (n, value) :: rest else (n, v) :: setMember rest name value

/-- The object with these members, in which a repeated name keeps its first place and its last
value. -/
def ofMembers (ms : List (String × Json)) : Json :=
  obj (ms.foldl (fun acc m => setMember acc m.1 m.2) [])

/-- An object with one member. -/
def keyed (name : String) (value : Json) : Json := obj [(name, value)]

/-- A member that is written only when it is there. -/
def optional (name : String) (value : Option Json) : List (String × Json) :=
  match value with
  | none => []
  | some v => [(name, v)]

end Json
end SearchQuery

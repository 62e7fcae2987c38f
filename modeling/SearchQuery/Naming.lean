import SearchQuery.Document
import SearchQuery.Text.Blank

/-! # Names

Things that are chosen by name. A text names a thing by its name with any blank characters around
it, and every other text stands for a fallback. -/
namespace SearchQuery

structure Naming (α : Type) where
  name : α → String
  /-- The things that a text can name. -/
  all : List α
  fallback : α
  /-- Each thing is the first one with its name. -/
  find_name : ∀ a, (all.find? fun b => name b = name a).getD fallback = a
  trim_name : ∀ a, Text.trim (name a) = name a

namespace Naming

variable {α : Type} (n : Naming α)

def ofName (s : String) : α := (n.all.find? fun a => n.name a = Text.trim s).getD n.fallback

/-- Any value but a string stands for the fallback. -/
def ofJson (j : Json) : α := (j.text?.map n.ofName).getD n.fallback

def read : Document.Reader α := Document.Reader.json.map n.ofJson

variable {n} {s : String} {a : α}

theorem ofName_of_name_eq (h : n.name a = Text.trim s) : n.ofName s = a := by
  rw [ofName, ← h]
  exact n.find_name a

theorem ofName_eq_fallback (h : ∀ a, n.name a ≠ Text.trim s) : n.ofName s = n.fallback := by
  have hnone : n.all.find? (fun a => n.name a = Text.trim s) = none :=
    List.find?_eq_none.2 fun a _ => by simpa using h a
  rw [ofName, hnone, Option.getD_none]

theorem ofName_name (n : Naming α) (a : α) : n.ofName (n.name a) = a :=
  ofName_of_name_eq (n.trim_name a).symm

theorem read_name (n : Naming α) (d : Document.Dialect) (a : α) :
    n.read d (Json.str (n.name a)).document = some a := by
  have hread : n.read d (Json.str (n.name a)).document = some (n.ofJson (.str (n.name a))) := rfl
  simp [hread, ofJson, Json.text?, ofName_name]

end Naming
end SearchQuery

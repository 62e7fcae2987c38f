import SearchQuery.Field
import SearchQuery.Glob
import SearchQuery.Json.Printer

/-! # Catalogs

A catalog lists fields by key, strictly increasing in the order of the keys. The key is the name
by which queries refer to the field; the field's own name may differ from it. -/
namespace SearchQuery

namespace Catalog

abbrev Entry := String × Field

/-- Puts a field at its place, replacing one with the same key. -/
def insertEntry (key : String) (f : Field) : List Entry → List Entry
  | [] => [(key, f)]
  | (k, g) :: rest =>
    if key < k then (key, f) :: (k, g) :: rest
    else if key = k then (key, f) :: rest
    else (k, g) :: insertEntry key f rest

def Sorted (es : List Entry) : Prop := es.Pairwise fun a b => a.1 < b.1

instance (es : List Entry) : Decidable (Sorted es) := by unfold Sorted; infer_instance

theorem mem_insertEntry {key : String} {f : Field} {e : Entry} {es : List Entry}
    (h : e ∈ insertEntry key f es) : e = (key, f) ∨ e ∈ es := by
  induction es with
  | nil => simpa [insertEntry] using h
  | cons hd tl ih =>
    obtain ⟨k, g⟩ := hd
    rw [insertEntry] at h
    split at h
    · simpa using h
    · split at h
      · rcases List.mem_cons.1 h with h | h
        · exact Or.inl h
        · exact Or.inr (List.mem_cons_of_mem _ h)
      · rcases List.mem_cons.1 h with h | h
        · exact Or.inr (h ▸ List.mem_cons_self ..)
        · exact (ih h).imp id (List.mem_cons_of_mem _)

theorem sorted_insertEntry (key : String) (f : Field) {es : List Entry} (h : Sorted es) :
    Sorted (insertEntry key f es) := by
  induction es with
  | nil => simp [insertEntry, Sorted]
  | cons hd tl ih =>
    obtain ⟨k, g⟩ := hd
    obtain ⟨hk, ht⟩ := List.pairwise_cons.1 h
    rw [insertEntry]
    split
    · rename_i hlt
      refine List.pairwise_cons.2 ⟨fun e he => ?_, h⟩
      rcases List.mem_cons.1 he with he | he
      · exact he ▸ hlt
      · exact String.lt_trans hlt (hk e he)
    · rename_i hnlt
      split
      · rename_i heq
        exact List.pairwise_cons.2 ⟨fun e he => heq ▸ hk e he, ht⟩
      · rename_i hne
        refine List.pairwise_cons.2 ⟨fun e he => ?_, ih ht⟩
        rcases mem_insertEntry he with he | he
        · subst he
          rcases Decidable.em (k < key) with hlt | hge
          · exact hlt
          · exact absurd (String.le_antisymm hge hnlt) hne
        · exact hk e he

end Catalog

structure Catalog where
  entries : List Catalog.Entry
  sorted : Catalog.Sorted entries
deriving DecidableEq

namespace Catalog

def empty : Catalog := ⟨[], List.Pairwise.nil⟩

instance : Inhabited Catalog := ⟨empty⟩

def get? (c : Catalog) (key : String) : Option Field := c.entries.lookup key

def contains (c : Catalog) (key : String) : Bool := (c.get? key).isSome

def size (c : Catalog) : Nat := c.entries.length

/-- The fields in the order of their keys. -/
def fields (c : Catalog) : List Field := c.entries.map Prod.snd

/-- Puts a field under a key, in place of one that is there. -/
def put (c : Catalog) (key : String) (f : Field) : Catalog :=
  ⟨insertEntry key f c.entries, sorted_insertEntry key f c.sorted⟩

/-- Puts a field under its own name. -/
def insert (c : Catalog) (f : Field) : Catalog := c.put f.name f

/-- Puts a field under its own name unless there is one. -/
def insertNew (c : Catalog) (f : Field) : Catalog := if c.contains f.name then c else c.insert f

def ofFields (fs : List Field) : Catalog := fs.foldl insert empty

/-- A field without a name has its key as its name. -/
def named (key : String) (f : Field) : Field := if f.name = "" then { f with name := key } else f

/-- The catalog of a record of fields; of a repeated key the last field counts. -/
def ofRecord (es : List Entry) : Catalog := es.foldl (fun c e => c.put e.1 (named e.1 e.2)) empty

/-- The fields whose key matches a glob. -/
def matching (c : Catalog) (pattern : String) : List Field :=
  (c.entries.filter fun e => Glob.matchesName pattern e.1).map Prod.snd

/-- Whether some key starts with a text. -/
def hasKeyPrefix (c : Catalog) (path : String) : Bool :=
  c.entries.any fun e => path.toList.isPrefixOf e.1.toList

def toJson (c : Catalog) : Json := .obj (c.entries.map fun e => (e.1, e.2.toJson))

def read : Document.Reader Catalog := (Document.Reader.table Field.read).map ofRecord

end Catalog
end SearchQuery

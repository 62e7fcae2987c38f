import SearchQuery.Naming

/-! # Clauses

The four buckets of a boolean query, in the order in which they are written and in which a
group of leaves chooses its own. -/
namespace SearchQuery

inductive Clause
  | must
  | filter
  | mustNot
  | should
deriving DecidableEq, Repr

namespace Clause

instance : Inhabited Clause := ⟨must⟩

/-- All clauses, the one with the highest priority first. -/
def all : List Clause := [must, filter, mustNot, should]

def name : Clause → String
  | must => "must"
  | filter => "filter"
  | mustNot => "must_not"
  | should => "should"

/-- Clauses by name; any other name stands for `must`. -/
def naming : Naming Clause where
  name := name
  all := all
  fallback := must
  find_name c := by cases c <;> decide
  trim_name c := by cases c <;> decide

def ofName : String → Clause := naming.ofName

def rank : Clause → Nat
  | must => 0
  | filter => 1
  | mustNot => 2
  | should => 3

/-- Sorts by priority. -/
def sort (cs : List Clause) : List Clause := cs.mergeSort fun a b => a.rank ≤ b.rank

def read : Document.Reader Clause := naming.read

end Clause
end SearchQuery

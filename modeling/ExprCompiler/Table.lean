import ExprCompiler.Text.Bytes

/-!
Finite tables from texts to values, kept as a list with one entry for every key.
-/

namespace ExprCompiler

abbrev Table (Entry : Type) := List (Bytes × Entry)

namespace Table

variable {Entry : Type}

def find? (key : Bytes) : Table Entry → Option Entry
  | [] => none
  | (name, entry) :: rest => if name = key then some entry else find? key rest

/-- Sets the entry of a key, in place if there is one. -/
def set (key : Bytes) (entry : Entry) : Table Entry → Table Entry
  | [] => [(key, entry)]
  | (name, old) :: rest =>
      if name = key then (key, entry) :: rest else (name, old) :: set key entry rest

def insertSorted (key : Bytes) (entry : Entry) : Table Entry → Table Entry
  | [] => [(key, entry)]
  | (name, old) :: rest =>
      if Text.precedes key name then (key, entry) :: (name, old) :: rest
      else (name, old) :: insertSorted key entry rest

def sorted : Table Entry → Table Entry
  | [] => []
  | (key, entry) :: rest => insertSorted key entry (sorted rest)

def keys (table : Table Entry) : List Bytes := table.map Prod.fst

end Table
end ExprCompiler

/-!
# Tables

A table maps names to values and keeps the order in which the names were first written.
-/

namespace SparqlModel

abbrev Table (α : Type) := List (String × α)

namespace Table

variable {α : Type}

/-- Write an entry. A name that is present keeps its place and takes the new value. -/
def insert (name : String) (value : α) : Table α → Table α
  | [] => [(name, value)]
  | (n, v) :: rest =>
    if n == name then (n, value) :: rest else (n, v) :: insert name value rest

def get? (name : String) (table : Table α) : Option α :=
  List.lookup name table

def contains (name : String) (table : Table α) : Bool :=
  List.any table fun e => e.1 == name

def names (table : Table α) : List String :=
  List.map (·.1) table

/-- Write all entries of a second table, in its order. -/
def update (table more : Table α) : Table α :=
  List.foldl (fun t e => insert e.1 e.2 t) table more

/-- The table that results from writing pairs one after the other. -/
def ofPairs (pairs : List (String × α)) : Table α :=
  update [] pairs

end Table

end SparqlModel

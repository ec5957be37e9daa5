import Marginalia.Toml.Basic

/-!
# Tables under construction

A table is given by its header, comes to be because it lies on the way to one, or is made
by a key with dots.  A header makes a table once, and may come after those that lie below
it; a key with dots only goes through tables that keys with dots have made.  Values are
closed, and so are arrays and tables that are written in line.
-/

namespace Marginalia

namespace Toml

inductive Origin where
  | header
  /-- It lies on the way to a table that has a header. -/
  | ancestor
  | dottedKey
  deriving DecidableEq, Repr

inductive Node where
  | value (value : Toml)
  | table (origin : Origin) (entries : List (String × Node))
  /-- Tables that each have a header of the same name. -/
  | tables (items : List (List (String × Node)))

abbrev Entries := List (String × Node)

mutual

/-- The value of a key once the text is complete. -/
def Node.toToml : Node → Toml
  | .value v => v
  | .table _ entries => .table (finishEntries entries)
  | .tables items => .array (finishTables items)

def finishEntries : List (String × Node) → List (String × Toml)
  | [] => []
  | (key, node) :: entries => (key, node.toToml) :: finishEntries entries

def finishTables : List (List (String × Node)) → List Toml
  | [] => []
  | entries :: items => .table (finishEntries entries) :: finishTables items

end

namespace Entries

def get? (entries : Entries) (key : String) : Option Node :=
  (entries.find? (·.1 == key)).map (·.2)

/-- Entries in which a key has a node; a new key goes to the end. -/
def put (entries : Entries) (key : String) (node : Node) : Entries :=
  match entries with
  | [] => [(key, node)]
  | (k, n) :: rest => if k = key then (key, node) :: rest else (k, n) :: put rest key node

/--
Changes the table at the end of a path, which is told by its origin and its entries.
Tables that are missing on the way are made.
-/
def change (byDots : Bool) (f : Origin → Entries → Option Entries) :
    List String → Origin → Entries → Option Entries
  | [], origin, entries => f origin entries
  | key :: path, _, entries =>
      match entries.get? key with
      | none => do
          let made : Origin := if byDots then .dottedKey else .ancestor
          let inner ← change byDots f path made []
          some (entries.put key (.table made inner))
      | some (.value _) => none
      | some (.tables items) => do
          let last ← items.getLast?
          let inner ← change byDots f path .header last
          some (entries.put key (.tables (items.dropLast ++ [inner])))
      | some (.table origin inner) => do
          if byDots ∧ origin = .header then none
          else
            let inner ← change byDots f path origin inner
            some (entries.put key (.table origin inner))

/-- Adds a value at the end of a path of keys with dots between them. -/
def assign (entries : Entries) (origin : Origin) (path : List String) (value : Toml) :
    Option Entries := do
  let key ← path.getLast?
  let above := path.dropLast
  let add (origin : Origin) (entries : Entries) : Option Entries :=
    if (origin = .dottedKey) ↔ above = [] then none
    else if (entries.get? key).isSome then none
    else some (entries.put key (.value value))
  change true add above origin entries

def assignBelow (entries : Entries) (header path : List String) (value : Toml) :
    Option Entries :=
  change false (fun origin entries => entries.assign origin path value) header .header entries

def openTable (entries : Entries) (header : List String) : Option Entries := do
  let key ← header.getLast?
  let make (_ : Origin) (entries : Entries) : Option Entries :=
    match entries.get? key with
    | none => some (entries.put key (.table .header []))
    | some (.table .ancestor inner) => some (entries.put key (.table .header inner))
    | some _ => none
  change false make header.dropLast .header entries

/-- Adds one more table to those of a header. -/
def addTable (entries : Entries) (header : List String) : Option Entries := do
  let key ← header.getLast?
  let add (_ : Origin) (entries : Entries) : Option Entries :=
    match entries.get? key with
    | none => some (entries.put key (.tables [[]]))
    | some (.tables items) => some (entries.put key (.tables (items ++ [[]])))
    | some _ => none
  change false add header.dropLast .header entries

end Entries

end Toml

end Marginalia

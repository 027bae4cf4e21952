import TapeReader.Settings.Basic

/-!
# Tables of TOML while they are read

A table may be written in several pieces, and how it was started says which pieces may follow.

* `Node`: a value, a table with its origin, or an array of tables.
* `define?`, `extend?`: a header `[a.b]` and a header `[[a.b]]`.
* `assign?`: a line `a.b = v` inside a table.
-/

namespace TapeReader.Toml

/-- How a table came to be. -/
inductive Origin where
  /-- A longer header passes through it. -/
  | implied
  /-- A header names it. -/
  | header
  /-- A key with points passes through it. -/
  | dotted
deriving DecidableEq, Repr

inductive Node where
  | value (v : Setting)
  | table (origin : Origin) (entries : List (String × Node))
  /-- The tables of an array; the open one is apart. -/
  | tables (closed : List (List (String × Node))) (last : List (String × Node))

abbrev Entries := List (String × Node)

/-- The entries with a node under a name: in its old place, or behind the others. -/
def Entries.put (name : String) (node : Node) : Entries → Entries
  | [] => [(name, node)]
  | (other, old) :: rest =>
    if other = name then (name, node) :: rest else (other, old) :: put name node rest

/-- Changes the table at a path: of an array the last one, and tables are made where none are. -/
def under? (f : Entries → Option Entries) : List String → Entries → Option Entries
  | [], es => f es
  | name :: path, es =>
    match es.lookup name with
    | none => do some (es ++ [(name, .table .implied (← under? f path []))])
    | some (.table origin inner) => do
      some (Entries.put name (.table origin (← under? f path inner)) es)
    | some (.tables closed last) => do
      some (Entries.put name (.tables closed (← under? f path last)) es)
    | some (.value _) => none

/-- A table named by a header: a new one, or one that was only implied. -/
def define? (name : String) (es : Entries) : Option Entries :=
  match es.lookup name with
  | none => some (es ++ [(name, .table .header [])])
  | some (.table .implied inner) => some (Entries.put name (.table .header inner) es)
  | _ => none

/-- One more table of an array. -/
def extend? (name : String) (es : Entries) : Option Entries :=
  match es.lookup name with
  | none => some (es ++ [(name, .tables [] [])])
  | some (.tables closed last) => some (Entries.put name (.tables (closed ++ [last]) []) es)
  | _ => none

/-- A value under a key. The tables on its way are such as keys make, and no key is set twice. -/
def assign? (v : Setting) : List String → Entries → Option Entries
  | [], _ => none
  | [name], es => if (es.lookup name).isSome then none else some (es ++ [(name, .value v)])
  | name :: path, es =>
    match es.lookup name with
    | none => do some (es ++ [(name, .table .dotted (← assign? v path []))])
    | some (.table .dotted inner) => do
      some (Entries.put name (.table .dotted (← assign? v path inner)) es)
    | some (.table .implied inner) =>
      if path.length = 1 then none
      else do some (Entries.put name (.table .implied (← assign? v path inner)) es)
    | _ => none

/-- Changes what stands under the last name of a path. -/
def atLast? (f : String → Entries → Option Entries) (path : List String) (es : Entries) :
    Option Entries :=
  match path.getLast? with
  | some name => under? (f name) path.dropLast es
  | none => none

mutual

def Node.setting : Node → Setting
  | .value v => v
  | .table _ entries => .table (settings entries)
  | .tables closed last => .list (tableSettings closed ++ [.table (settings last)])

/-- The entries read, as entries of settings. -/
def settings : Entries → List (String × Setting)
  | [] => []
  | (name, node) :: rest => (name, node.setting) :: settings rest

def tableSettings : List (List (String × Node)) → List Setting
  | [] => []
  | es :: rest => .table (settings es) :: tableSettings rest

end

/-- A line of a document. -/
inductive Statement where
  | table (path : List String)
  | item (path : List String)
  | assign (path : List String) (v : Setting)

/-- One more line, read under the header before it. -/
def Statement.apply? : List String × Entries → Statement → Option (List String × Entries)
  | (_, es), .table path => (atLast? define? path es).map (path, ·)
  | (_, es), .item path => (atLast? extend? path es).map (path, ·)
  | (header, es), .assign path v => (under? (assign? v path) header es).map (header, ·)

/-- The entries that lines make together. -/
def entries? (lines : List Statement) : Option Entries := do
  let (_, es) ← lines.foldlM Statement.apply? ([], [])
  some es

end TapeReader.Toml

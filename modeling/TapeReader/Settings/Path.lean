import TapeReader.Settings.Basic

/-!
# Paths into settings

* `Path.ofText?`: a path such as `feed.url` or `aggregation.resolutions_secs[1]`.
* `Setting.overlay`: a value laid over another, tables merged.
* `Setting.set`: a value laid over what stands at a path.
-/

namespace TapeReader.Setting

/-- A step into a value: to the entry of a name in a table, or to an item of a list. Items before
the first have negative numbers, counted from the end. -/
inductive Step where
  | name (name : String)
  | item (index : Int)
deriving DecidableEq, Repr

/-- A way into a value. -/
abbrev Path := List Step

namespace Path

def isNameChar (c : Char) : Bool :=
  ('a' ≤ c && c ≤ 'z') || ('A' ≤ c && c ≤ 'Z') || ('0' ≤ c && c ≤ '9') || c = '_' || c = '-'

/-- A name at the front of a text, and what follows it. -/
def name? (s : List Char) : Option (String × List Char) :=
  match s.takeWhile isNameChar with
  | [] => none
  | name => some (String.ofList name, s.dropWhile isNameChar)

/-- A number up to a closing bracket, and what follows that. -/
def index? (s : List Char) : Option (Int × List Char) :=
  let (negative, s) := match s with
    | '-' :: rest => (true, rest)
    | _ => (false, s)
  match Text.takeDigits s with
  | (d :: ds, ']' :: rest) =>
    let n : Int := Text.value 10 (d :: ds)
    some (if negative then -n else n, rest)
  | _ => none

/-- The steps after the first name. The first argument bounds their number. -/
def steps? : Nat → List Char → Option Path
  | _, [] => some []
  | 0, _ :: _ => none
  | fuel + 1, '.' :: s => do
    let (name, s) ← name? s
    (steps? fuel s).map (.name name :: ·)
  | fuel + 1, '[' :: s => do
    let (index, s) ← index? s
    (steps? fuel s).map (.item index :: ·)
  | _ + 1, _ :: _ => none

/-- The path that a text names: names with points between them, numbers in brackets. -/
def ofText? (s : String) : Option Path := do
  let (name, rest) ← name? s.toList
  (steps? rest.length rest).map (.name name :: ·)

/-- The path that a text names, or else the text as a name. -/
def ofText (s : String) : Path := (ofText? s).getD [.name s]

end Path

def entries : Setting → List (String × Setting)
  | .table entries => entries
  | _ => []

def items : Setting → List Setting
  | .list items => items
  | _ => []

mutual

/-- A value laid over another: a table adds its entries to those of a table, anything else takes
the place of what was there. -/
def overlay : Setting → Setting → Setting
  | .table entries, old => .table (overlayEntries entries old.entries)
  | v, _ => v

def overlayEntries : List (String × Setting) → List (String × Setting) → List (String × Setting)
  | [], old => old
  | (name, v) :: rest, old =>
    overlayEntries rest (put name (overlay v ((find? old name).getD nil)) old)

end

/-- A list with the item at a place changed, and made longer where it does not have the place. -/
def changeItem (index : Int) (f : Setting → Setting) (items : List Setting) : List Setting :=
  if 0 ≤ index then
    let n := index.toNat
    let items := items ++ List.replicate (n + 1 - items.length) nil
    items.modify n f
  else if -index ≤ items.length then items.modify (items.length - (-index).toNat) f
  else f nil :: List.replicate ((-index).toNat - items.length - 1) nil ++ items

/-- A value with `v` laid over what stands at a path. What has not the place gives way to a table
or a list that has it. -/
def set (v : Setting) : Path → Setting → Setting
  | [], old => overlay v old
  | .name name :: rest, old =>
    .table (put name (set v rest ((find? old.entries name).getD nil)) old.entries)
  | .item index :: rest, old => .list (changeItem index (set v rest) old.items)

/-- Tables laid one over the other, the names in them read as paths. -/
def assemble (entries : List (String × Setting)) (start : Setting) : Setting :=
  entries.foldl (fun all (name, v) => set v (.ofText name) all) start

end TapeReader.Setting

import TapeReader.Settings.Basic

/-!
# Settings files

* `Files`: what stands at paths.
* `SettingsReader`: what a library for settings makes of a file.
* `Files.locate?`: the file that a path stands for, and `Files.settings?`: its value.
-/

namespace TapeReader

-- Contents are compared the same way whichever libraries are in scope.
attribute [local instance (2000)] ByteArray.instDecidableEq

/-- What stands at a path. -/
inductive Entry where
  | file (content : ByteArray)
  /-- A file that cannot be read. -/
  | unreadable
  /-- A directory, or anything else that is no file. -/
  | other
deriving DecidableEq

def Entry.isFile : Entry → Bool
  | .other => false
  | _ => true

/-- A library that reads settings. -/
class SettingsReader where
  /-- The extensions that it tries behind a path, in order. -/
  extensions : List String
  /-- The value of a file, by the extension of its name and its content. -/
  read? : String → ByteArray → Option Setting

/-- The value of what stands at a path. -/
def Entry.settings? [SettingsReader] (extension : String) : Entry → Option Setting
  | .file content => SettingsReader.read? extension content
  | _ => none

/-- What stands at paths. -/
abbrev Files := List (String × Entry)

namespace Files

/-- A path without the parts that lead nowhere. -/
def plainPath (path : String) : String :=
  let parts := (Text.splitOn '/' path.toList).filter fun part => part ≠ [] ∧ part ≠ ['.']
  let joined := String.intercalate "/" (parts.map String.ofList)
  if path.startsWith "/" then "/" ++ joined else joined

def lookup? (files : Files) (path : String) : Option Entry :=
  (files.find? fun (name, _) => plainPath name = plainPath path).map (·.2)

def file? (files : Files) (path : String) : Option Entry := (files.lookup? path).filter (·.isFile)

/-- What follows the last point of a file's name, if anything. A name that only starts with a point
has no extension. -/
def extension (path : String) : String :=
  match (Text.splitOn '/' (plainPath path).toList).getLast? with
  | none => ""
  | some name =>
    match (Text.splitOn '.' name).reverse with
    | extension :: _ :: before =>
      if before.isEmpty ∧ name.head? = some '.' then "" else String.ofList extension
    | _ => ""

variable [SettingsReader]

/-- The file that a path stands for, with its extension: the path itself, or else with one of the
extensions behind it. -/
def locate? (files : Files) (path : String) : Option (String × Entry) :=
  if plainPath path = "" then none
  else match files.file? path with
    | some entry => some (extension path, entry)
    | none =>
      SettingsReader.extensions.findSome? fun extension =>
        (files.file? (plainPath path ++ "." ++ extension)).map (extension, ·)

/-- The value of the file that a path stands for. -/
def settings? (files : Files) (path : String) : Option Setting :=
  (files.locate? path).bind fun (extension, entry) => entry.settings? extension

end Files

end TapeReader

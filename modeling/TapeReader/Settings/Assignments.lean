import TapeReader.Settings.Variables
import TapeReader.Text.Utf8

/-!
# Files of assignments

A file of lines `NAME=value` that stand for variables of the environment.

* `Assignments.records`: the lines, joined where quotes go on over several.
* `Assignments.line?`: what a line assigns.
* `Variables.withFile`: variables with those of a file behind them.
-/

namespace TapeReader

namespace Assignments

def isNameStart (c : Char) : Bool := ('a' ≤ c && c ≤ 'z') || ('A' ≤ c && c ≤ 'Z') || c = '_'

def isNameChar (c : Char) : Bool := isNameStart c || ('0' ≤ c && c ≤ '9') || c = '.'

def isBlank (c : Char) : Bool := c = ' ' || c = '\t'

/-- A name at the front of a line, and what follows it and the blanks behind it. -/
def name? (s : List Char) : Option (String × List Char) :=
  if s.head?.any isNameStart then
    some (String.ofList (s.takeWhile isNameChar), Text.trimLeft (s.dropWhile isNameChar))
  else none

/-- The name a line assigns to, and the text of the value. The word `export` may stand in front. -/
def parts? (s : List Char) : Option (String × List Char) := do
  let (name, rest) ← name? s
  match rest with
  | '=' :: rest => some (name, Text.trimLeft rest)
  | _ =>
    if name = "export" then do
      let (name, rest) ← name? rest
      let rest ← Text.strip? ['='] rest
      some (name, Text.trimLeft rest)
    else none

/-- The quotes that a value is read in. -/
inductive Quoting where
  | bare
  | single
  | double
deriving DecidableEq, Repr

/-- What is read after `$`: the name of a variable, which is letters and digits or anything in
braces, and a character that ends it and stays. -/
def reference? (s : List Char) : Option (String × List Char × List Char) :=
  match s with
  | '\x7b' :: rest =>
    match rest.dropWhile (· ≠ '\x7d') with
    | _ :: after => some (String.ofList (rest.takeWhile (· ≠ '\x7d')), [], after)
    | [] => none
  | _ =>
    let name := String.ofList (s.takeWhile Char.isAlphanum)
    match s.dropWhile Char.isAlphanum with
    | '$' :: rest => some (name, [], '$' :: rest)
    | c :: rest => some (name, [c], rest)
    | [] => some (name, [], [])

/-- The text of a value: quotes, escapes and references resolved, a comment behind a blank left
out. The number bounds its length. -/
def value? (vs : Variables) : Nat → Quoting → List Char → Option (List Char)
  | _, quoting, [] => if quoting = .bare then some [] else none
  | 0, _, _ :: _ => none
  | fuel + 1, .single, c :: rest =>
    if c = '\'' then value? vs fuel .bare rest
    else (value? vs fuel .single rest).map (c :: ·)
  | fuel + 1, quoting, '\\' :: c :: rest =>
    if "\\'\"$ ".toList.contains c then (value? vs fuel quoting rest).map (c :: ·)
    else if c = 'n' then (value? vs fuel quoting rest).map ('\n' :: ·)
    else none
  | fuel + 1, quoting, '$' :: rest => do
    let (name, stays, rest) ← reference? rest
    let known := ((vs.lookup name).getD "").toList
    (value? vs fuel quoting rest).map (known ++ stays ++ ·)
  | fuel + 1, .double, c :: rest =>
    if c = '"' then value? vs fuel .bare rest
    else if c = '\\' then none
    else (value? vs fuel .double rest).map (c :: ·)
  | fuel + 1, .bare, c :: rest =>
    if c = '\'' then value? vs fuel .single rest
    else if c = '"' then value? vs fuel .double rest
    else if c = '\\' then some []
    else if isBlank c then
      match rest.dropWhile isBlank with
      | [] => some []
      | c :: _ => if c = '#' then some [] else none
    else (value? vs fuel .bare rest).map (c :: ·)

/-- What a line assigns: nothing where it is empty or a comment. -/
def line? (vs : Variables) (s : List Char) : Option (Option (String × String)) :=
  let s := Text.trim s
  if s.isEmpty ∨ s.head? = some '#' then some none
  else do
    let (name, text) ← parts? s
    if text.head? = some '#' then some (some (name, ""))
    else do
      let value ← value? vs text.length .bare text
      some (some (name, String.ofList value))

/-- Where a line is left when it is read for its quotes alone. A backslash covers the character
behind it. -/
inductive Reading where
  | bare
  | blank
  | comment
  | covered (inside : Quoting)
  | quoted (inside : Quoting)
deriving DecidableEq, Repr

def Reading.next : Reading → Char → Reading
  | .comment, _ => .comment
  | .covered .bare, _ => .bare
  | .covered q, _ => .quoted q
  | .quoted .single, c =>
    if c = '\\' then .covered .single else if c = '\'' then .bare else .quoted .single
  | .quoted q, c =>
    if c = '\\' then .covered q else if c = '"' then .bare else .quoted q
  | r, c =>
    if c = '#' ∧ r = .blank then .comment
    else if c = '\\' then .covered .bare
    else if c = '\'' then .quoted .single
    else if c = '"' then .quoted .double
    else if r = .bare ∧ Text.isBlank c ∧ c ≠ '\n' ∧ c ≠ '\r' then .blank
    else .bare

/-- The lines of a text, joined where quotes are open at the end of one. `pending` is a line that
goes on. In place of one that is open at the end of the text there is nothing. -/
def records (pending : List Char) (r : Reading) : List (List Char) → List (Option (List Char))
  | [] => if pending.isEmpty then [] else [none]
  | s :: rest =>
    let whole := pending ++ s
    if (Text.trimLeft whole).head? = some '#' then records [] .bare rest
    else
      let after := s.foldl Reading.next r
      let after := if rest.isEmpty then after else after.next '\n'
      if after = .bare ∨ after = .comment then some whole :: records [] .bare rest
      else records (whole ++ ['\n']) after rest

/-- Lines as texts, up to the first that is none. An empty line stands for that one and all behind
it. -/
def texts : List (List UInt8) → List (List Char)
  | [] => []
  | line :: rest =>
    match Text.ofBytes? line with
    | some s => s :: texts rest
    | none => [[]]

end Assignments

namespace Variables

/-- The variables with the assignments of lines added, up to the first line that is none. Names
that have a value keep it. -/
def withRecords (vs : Variables) : List (Option (List Char)) → Variables
  | [] => vs
  | none :: _ => vs
  | some s :: rest =>
    match Assignments.line? vs s with
    | none => vs
    | some none => withRecords vs rest
    | some (some (name, value)) => withRecords (vs.add name value) rest

/-- **The variables with those of a file behind them.** -/
def withFile (vs : Variables) (content : ByteArray) : Variables :=
  let lines := Text.splitOn 10 (Text.withoutMark content.data.toList)
  vs.withRecords (Assignments.records [] .bare (Assignments.texts lines))

end Variables

end TapeReader

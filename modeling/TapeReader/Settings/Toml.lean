import TapeReader.Settings.Toml.Quoted
import TapeReader.Settings.Toml.Scalar
import TapeReader.Settings.Toml.Table

/-!
# TOML

`Setting.ofToml?`: the table that a TOML text denotes.
-/

namespace TapeReader.Toml

def skipBlank (s : List Char) : List Char := s.dropWhile fun c => c = ' ' || c = '\t'

/-- What follows a comment that starts here, if one does. -/
def skipComment? (s : List Char) : Option (List Char) :=
  match s with
  | '#' :: rest =>
    if (rest.takeWhile (· ≠ '\n')).any isControl then none else some (rest.dropWhile (· ≠ '\n'))
  | _ => some s

/-- What follows blanks, comments and line breaks. The first argument bounds their number. -/
def skipLines? : Nat → List Char → Option (List Char)
  | 0, _ => none
  | fuel + 1, s => do
    match ← skipComment? (skipBlank s) with
    | '\n' :: rest => skipLines? fuel rest
    | s => some s

/-- What follows the end of a line. -/
def lineEnd? (s : List Char) : Option (List Char) := do
  match ← skipComment? (skipBlank s) with
  | [] => some []
  | '\n' :: rest => some rest
  | _ => none

def isBare (c : Char) : Bool :=
  ('a' ≤ c && c ≤ 'z') || ('A' ≤ c && c ≤ 'Z') || ('0' ≤ c && c ≤ '9') || c = '_' || c = '-'

/-- One name of a key: bare or quoted. -/
def name? (s : List Char) : Option (String × List Char) :=
  match s with
  | '"' :: rest => (basic? rest).map fun (s, rest) => (String.ofList s, rest)
  | '\'' :: rest => (literal? rest).map fun (s, rest) => (String.ofList s, rest)
  | _ =>
    match s.takeWhile isBare with
    | [] => none
    | name => some (String.ofList name, s.dropWhile isBare)

/-- A key: names with points between them. The first argument bounds their number. -/
def key? : Nat → List Char → Option (List String × List Char)
  | 0, _ => none
  | fuel + 1, s => do
    let (name, s) ← name? (skipBlank s)
    match skipBlank s with
    | '.' :: rest => do
      let (path, rest) ← key? fuel rest
      some (name :: path, rest)
    | rest => some ([name], rest)

/-- A bare word at the front of a text, and what follows it. A blank inside belongs to it where a
time follows a date. -/
def word (s : List Char) : List Char × List Char :=
  let isEnd (c : Char) : Bool := " \t\n,]\x7d#".toList.contains c
  let first := s.takeWhile (!isEnd ·)
  let rest := s.drop first.length
  match date? first, rest with
  | some (_, []), ' ' :: c :: more =>
    if (Text.digit? c).isSome then
      let second := (c :: more).takeWhile (!isEnd ·)
      (first ++ ' ' :: second, (c :: more).drop second.length)
    else (first, rest)
  | _, _ => (first, rest)

def text (r : Option (List Char × List Char)) : Option (Setting × List Char) :=
  r.map fun (s, rest) => (.text (String.ofList s), rest)

mutual

/-- A value at the front of a text. The first argument bounds the nesting and the length. -/
def value? : Nat → List Char → Option (Setting × List Char)
  | 0, _ => none
  | fuel + 1, s =>
    match s with
    | '"' :: '"' :: '"' :: rest => text (longBasic? false (dropBreak rest))
    | '"' :: rest => text (basic? rest)
    | '\'' :: '\'' :: '\'' :: rest => text (longLiteral? (dropBreak rest))
    | '\'' :: rest => text (literal? rest)
    | '[' :: rest => do
      let (items, rest) ← items? fuel rest
      some (.list items, rest)
    | '{' :: rest =>
      match skipBlank rest with
      | '}' :: rest => some (.table [], rest)
      | rest => do
        let (es, rest) ← pairs? fuel [] rest
        some (.table (settings es), rest)
    | s => do
      let (word, rest) := word s
      some (← scalar? word, rest)

/-- The items of an array up to the closing bracket; a comma may stand behind the last. -/
def items? : Nat → List Char → Option (List Setting × List Char)
  | 0, _ => none
  | fuel + 1, s => do
    match ← skipLines? (s.length + 1) s with
    | ']' :: rest => some ([], rest)
    | s => do
      let (v, s) ← value? fuel s
      match ← skipLines? (s.length + 1) s with
      | ',' :: rest => do
        let (items, rest) ← items? fuel rest
        some (v :: items, rest)
      | ']' :: rest => some ([v], rest)
      | _ => none

/-- The pairs of a table on one line, at least one, up to the closing brace. -/
def pairs? : Nat → Entries → List Char → Option (Entries × List Char)
  | 0, _, _ => none
  | fuel + 1, es, s => do
    let (path, s) ← key? (s.length + 1) s
    match s with
    | '=' :: s => do
      let (v, s) ← value? fuel (skipBlank s)
      let es ← assign? v path es
      match skipBlank s with
      | ',' :: rest => pairs? fuel es rest
      | '}' :: rest => some (es, rest)
      | _ => none
    | _ => none

end

/-- The lines of a document. The first argument bounds their number. -/
def statements? : Nat → List Char → Option (List Statement)
  | 0, _ => none
  | fuel + 1, s => do
    match ← skipLines? (s.length + 1) s with
    | [] => some []
    | '[' :: '[' :: rest => do
      let (path, rest) ← key? (rest.length + 1) rest
      let rest ← lineEnd? (← Text.strip? "]]".toList rest)
      some (.item path :: (← statements? fuel rest))
    | '[' :: rest => do
      let (path, rest) ← key? (rest.length + 1) rest
      let rest ← lineEnd? (← Text.strip? "]".toList rest)
      some (.table path :: (← statements? fuel rest))
    | s => do
      let (path, rest) ← key? (s.length + 1) s
      let rest ← Text.strip? "=".toList rest
      let (v, rest) ← value? (2 * rest.length + 2) (skipBlank rest)
      let rest ← lineEnd? rest
      some (.assign path v :: (← statements? fuel rest))

/-- A text with every line break a single character. -/
def joinBreaks : List Char → List Char
  | [] => []
  | '\r' :: '\n' :: rest => '\n' :: joinBreaks rest
  | c :: rest => c :: joinBreaks rest

end TapeReader.Toml

namespace TapeReader

/-- **The table of a TOML text.** -/
def Setting.ofToml? (s : String) : Option Setting := do
  let s := Toml.joinBreaks s.toList
  let lines ← Toml.statements? (s.length + 1) s
  let es ← Toml.entries? lines
  some (.table (Toml.settings es))

end TapeReader

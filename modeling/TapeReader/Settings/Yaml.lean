import TapeReader.Settings.Basic
import TapeReader.Settings.Yaml.Token

/-!
# YAML

`Setting.ofYaml?`: the value that a YAML text of one document denotes. Blocks nest by indentation,
lists and tables in brackets may stand inside them.

* `Yaml.plainScalar?`: the type of a scalar without quotes.
* `Yaml.block?`: the value that stands deeper than a column.
-/

namespace TapeReader.Yaml

-- Powers mean the same whichever libraries are in scope.
attribute [local instance (2000)] instPowNat

/-- The digits of a base, a sign allowed in front of them. -/
def basedInteger? (base : Nat) (s : List Char) : Option Int :=
  let digits? (s : List Char) : Option Int :=
    if s.isEmpty then none
    else (s.mapM fun c => (Text.hexDigit? c).filter (· < base)).map fun ds => Text.value base ds
  match s with
  | '-' :: rest => (digits? rest).map (- ·)
  | '+' :: rest => digits? rest
  | _ => digits? s

/-- An integer of 64 bits: hexadecimal behind `0x`, octal behind `0o`, or in base ten with a sign
allowed, and a plus in front of that. -/
def integer? (s : List Char) : Option Int :=
  let i := match s with
    | '0' :: 'x' :: rest => basedInteger? 16 rest
    | '0' :: 'o' :: rest => basedInteger? 8 rest
    | '+' :: rest => basedInteger? 10 rest
    | _ => basedInteger? 10 s
  i.bind (Setting.within? (-2 ^ (63 : Nat)) (2 ^ (63 : Nat) - 1))

/-- A number with decimals or an exponent. One beyond the largest is infinite. -/
def fraction? (s : List Char) : Option Setting := do
  let (negative, s) := match s with
    | '-' :: rest => (true, rest)
    | '+' :: rest => (false, rest)
    | _ => (false, s)
  let (whole, s) := Text.takeDigits s
  let (decimals, s) := match s with
    | '.' :: rest => Text.takeDigits rest
    | _ => ([], s)
  let power ← match s with
    | [] => some 0
    | c :: rest => if c = 'e' ∨ c = 'E' then Setting.integer? rest else none
  let digits := whole ++ decimals
  if digits.isEmpty then none
  else match Binary64.ofDecimal (Text.value 10 digits) (power - decimals.length) with
    | some magnitude => some (.float negative magnitude)
    | none => some (.infinite negative)

/-- The words for what is no number or has no bound, which no field can hold. -/
def isUnbounded (s : List Char) : Bool :=
  ([".inf", ".Inf", ".INF", "+.inf", "+.Inf", "+.INF", "-.inf", "-.Inf", "-.INF", ".nan",
    ".NAN"].map String.toList).contains s

/-- **The value of a scalar without quotes.** -/
def plainScalar? (s : List Char) : Option Setting :=
  match integer? s with
  | some i => some (.int i)
  | none =>
    if s = [] ∨ s = ['~'] ∨ s = "null".toList then some .nil
    else if s = "true".toList then some (.bool true)
    else if s = "false".toList then some (.bool false)
    else if s = "NaN".toList then some .notNumber
    else if isUnbounded s then none
    else some ((fraction? s).getD (.text (String.ofList s)))

/-- The name that a scalar gives to an entry. -/
def name? : Mark → Option String
  | .quoted s => some (String.ofList s)
  | .plain s =>
    match plainScalar? s with
    | some (.int i) => some (Text.int i)
    | some (.text s) => some s
    | _ => none
  | _ => none

def isScalar : Mark → Bool
  | .plain _ | .quoted _ => true
  | _ => false

/-- Whether a scalar and a colon on its line stand in front. -/
def startsEntry : List Token → Bool
  | t :: c :: _ => isScalar t.mark && c.mark = .colon && c.line = t.line
  | _ => false

/-- A plain scalar that goes on over the lines that follow, deeper than a column: a line break is
a blank, and each empty line is a line break. -/
def continued (outer : Int) (line : Nat) (s : List Char) : List Token → List Char × List Token
  | [] => (s, [])
  | t :: rest =>
    match t.mark with
    | .plain more =>
      if line < t.line ∧ outer < t.column ∧ ¬ startsEntry (t :: rest) then
        let gap := t.line - line - 1
        let glue := if gap = 0 then [' '] else List.replicate gap '\n'
        continued outer t.line (s ++ glue ++ more) rest
      else (s, t :: rest)
    | _ => (s, t :: rest)

/-- A new entry behind the others; a name written twice is refused. -/
def enter? (name : String) (v : Setting) (es : List (String × Setting)) :
    Option (List (String × Setting)) :=
  if (es.lookup name).isSome then none else some (es ++ [(name, v)])

mutual

/-- A value inside brackets. Nothing in it stands before a column. The first argument bounds the
nesting and the length. -/
def flow? : Nat → Int → List Token → Option (Setting × List Token)
  | 0, _, _ => none
  | _ + 1, _, [] => none
  | fuel + 1, outer, t :: rest =>
    if t.column < outer then none
    else match t.mark with
      | .plain s => do some (← plainScalar? s, rest)
      | .quoted s => some (.text (String.ofList s), rest)
      | .openList => do
        let (items, rest) ← flowItems? fuel outer rest
        some (.list items, rest)
      | .openTable => do
        let (es, rest) ← flowEntries? fuel outer [] rest
        some (.table es, rest)
      | _ => none

/-- The items up to the closing bracket; a comma may stand behind the last. -/
def flowItems? : Nat → Int → List Token → Option (List Setting × List Token)
  | 0, _, _ => none
  | _ + 1, _, [] => none
  | fuel + 1, outer, t :: rest =>
    if t.column < outer then none
    else if t.mark = .closeList then some ([], rest)
    else do
      let (v, rest) ← flow? fuel outer (t :: rest)
      match rest with
      | [] => none
      | c :: rest =>
        if c.column < outer then none
        else if c.mark = .closeList then some ([v], rest)
        else if c.mark = .comma then do
          let (items, rest) ← flowItems? fuel outer rest
          some (v :: items, rest)
        else none

/-- The entries up to the closing brace; a comma may stand behind the last. A name alone has
nothing as its value. -/
def flowEntries? : Nat → Int → List (String × Setting) → List Token →
    Option (List (String × Setting) × List Token)
  | 0, _, _, _ => none
  | _ + 1, _, _, [] => none
  | fuel + 1, outer, es, t :: rest =>
    if t.column < outer then none
    else if t.mark = .closeTable then some (es, rest)
    else do
      let name ← name? t.mark
      let (v, rest) ← match rest with
        | c :: v :: more =>
          if c.mark ≠ .colon then some (.nil, rest)
          else if v.mark = .comma ∨ v.mark = .closeTable then some (.nil, v :: more)
          else flow? fuel outer (v :: more)
        | _ => some (.nil, rest)
      let es ← enter? name v es
      match rest with
      | [] => none
      | c :: rest =>
        if c.column < outer then none
        else if c.mark = .closeTable then some (es, rest)
        else if c.mark = .comma then flowEntries? fuel outer es rest
        else none

/-- A scalar, or a value in brackets. -/
def leaf? : Nat → Int → List Token → Option (Setting × List Token)
  | 0, _, _ => none
  | _ + 1, _, [] => none
  | fuel + 1, outer, t :: rest =>
    match t.mark with
    | .plain s => do
      let (s, rest) := continued outer t.line s rest
      some (← plainScalar? s, rest)
    | _ => flow? fuel outer (t :: rest)

/-- **The value that stands deeper than a column,** nothing where no token does. -/
def block? : Nat → Int → List Token → Option (Setting × List Token)
  | 0, _, _ => none
  | _ + 1, _, [] => some (.nil, [])
  | fuel + 1, outer, t :: rest =>
    if t.column ≤ outer then some (.nil, t :: rest)
    else if t.mark = .dash then do
      let (items, rest) ← sequence? fuel t.column (t :: rest)
      some (.list items, rest)
    else if startsEntry (t :: rest) then do
      let (es, rest) ← mapping? fuel t.column [] (t :: rest)
      some (.table es, rest)
    else leaf? fuel outer (t :: rest)

/-- The items behind the dashes of a column. -/
def sequence? : Nat → Nat → List Token → Option (List Setting × List Token)
  | 0, _, _ => none
  | _ + 1, _, [] => some ([], [])
  | fuel + 1, column, t :: rest =>
    if column < t.column then none
    else if t.mark = .dash ∧ t.column = column then do
      let (v, rest) ← block? fuel column rest
      let (items, rest) ← sequence? fuel column rest
      some (v :: items, rest)
    else some ([], t :: rest)

/-- The entries whose names stand in a column. A list may stand in the column of its name. -/
def mapping? : Nat → Nat → List (String × Setting) → List Token →
    Option (List (String × Setting) × List Token)
  | 0, _, _, _ => none
  | _ + 1, _, es, [] => some (es, [])
  | fuel + 1, column, es, t :: rest =>
    if t.column < column then some (es, t :: rest)
    else if column < t.column ∨ ¬ startsEntry (t :: rest) then none
    else do
      let name ← name? t.mark
      let rest := rest.drop 1
      let (v, rest) ← match rest with
        | [] => some (.nil, [])
        | u :: _ =>
          if u.line = t.line then leaf? fuel column rest
          else if u.mark = .dash ∧ u.column = column then do
            let (items, rest) ← sequence? fuel column rest
            some (.list items, rest)
          else block? fuel column rest
      mapping? fuel column (← enter? name v es) rest

end

/-- Whether a line is a mark between documents. -/
def isMarker (marker : String) (s : List Char) : Bool :=
  match Text.strip? marker.toList s with
  | some rest => breaks rest
  | none => false

/-- Whether a line holds nothing, or only a comment. -/
def isEmptyLine (s : List Char) : Bool :=
  match s.dropWhile isBlank with
  | [] => true
  | c :: _ => c = '#'

/-- The lines of the only document, and whether a mark announces it. -/
def document? (lines : List (List Char)) : Option (List (List Char) × Bool) :=
  let body := lines.dropWhile isEmptyLine
  let (announced, body) := match body with
    | first :: rest =>
      if isMarker "---" first then (true, first.drop 3 :: rest) else (false, first :: rest)
    | [] => (false, [])
  let isMark (s : List Char) : Bool := isMarker "---" s || isMarker "..." s
  match body.dropWhile (!isMark ·) with
  | [] => some (body, announced)
  | mark :: rest =>
    if isMarker "..." mark ∧ isEmptyLine (mark.drop 3) ∧ rest.all isEmptyLine then
      some (body.takeWhile (!isMark ·), announced)
    else none

def dropReturn (s : List Char) : List Char :=
  if s.getLast? = some '\r' then s.dropLast else s

end TapeReader.Yaml

namespace TapeReader

/-- **The value of a YAML text.** A text without a document is an empty table. -/
def Setting.ofYaml? (s : String) : Option Setting := do
  let (lines, announced) ← Yaml.document? ((Text.splitOn '\n' s.toList).map Yaml.dropReturn)
  let ts ← Yaml.tokens? 0 0 lines
  if ts.isEmpty ∧ ¬ announced then some (.table [])
  else
    match ← Yaml.block? (4 * ts.length + 4) (-1) ts with
    | (v, []) => some v
    | _ => none

end TapeReader

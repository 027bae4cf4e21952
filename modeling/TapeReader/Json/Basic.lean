import TapeReader.Binary64

/-!
# JSON values

* `Json`: what a JSON text denotes. An object keeps every member it was written with.
* `field?`, `lastField?`: a member by name, refusing or resolving a name written twice.
* `record?`: the declared fields of a record, from an object or from an array.
* `readable`, `depth`, `settled`: what makes a value of a text.
-/

namespace TapeReader

-- Powers mean the same whichever libraries are in scope.
attribute [local instance (2000)] instPowNat

/-- A number: an integer of 64 bits, with or without sign, or a binary fraction. -/
inductive Number where
  | int (i : Int)
  | float (negative : Bool) (magnitude : Binary64)
deriving DecidableEq, Repr

/-- A JSON value. `unreadable` stands for a number or a string that is well written and denotes
nothing: a number beyond the largest, a string or a member name with half a surrogate pair. -/
inductive Json where
  | null
  | bool (b : Bool)
  | number (n : Number)
  | string (s : String)
  | array (items : List Json)
  | object (members : List (String × Json))
  | unreadable
deriving Repr, Inhabited

namespace Json

def int (i : Int) : Json := .number (.int i)

def nat (n : Nat) : Json := .int n

mutual

/-- Whether every part of a value denotes something. -/
def readable : Json → Bool
  | .unreadable => false
  | .array items => readableItems items
  | .object members => readableMembers members
  | _ => true

def readableItems : List Json → Bool
  | [] => true
  | j :: rest => readable j && readableItems rest

def readableMembers : List (String × Json) → Bool
  | [] => true
  | (_, j) :: rest => readable j && readableMembers rest

end

mutual

/-- How many arrays and objects stand around the innermost part. -/
def depth : Json → Nat
  | .array items => depthItems items + 1
  | .object members => depthMembers members + 1
  | _ => 0

def depthItems : List Json → Nat
  | [] => 0
  | j :: rest => max (depth j) (depthItems rest)

def depthMembers : List (String × Json) → Nat
  | [] => 0
  | (_, j) :: rest => max (depth j) (depthMembers rest)

end

mutual

/-- The value with each name once in an object: of a name written twice the last member stays. -/
def settled : Json → Json
  | .array items => .array (settledItems items)
  | .object members => .object (settledMembers members)
  | j => j

def settledItems : List Json → List Json
  | [] => []
  | j :: rest => settled j :: settledItems rest

def settledMembers : List (String × Json) → List (String × Json)
  | [] => []
  | (name, j) :: rest =>
    if rest.any (·.1 == name) then settledMembers rest
    else (name, settled j) :: settledMembers rest

end

/-- The member of a name, where the object has it. A name written twice is refused. -/
def field? (members : List (String × Json)) (name : String) : Option (Option Json) :=
  match members.filter (·.1 == name) with
  | [] => some none
  | [(_, j)] => some (some j)
  | _ => none

/-- The last member of a name. -/
def lastField? (members : List (String × Json)) (name : String) : Option Json :=
  (members.reverse.find? (·.1 == name)).map (·.2)

/-- The value under a name of an object, nothing for any other value. -/
def get? (j : Json) (name : String) : Option Json :=
  match j with
  | .object members => lastField? members name
  | _ => none

/-- The declared fields of a record, in order: from an object by name, from an array by position.
Other members are ignored, items beyond the last field refused. -/
def record? (names : List String) : Json → Option (List (Option Json))
  | .object members => names.mapM (field? members)
  | .array items =>
    if items.length ≤ names.length then
      some (items.map some ++ List.replicate (names.length - items.length) none)
    else none
  | _ => none

def string? : Json → Option String
  | .string s => some s
  | _ => none

def bool? : Json → Option Bool
  | .bool b => some b
  | _ => none

/-- A signed integer of 64 bits. A fraction without decimals is none. -/
def int64? : Json → Option Int
  | .number (.int i) => if -2 ^ (63 : Nat) ≤ i ∧ i < 2 ^ (63 : Nat) then some i else none
  | _ => none

/-- An integer of 64 bits without sign. -/
def nat64? : Json → Option Nat
  | .number (.int i) => if 0 ≤ i ∧ i < 2 ^ (64 : Nat) then some i.toNat else none
  | _ => none

def array? : Json → Option (List Json)
  | .array items => some items
  | _ => none

end Json

end TapeReader

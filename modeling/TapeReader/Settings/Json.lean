import TapeReader.Json.Parser
import TapeReader.Settings.Basic

/-!
# JSON as settings

* `Setting.ofJson`: a JSON value as a setting. An integer beyond 63 bits is a fraction.
* `Setting.ofJsonText?`: the value of a JSON text.
-/

namespace TapeReader.Setting

-- Powers mean the same whichever libraries are in scope.
attribute [local instance (2000)] instPowNat

def ofNumber : Number → Setting
  | .int i =>
    if i < 2 ^ (63 : Nat) then .int i
    else match Binary64.ofNat i.toNat with
      | some magnitude => .float false magnitude
      | none => .infinite false
  | .float negative magnitude => .float negative magnitude

mutual

def ofJson : Json → Setting
  | .null => .nil
  | .unreadable => .nil
  | .bool b => .bool b
  | .number n => ofNumber n
  | .string s => .text s
  | .array items => .list (ofJsonItems items)
  | .object members => .table (ofJsonMembers members)

def ofJsonItems : List Json → List Setting
  | [] => []
  | j :: rest => ofJson j :: ofJsonItems rest

def ofJsonMembers : List (String × Json) → List (String × Setting)
  | [] => []
  | (name, j) :: rest => (name, ofJson j) :: ofJsonMembers rest

end

/-- The value of a JSON text; of a name written twice the last member stays. -/
def ofJsonText? (s : String) : Option Setting := (Json.ofText? s).map ofJson

end TapeReader.Setting

import TapeReader.Json.Basic

/-!
# Equality of JSON values

Values are compared member by member, in the order in which they were written.
-/

namespace TapeReader.Json

mutual

/-- Whether two values are one and the same. -/
def same : Json → Json → Bool
  | .null, .null => true
  | .bool a, .bool b => a == b
  | .number a, .number b => a == b
  | .string a, .string b => a == b
  | .array items, .array items' => sameItems items items'
  | .object members, .object members' => sameMembers members members'
  | .unreadable, .unreadable => true
  | _, _ => false

def sameItems : List Json → List Json → Bool
  | [], [] => true
  | j :: rest, j' :: rest' => same j j' && sameItems rest rest'
  | _, _ => false

def sameMembers : List (String × Json) → List (String × Json) → Bool
  | [], [] => true
  | (name, j) :: rest, (name', j') :: rest' => name == name' && same j j' && sameMembers rest rest'
  | _, _ => false

end

mutual

theorem same_iff : (j j' : Json) → (same j j' = true ↔ j = j')
  | .null, j' => by cases j' <;> simp [same]
  | .bool _, j' => by cases j' <;> simp [same]
  | .number _, j' => by cases j' <;> simp [same]
  | .string _, j' => by cases j' <;> simp [same]
  | .unreadable, j' => by cases j' <;> simp [same]
  | .array items, j' => by
    cases j' with
    | array items' => simp [same, sameItems_iff items items']
    | _ => simp [same]
  | .object members, j' => by
    cases j' with
    | object members' => simp [same, sameMembers_iff members members']
    | _ => simp [same]

theorem sameItems_iff : (items items' : List Json) → (sameItems items items' = true ↔ items = items')
  | [], items' => by cases items' <;> simp [sameItems]
  | j :: rest, items' => by
    cases items' with
    | nil => simp [sameItems]
    | cons j' rest' => simp [sameItems, same_iff j j', sameItems_iff rest rest']

theorem sameMembers_iff : (members members' : List (String × Json)) →
    (sameMembers members members' = true ↔ members = members')
  | [], members' => by cases members' <;> simp [sameMembers]
  | (name, j) :: rest, members' => by
    cases members' with
    | nil => simp [sameMembers]
    | cons member rest' =>
      obtain ⟨name', j'⟩ := member
      simp [sameMembers, same_iff j j', sameMembers_iff rest rest', and_assoc]

end

instance : DecidableEq Json := fun j j' => decidable_of_iff _ (same_iff j j')

end TapeReader.Json

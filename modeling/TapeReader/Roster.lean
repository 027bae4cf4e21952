/-!
# Rosters

Entries under unique names, in the order in which they were registered.

* `register`, `unregister`: fail on a name that is taken, or that is not there.
* `mapEntries`, `walk`: every entry changed in place.
* `describe`: the names in words.
-/

namespace TapeReader

/-- Why a roster was not changed. -/
inductive NameFault where
  | taken (name : String)
  | unknown (name : String)
deriving DecidableEq, Repr

structure Roster (α : Type) where
  entries : List (String × α) := []
  nodup : (entries.map (·.1)).Nodup := by exact List.nodup_nil

namespace Roster

variable {α : Type}

instance : Inhabited (Roster α) := ⟨{}⟩

def names (r : Roster α) : List String := r.entries.map (·.1)

def values (r : Roster α) : List α := r.entries.map (·.2)

def size (r : Roster α) : Nat := r.entries.length

def isEmpty (r : Roster α) : Bool := r.entries.isEmpty

/-- Whether a name is taken. -/
def contains (r : Roster α) (name : String) : Bool := r.names.contains name

/-- The entry under a name. -/
def find? (r : Roster α) (name : String) : Option α := r.entries.lookup name

/-- The roster with an entry added at the end, under a name that is not taken. -/
def register (r : Roster α) (name : String) (a : α) : Except NameFault (Roster α) :=
  if h : name ∈ r.names then .error (.taken name)
  else
    .ok {
      entries := r.entries ++ [(name, a)]
      nodup := by
        rw [List.map_append, List.nodup_append]
        refine ⟨r.nodup, by simp, ?_⟩
        simp only [List.map_cons, List.map_nil, List.mem_singleton, forall_eq]
        exact fun x hx hxn => h (hxn ▸ hx) }

/-- The roster without the entry of a name, and that entry. -/
def unregister (r : Roster α) (name : String) : Except NameFault (α × Roster α) :=
  match r.find? name with
  | none => .error (.unknown name)
  | some a =>
    .ok (a, {
      entries := r.entries.filter (·.1 != name)
      nodup := (List.filter_sublist.map _).nodup r.nodup })

/-- The roster with every entry changed. -/
def mapEntries (f : α → α) (r : Roster α) : Roster α where
  entries := r.entries.map fun (name, a) => (name, f a)
  nodup := by
    have h : (r.entries.map fun (name, a) => (name, f a)).map (·.1) = r.entries.map (·.1) := by
      simp [Function.comp_def]
    exact h ▸ r.nodup

/-- A walk over entries, in order, that changes each of them and carries a state along. -/
def walkEntries {σ : Type} (f : String → α → σ → α × σ) :
    List (String × α) → σ → List (String × α) × σ
  | [], s => ([], s)
  | (name, a) :: rest, s =>
    let (a, s) := f name a s
    let (rest, s) := walkEntries f rest s
    ((name, a) :: rest, s)

theorem walkEntries_names {σ : Type} (f : String → α → σ → α × σ) (entries : List (String × α))
    (s : σ) : (walkEntries f entries s).1.map (·.1) = entries.map (·.1) := by
  induction entries generalizing s with
  | nil => rfl
  | cons entry rest ih => simp [walkEntries, ih]

/-- The roster after such a walk, and the state at its end. -/
def walk {σ : Type} (f : String → α → σ → α × σ) (r : Roster α) (s : σ) : Roster α × σ :=
  ({ entries := (walkEntries f r.entries s).1
     nodup := by rw [walkEntries_names]; exact r.nodup },
    (walkEntries f r.entries s).2)

/-- A character of a quoted name. -/
def escaped (c : Char) : List Char :=
  match c with
  | '"' => ['\\', '"']
  | '\\' => ['\\', '\\']
  | '\n' => ['\\', 'n']
  | '\r' => ['\\', 'r']
  | '\t' => ['\\', 't']
  | '\x00' => ['\\', '0']
  | c =>
    if c < ' ' ∨ ('\x7f' ≤ c ∧ c < '\xa0') then
      ['\\', 'u', '\x7b'] ++ Nat.toDigits 16 c.toNat ++ ['\x7d']
    else [c]

/-- The names, quoted, in brackets. -/
def describe (r : Roster α) : String :=
  let quoted := r.names.map fun name =>
    String.ofList ('"' :: name.toList.flatMap escaped ++ ['"'])
  "[" ++ String.intercalate ", " quoted ++ "]"

end Roster

end TapeReader

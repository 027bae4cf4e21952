import TapeReader.Json.Parser
import TapeReader.Proofs.Json.Numeral

/-!
# The steps of the parser

* `skipBlank_cons`, `skipBlank_blanks`, `value?_blanks`: blanks in front do not count.
* `ValueStep`, `ItemsStep`, `MembersStep`: **all that one step of the parser can read**, its parts read
  within a lower bound; `value?_succ_iff`, `items?_succ_iff`, `members?_succ_iff`.
-/

namespace TapeReader.Json

open Text

variable {c : Char} {s front rest gap : List Char} {n : ℕ} {j : Json}

/-! ## Blanks -/

theorem skipBlank_cons (h : isBlank c = false) (s : List Char) : skipBlank (c :: s) = c :: s := by
  rw [skipBlank, List.dropWhile_cons, h]
  rfl

theorem skipBlank_blanks (h : ∀ c ∈ gap, isBlank c = true) (s : List Char) :
    skipBlank (gap ++ s) = skipBlank s :=
  List.dropWhile_append_of_pos h

theorem skipBlank_skipBlank (s : List Char) : skipBlank (skipBlank s) = skipBlank s :=
  List.dropWhile_idempotent _ s

/-- **Blanks in front of a value** do not count. -/
theorem value?_skipBlank (n : ℕ) (s : List Char) : value? n (skipBlank s) = value? n s := by
  cases n with
  | zero => rfl
  | succ n => rw [value?, value?, skipBlank_skipBlank]

theorem value?_blanks (h : ∀ c ∈ gap, isBlank c = true) (n : ℕ) (s : List Char) :
    value? n (gap ++ s) = value? n s := by
  rw [← value?_skipBlank, skipBlank_blanks h, value?_skipBlank]

theorem items?_skipBlank (n : ℕ) (s : List Char) : items? n (skipBlank s) = items? n s := by
  cases n with
  | zero => rfl
  | succ n => rw [items?, items?, value?_skipBlank]

theorem members?_skipBlank (n : ℕ) (s : List Char) : members? n (skipBlank s) = members? n s := by
  cases n with
  | zero => rfl
  | succ n => rw [members?, members?, skipBlank_skipBlank]

/-! ## Items and members -/

/-- What one step can read as items. -/
inductive ItemsStep (n : ℕ) (s : List Char) : List Json → List Char → Prop
  | last {j : Json} {r rest : List Char} (hj : value? n s = some (j, r))
    (hr : skipBlank r = ']' :: rest) : ItemsStep n s [j] rest
  | more {j : Json} {items : List Json} {r r' rest : List Char} (hj : value? n s = some (j, r))
    (hr : skipBlank r = ',' :: r') (hitems : items? n r' = some (items, rest)) :
    ItemsStep n s (j :: items) rest

theorem items?_succ_iff {items : List Json} :
    items? (n + 1) s = some (items, rest) ↔ ItemsStep n s items rest := by
  rw [items?]
  constructor
  · intro h
    obtain ⟨⟨j, r⟩, hj, h⟩ := Option.bind_eq_some_iff.1 h
    simp only at h
    split at h
    · rename_i hr
      obtain ⟨⟨items, r'⟩, hitems, h⟩ := Option.bind_eq_some_iff.1 h
      cases h
      exact .more hj hr hitems
    · rename_i hr
      cases h
      exact .last hj hr
    · cases h
  · rintro (⟨hj, hr⟩ | ⟨hj, hr, hitems⟩)
    · simp only [hj, hr, Option.bind_eq_bind, Option.bind_some]
    · simp only [hj, hr, hitems, Option.bind_eq_bind, Option.bind_some]

/-- What one step can read as members, behind blanks. -/
inductive MembersStep (n : ℕ) : List Char → List (Option String × Json) → List Char → Prop
  | last {name : Option String} {j : Json} {s s₁ s₂ r rest : List Char}
    (hname : stringBody? s = some (name, s₁)) (hcolon : skipBlank s₁ = ':' :: s₂)
    (hj : value? n s₂ = some (j, r)) (hr : skipBlank r = '}' :: rest) :
    MembersStep n ('"' :: s) [(name, j)] rest
  | more {name : Option String} {j : Json} {members : List (Option String × Json)}
    {s s₁ s₂ r r' rest : List Char} (hname : stringBody? s = some (name, s₁))
    (hcolon : skipBlank s₁ = ':' :: s₂) (hj : value? n s₂ = some (j, r))
    (hr : skipBlank r = ',' :: r') (hmembers : members? n r' = some (members, rest)) :
    MembersStep n ('"' :: s) ((name, j) :: members) rest

theorem members?_succ_iff {members : List (Option String × Json)} :
    members? (n + 1) s = some (members, rest) ↔ MembersStep n (skipBlank s) members rest := by
  rw [members?]
  generalize skipBlank s = front
  constructor
  · intro h
    split at h
    · obtain ⟨⟨name, s₁⟩, hname, h⟩ := Option.bind_eq_some_iff.1 h
      simp only at h
      split at h
      · rename_i hcolon
        obtain ⟨⟨j, r⟩, hj, h⟩ := Option.bind_eq_some_iff.1 h
        simp only at h
        split at h
        · rename_i hr
          obtain ⟨⟨members, r'⟩, hmembers, h⟩ := Option.bind_eq_some_iff.1 h
          cases h
          exact .more hname hcolon hj hr hmembers
        · rename_i hr
          cases h
          exact .last hname hcolon hj hr
        · cases h
      · cases h
    · cases h
  · rintro (⟨hname, hcolon, hj, hr⟩ | ⟨hname, hcolon, hj, hr, hmembers⟩)
    · simp only [hname, hcolon, hj, hr, Option.bind_eq_bind, Option.bind_some]
    · simp only [hname, hcolon, hj, hr, hmembers, Option.bind_eq_bind, Option.bind_some]

/-! ## Values -/

/-- What one step can read as a value, behind blanks. -/
inductive ValueStep (n : ℕ) : List Char → Json → List Char → Prop
  | emptyObject {s rest : List Char} (hs : skipBlank s = '}' :: rest) :
    ValueStep n ('{' :: s) (.object []) rest
  | object {s rest : List Char} {members : List (Option String × Json)}
    (hmembers : members? n s = some (members, rest)) : ValueStep n ('{' :: s) (ofMembers members) rest
  | emptyArray {s rest : List Char} (hs : skipBlank s = ']' :: rest) :
    ValueStep n ('[' :: s) (.array []) rest
  | array {s rest : List Char} {items : List Json} (hitems : items? n s = some (items, rest)) :
    ValueStep n ('[' :: s) (.array items) rest
  | string {s rest : List Char} {o : Option String} (hs : stringBody? s = some (o, rest)) :
    ValueStep n ('"' :: s) (o.elim .unreadable .string) rest
  | null {rest : List Char} : ValueStep n ('n' :: 'u' :: 'l' :: 'l' :: rest) .null rest
  | true {rest : List Char} : ValueStep n ('t' :: 'r' :: 'u' :: 'e' :: rest) (.bool Bool.true) rest
  | false {rest : List Char} :
    ValueStep n ('f' :: 'a' :: 'l' :: 's' :: 'e' :: rest) (.bool Bool.false) rest
  | number {s rest : List Char} {m : Numeral} (hs : Numeral.read? s = some (m, rest)) :
    ValueStep n s (m.number?.elim .unreadable .number) rest

/-- **A number starts with a minus or a digit.** -/
theorem Numeral.head_of_read? {m : Numeral} (h : Numeral.read? s = some (m, rest)) :
    ∃ c cs, s = c :: cs ∧ (c = '-' ∨ (digit? c).isSome = true) := by
  cases s with
  | nil => cases h
  | cons c cs =>
    refine ⟨c, cs, rfl, or_iff_not_imp_left.2 fun hminus => ?_⟩
    have hhead : (c :: cs).head? ≠ some '-' := by simpa using hminus
    rw [read?_unsigned hhead] at h
    obtain ⟨⟨ds, r⟩, hwhole, -⟩ := Option.bind_eq_some_iff.1 h
    obtain ⟨htake, hne, -⟩ := whole?_eq_some_iff.1 hwhole
    rw [takeDigits] at htake
    cases hc : digit? c with
    | some d => rfl
    | none =>
      rw [hc] at htake
      exact absurd (congrArg Prod.fst htake).symm hne

/-- **Every value is read by a step.** The two ways are proved apart: nothing that starts with a closing
bracket is a value, and that is what tells an array with items from one without. -/
theorem valueStep_of_value? (h : value? (n + 1) s = some (j, rest)) : ValueStep n (skipBlank s) j rest := by
  rw [value?] at h
  generalize skipBlank s = front at h
  split at h
  · split at h
    · rename_i hs
      cases h
      exact .emptyObject hs
    · obtain ⟨⟨members, r⟩, hmembers, h⟩ := Option.bind_eq_some_iff.1 h
      cases h
      rw [members?_skipBlank] at hmembers
      exact .object hmembers
  · split at h
    · rename_i hs
      cases h
      exact .emptyArray hs
    · obtain ⟨⟨items, r⟩, hitems, h⟩ := Option.bind_eq_some_iff.1 h
      cases h
      rw [items?_skipBlank] at hitems
      exact .array hitems
  · obtain ⟨⟨o, r⟩, hr, h⟩ := Option.bind_eq_some_iff.1 h
    cases h
    exact .string hr
  · cases h
    exact .null
  · cases h
    exact .true
  · cases h
    exact .false
  · obtain ⟨⟨m, r⟩, hm, h⟩ := Option.bind_eq_some_iff.1 h
    cases h
    exact .number hm

theorem ValueStep.head_ne {bracket : Char} (hbracket : bracket = ']' ∨ bracket = '}')
    (h : ValueStep n front j rest) : front.head? ≠ some bracket := by
  cases h with
  | number hs =>
    obtain ⟨c, cs, rfl, hc⟩ := Numeral.head_of_read? hs
    rintro ⟨⟩
    rcases hbracket with rfl | rfl <;> simp [digit?] at hc
  | _ => rcases hbracket with rfl | rfl <;> simp

/-- Items do not start with the closing bracket. -/
theorem not_bracket {items : List Json} (h : items? n s = some (items, rest)) (r : List Char) :
    skipBlank s ≠ ']' :: r := by
  have hvalue : ∀ {n j r'}, value? n s = some (j, r') → skipBlank s ≠ ']' :: r := by
    rintro (_ | n) j r' hj hbracket
    · cases hj
    · exact (valueStep_of_value? hj).head_ne (.inl rfl) (by rw [hbracket]; rfl)
  cases n with
  | zero => cases h
  | succ n =>
    rcases items?_succ_iff.1 h with ⟨hj, -⟩ | ⟨hj, -, -⟩
    · exact hvalue hj
    · exact hvalue hj

/-- Members do not start with the closing brace. -/
theorem not_brace {members : List (Option String × Json)} (h : members? n s = some (members, rest))
    (r : List Char) : skipBlank s ≠ '}' :: r := by
  cases n with
  | zero => cases h
  | succ n =>
    have hstep := members?_succ_iff.1 h
    rintro hbrace
    rw [hbrace] at hstep
    cases hstep

/-- **Every step reads a value.** -/
theorem value?_of_step (h : ValueStep n (skipBlank s) j rest) : value? (n + 1) s = some (j, rest) := by
  rw [value?]
  generalize skipBlank s = front at h
  cases h with
  | emptyObject hs => simp only [hs]
  | @object s _ members hmembers =>
    have hnonempty := not_brace hmembers
    rw [← members?_skipBlank] at hmembers
    simp only [hmembers, Option.bind_eq_bind, Option.bind_some]
  | emptyArray hs => simp only [hs]
  | @array s _ items hitems =>
    have hnonempty := not_bracket hitems
    rw [← items?_skipBlank] at hitems
    simp only [hitems, Option.bind_eq_bind, Option.bind_some]
  | string hs => simp only [hs, Option.bind_eq_bind, Option.bind_some]
  | null => rfl
  | true => rfl
  | false => rfl
  | number hs =>
    obtain ⟨c, cs, rfl, hc⟩ := Numeral.head_of_read? hs
    have hne : ∀ {e : Char}, e ≠ '-' → digit? e = none → c ≠ e := by
      rintro e hminus hdigit rfl
      simp [hminus, hdigit] at hc
    -- a minus or a digit is none of the characters that start another value
    split
    case h_7 => simp only [hs, Option.bind_eq_bind, Option.bind_some]
    all_goals
      rename_i heq
      exact absurd (List.cons.inj heq).1 (hne (by decide) rfl)

theorem value?_succ_iff : value? (n + 1) s = some (j, rest) ↔ ValueStep n (skipBlank s) j rest :=
  ⟨valueStep_of_value?, value?_of_step⟩

end TapeReader.Json

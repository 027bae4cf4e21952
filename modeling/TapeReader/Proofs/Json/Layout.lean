import TapeReader.Proofs.Json.Quoted
import TapeReader.Proofs.Json.Step

/-!
# What is written is read

* `Plain`: values of strings, of yes and no, and of integers of 64 bits.
* `Layout`, `Layout.chars`: a value set out with blanks in front of its items. The text on one line and the
  text over several lines are two layouts (`line_chars`, `lines_chars`).
* `value?_chars`: **a plain value is read back from its text**, in every layout and whatever text comes
  behind it.
* `parse?_written`: so it is as a whole text.
-/

namespace TapeReader.Json

open Text

variable {c : Char} {s rest tail gap : List Char} {n : ℕ}

/-! ## Plain values -/

mutual

/-- **Plain values**: those of strings, of yes and no, and of integers of 64 bits. -/
def Plain : Json → Prop
  | .null | .bool _ | .string _ => True
  | .number (.int i) => Numeral.Fits i
  | .number (.float _ _) | .unreadable => False
  | .array items => PlainItems items
  | .object members => PlainMembers members

def PlainItems : List Json → Prop
  | [] => True
  | j :: rest => Plain j ∧ PlainItems rest

def PlainMembers : List (String × Json) → Prop
  | [] => True
  | (_, j) :: rest => Plain j ∧ PlainMembers rest

end

/-! ## Layouts -/

/-- How a value is set out: the blanks in front of an item at a level, and those behind a colon. -/
structure Layout where
  gap : ℕ → List Char
  space : List Char
  gap_blank : ∀ level, ∀ c ∈ gap level, isBlank c = true
  space_blank : ∀ c ∈ space, isBlank c = true

namespace Layout

/-- Everything on one line. -/
def line : Layout := ⟨fun _ => [], [], by simp, by simp⟩

/-- Every item on a line of its own. -/
def lines : Layout where
  gap := newline
  space := [' ']
  gap_blank level c hc := by
    rcases List.mem_cons.1 hc with rfl | hc
    · rfl
    · rw [List.eq_of_mem_replicate hc]
      rfl
  space_blank c hc := by
    rw [List.mem_singleton.1 hc]
    rfl

mutual

/-- A value set out at a level. -/
def chars (l : Layout) (level : ℕ) : Json → List Char
  | .null | .unreadable => "null".toList
  | .bool b => if b then "true".toList else "false".toList
  | .number n => numberText n
  | .string s => quote s
  | .array [] => ['[', ']']
  | .array (j :: rest) => '[' :: itemsChars l level (j :: rest)
  | .object [] => ['{', '}']
  | .object (m :: rest) => '{' :: membersChars l level (m :: rest)

/-- Items inside a level, and the closing bracket. -/
def itemsChars (l : Layout) (level : ℕ) : List Json → List Char
  | [] => l.gap level ++ [']']
  | [j] => l.gap (level + 1) ++ chars l (level + 1) j ++ l.gap level ++ [']']
  | j :: k :: rest =>
    l.gap (level + 1) ++ chars l (level + 1) j ++ ',' :: itemsChars l level (k :: rest)

/-- Members inside a level, and the closing brace. -/
def membersChars (l : Layout) (level : ℕ) : List (String × Json) → List Char
  | [] => l.gap level ++ ['}']
  | [(name, j)] =>
    l.gap (level + 1) ++ quote name ++ ':' :: l.space ++ chars l (level + 1) j ++ l.gap level ++ ['}']
  | (name, j) :: m :: rest =>
    l.gap (level + 1) ++ quote name ++ ':' :: l.space ++ chars l (level + 1) j
      ++ ',' :: membersChars l level (m :: rest)

end

mutual

/-- **The text over several lines is a layout.** -/
theorem lines_chars (level : ℕ) : (j : Json) → lines.chars level j = prettyChars level j
  | .null | .unreadable | .number _ | .string _ => rfl
  | .bool b => by cases b <;> rfl
  | .array [] | .object [] => rfl
  | .array (j :: rest) => by rw [chars, prettyChars, lines_itemsChars]
  | .object (m :: rest) => by rw [chars, prettyChars, lines_membersChars]

theorem lines_itemsChars (level : ℕ) :
    (items : List Json) → lines.itemsChars level items = prettyItems level items
  | [] => rfl
  | [j] => by rw [itemsChars, prettyItems, lines_chars]; rfl
  | j :: k :: rest => by rw [itemsChars, prettyItems, lines_chars, lines_itemsChars]; rfl

theorem lines_membersChars (level : ℕ) :
    (members : List (String × Json)) → lines.membersChars level members = prettyMembers level members
  | [] => rfl
  | [(name, j)] => by
    rw [membersChars, prettyMembers, lines_chars]
    simp [lines]
  | (name, j) :: m :: rest => by
    rw [membersChars, prettyMembers, lines_chars, lines_membersChars]
    simp [lines]

end

mutual

/-- **The text on one line is a layout.** -/
theorem line_chars (level : ℕ) : (j : Json) → line.chars level j = compressChars j
  | .null | .unreadable | .number _ | .string _ => rfl
  | .bool b => by cases b <;> rfl
  | .array [] | .object [] => rfl
  | .array (j :: rest) => by rw [chars, compressChars, line_itemsChars]
  | .object (m :: rest) => by rw [chars, compressChars, line_membersChars]

theorem line_itemsChars (level : ℕ) :
    (items : List Json) → line.itemsChars level items = compressItems items
  | [] => rfl
  | [j] => by
    rw [itemsChars, compressItems, line_chars]
    simp [line]
  | j :: k :: rest => by
    rw [itemsChars, compressItems, line_chars, line_itemsChars]
    simp [line]

theorem line_membersChars (level : ℕ) :
    (members : List (String × Json)) → line.membersChars level members = compressMembers members
  | [] => rfl
  | [(name, j)] => by
    rw [membersChars, compressMembers, line_chars]
    simp [line]
  | (name, j) :: m :: rest => by
    rw [membersChars, compressMembers, line_chars, line_membersChars]
    simp [line]

end

end Layout

/-! ## Reading a layout -/

theorem ends_blanks (h : ∀ c ∈ gap, isBlank c = true) (hs : Numeral.Ends s) : Numeral.Ends (gap ++ s) := by
  cases gap with
  | nil => exact hs
  | cons c gap =>
    refine Numeral.ends_cons ?_
    have hc : isBlank c = true := h c List.mem_cons_self
    simp only [isBlank, Bool.or_eq_true, decide_eq_true_eq] at hc
    rcases hc with ((rfl | rfl) | rfl) | rfl <;> decide

/-- The first character of an integer is a minus or a digit. -/
theorem head_ofInt (i : ℤ) : ∃ c cs, ofInt i = c :: cs ∧ (c = '-' ∨ (digit? c).isSome = true) := by
  rw [ofInt, ofNat_eq]
  split_ifs
  · exact ⟨_, _, rfl, .inl rfl⟩
  · obtain ⟨d, ds, hcons⟩ := List.exists_cons_of_ne_nil (digits_ne_nil i.natAbs)
    have hd : d < 10 := digits_lt i.natAbs d (by simp [hcons])
    exact ⟨d.digitChar, ds.map Nat.digitChar, by rw [hcons, List.map_cons], .inr (by
      rw [digit?_digitChar hd]; rfl)⟩

theorem not_blank_of_numeral (hc : c = '-' ∨ (digit? c).isSome = true) : isBlank c = false := by
  rcases hc with rfl | hc
  · rfl
  · by_contra hblank
    simp only [isBlank, Bool.or_eq_true, decide_eq_true_eq, Bool.not_eq_false] at hblank
    rcases hblank with ((rfl | rfl) | rfl) | rfl <;> cases hc

/-- **An integer of 64 bits is read back.** -/
theorem value?_ofInt {i : ℤ} (hi : Numeral.Fits i) (h : Numeral.Ends tail) :
    value? (n + 1) (ofInt i ++ tail) = some (.number (.int i), tail) := by
  obtain ⟨c, cs, hcons, hc⟩ := head_ofInt i
  have hskip : skipBlank (ofInt i ++ tail) = c :: (cs ++ tail) := by
    rw [hcons, List.cons_append, skipBlank_cons (not_blank_of_numeral hc)]
  have hstep : ValueStep n (ofInt i ++ tail) ((Numeral.ofInteger i).number?.elim .unreadable .number) tail :=
    .number (Numeral.read?_ofInt i h)
  rw [Numeral.number?_ofInteger hi] at hstep
  rw [value?_succ_iff, hskip, ← List.cons_append, ← hcons]
  exact hstep

/-- Behind blanks a quoted string starts with its quote. -/
theorem skipBlank_quote (gap : List Char) (h : ∀ c ∈ gap, isBlank c = true) (s : String)
    (tail : List Char) :
    skipBlank (gap ++ (quote s ++ tail)) = '"' :: (s.toList.flatMap escapeChar ++ '"' :: tail) := by
  rw [skipBlank_blanks h, quote, List.append_assoc, List.cons_append, skipBlank_cons rfl]
  rfl

/-- **A string is read back.** -/
theorem value?_quoted (s : String) : value? (n + 1) (quote s ++ tail) = some (.string s, tail) := by
  have hskip := skipBlank_quote [] (by simp) s tail
  rw [List.nil_append] at hskip
  rw [value?_succ_iff, hskip]
  exact .string (stringBody?_quote s tail)

theorem ofMembers_some (members : List (String × Json)) :
    ofMembers (members.map fun m => (some m.1, m.2)) = .object members := by
  have hall : (members.map fun m => (some m.1, m.2)).mapM
      (fun p : Option String × Json => p.1.map (·, p.2)) = some members := by
    induction members with
    | nil => rfl
    | cons m rest ih => simp [ih]
  rw [ofMembers, hall]

namespace Layout

mutual

/-- **A plain value is read back from its text**, in every layout and whatever text comes behind it that
does not go on with a number. The bound on nesting and length is met by twice the length of the text. -/
theorem value?_chars (l : Layout) (level : ℕ) : (j : Json) → Plain j → (tail : List Char) →
    Numeral.Ends tail → (n : ℕ) → 2 * (l.chars level j).length ≤ n →
      value? n (l.chars level j ++ tail) = some (j, tail)
  | .null, _, tail, _, n + 1, _ => rfl
  | .bool true, _, tail, _, n + 1, _ => rfl
  | .bool false, _, tail, _, n + 1, _ => rfl
  | .number (.int i), hi, tail, htail, n, hn => by
    obtain ⟨c, cs, hcons, -⟩ := head_ofInt i
    have hpos : 0 < (ofInt i).length := by simp [hcons]
    obtain ⟨n, rfl⟩ : ∃ m, n = m + 1 := ⟨n - 1, by
      have hlength : (l.chars level (.number (.int i))).length = (ofInt i).length := rfl
      omega⟩
    exact value?_ofInt hi htail
  | .string s, _, tail, _, n + 1, _ => value?_quoted s
  | .array [], _, tail, _, n + 1, _ => rfl
  | .object [], _, tail, _, n + 1, _ => rfl
  | .array (j :: rest), hplain, tail, _, n + 1, hn => by
    have hitems := items?_chars l level (j :: rest) (List.cons_ne_nil j rest) hplain tail n (by
      rw [chars, List.length_cons] at hn
      omega)
    rw [chars, List.cons_append, value?_succ_iff, skipBlank_cons rfl]
    exact .array hitems
  | .object (m :: rest), hplain, tail, _, n + 1, hn => by
    have hmembers := members?_chars l level (m :: rest) (List.cons_ne_nil m rest) hplain tail n (by
      rw [chars, List.length_cons] at hn
      omega)
    rw [chars, List.cons_append, value?_succ_iff, skipBlank_cons rfl, ← ofMembers_some]
    exact .object hmembers

theorem items?_chars (l : Layout) (level : ℕ) : (items : List Json) → items ≠ [] → PlainItems items →
    (tail : List Char) → (n : ℕ) → 2 * (l.itemsChars level items).length + 1 ≤ n →
      items? n (l.itemsChars level items ++ tail) = some (items, tail)
  | [j], _, hplain, tail, n + 1, hn => by
    have hend : skipBlank (l.gap level ++ ']' :: tail) = ']' :: tail := by
      rw [skipBlank_blanks (l.gap_blank level), skipBlank_cons rfl]
    -- behind a last item stand blanks and the bracket, which do not go on with a number
    have hj := value?_chars l (level + 1) j hplain.1 (l.gap level ++ ']' :: tail)
      (ends_blanks (l.gap_blank level) (Numeral.ends_cons (by decide))) n (by
        simp only [itemsChars, List.length_append] at hn
        omega)
    rw [← value?_blanks (l.gap_blank (level + 1))] at hj
    simp only [itemsChars, List.append_assoc, List.singleton_append]
    exact items?_succ_iff.2 (.last hj hend)
  | j :: k :: rest, _, hplain, tail, n + 1, hn => by
    have hrest := items?_chars l level (k :: rest) (List.cons_ne_nil k rest) hplain.2 tail n (by
      simp only [itemsChars, List.length_append, List.length_cons] at hn ⊢
      omega)
    have hj := value?_chars l (level + 1) j hplain.1 (',' :: (l.itemsChars level (k :: rest) ++ tail))
      (Numeral.ends_cons (by decide)) n (by
        simp only [itemsChars, List.length_append] at hn
        omega)
    rw [← value?_blanks (l.gap_blank (level + 1))] at hj
    simp only [itemsChars, List.append_assoc, List.cons_append]
    exact items?_succ_iff.2 (.more hj (skipBlank_cons rfl _) hrest)

theorem members?_chars (l : Layout) (level : ℕ) : (members : List (String × Json)) → members ≠ [] →
    PlainMembers members → (tail : List Char) → (n : ℕ) →
      2 * (l.membersChars level members).length + 1 ≤ n →
        members? n (l.membersChars level members ++ tail) =
          some (members.map fun m => (some m.1, m.2), tail)
  | [(name, j)], _, hplain, tail, n + 1, hn => by
    have hend : skipBlank (l.gap level ++ '}' :: tail) = '}' :: tail := by
      rw [skipBlank_blanks (l.gap_blank level), skipBlank_cons rfl]
    have hj := value?_chars l (level + 1) j hplain.1 (l.gap level ++ '}' :: tail)
      (ends_blanks (l.gap_blank level) (Numeral.ends_cons (by decide))) n (by
        simp only [membersChars, List.length_append, List.length_cons] at hn
        omega)
    rw [← value?_blanks l.space_blank] at hj
    simp only [membersChars, List.append_assoc, List.cons_append, List.nil_append]
    rw [members?_succ_iff, skipBlank_quote _ (l.gap_blank (level + 1))]
    exact .last (stringBody?_quote name _) (skipBlank_cons rfl _) hj hend
  | (name, j) :: m :: rest, _, hplain, tail, n + 1, hn => by
    have hrest := members?_chars l level (m :: rest) (List.cons_ne_nil m rest) hplain.2 tail n (by
      simp only [membersChars, List.length_append, List.length_cons] at hn ⊢
      omega)
    have hj := value?_chars l (level + 1) j hplain.1 (',' :: (l.membersChars level (m :: rest) ++ tail))
      (Numeral.ends_cons (by decide)) n (by
        simp only [membersChars, List.length_append, List.length_cons] at hn
        omega)
    rw [← value?_blanks l.space_blank] at hj
    simp only [membersChars, List.append_assoc, List.cons_append]
    rw [members?_succ_iff, skipBlank_quote _ (l.gap_blank (level + 1))]
    exact .more (stringBody?_quote name _) (skipBlank_cons rfl _) hj (skipBlank_cons rfl _) hrest

end

/-- A plain value set out with blanks in front and behind is the value of the whole text. -/
theorem parse?_chars (l : Layout) {j : Json} (hj : Plain j) (gap : List Char)
    (h : ∀ c ∈ gap, isBlank c = true) : parse? (String.ofList (l.chars 0 j ++ gap)) = some j := by
  have hgap : skipBlank gap = [] := List.dropWhile_eq_nil_iff.2 h
  have hread := l.value?_chars 0 j hj gap (by
    rw [← List.append_nil gap]
    exact ends_blanks h Numeral.ends_nil) (2 * (l.chars 0 j ++ gap).length + 2) (by
      rw [List.length_append]
      omega)
  simp only [parse?, String.toList_ofList, hread, hgap, Option.bind_eq_bind, Option.bind_some,
    List.isEmpty_nil, if_true]

end Layout

/-- **The text on one line is read back.** -/
theorem parse?_compress {j : Json} (hj : Plain j) : parse? j.compress = some j := by
  have hread := Layout.line.parse?_chars hj [] (by simp)
  rwa [Layout.line_chars, List.append_nil] at hread

/-- **The text over several lines is read back**, with a line break behind it too. -/
theorem parse?_pretty {j : Json} (hj : Plain j) : parse? j.pretty = some j := by
  have hread := Layout.lines.parse?_chars hj [] (by simp)
  rwa [Layout.lines_chars, List.append_nil] at hread

theorem parse?_written {j : Json} {text : String} (hj : Plain j) (h : text ∈ [j.compress, j.pretty]) :
    parse? text = some j := by
  simp only [List.mem_cons, List.not_mem_nil, or_false] at h
  rcases h with rfl | rfl
  · exact parse?_compress hj
  · exact parse?_pretty hj

theorem parse?_pretty_line {j : Json} (hj : Plain j) : parse? (j.pretty ++ "\n") = some j := by
  have hread := Layout.lines.parse?_chars hj ['\n'] (by simp [isBlank])
  rwa [Layout.lines_chars, String.ofList_append] at hread

end TapeReader.Json

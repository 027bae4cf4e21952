import Mathlib
import TapeReader.Json.Parser
import TapeReader.Json.Printer

/-!
# Strings in JSON text

* `pieceOf`: what a character is read as when it has been written.
* `pieces?_escaped`, `join?_pieces`: **every way of escaping a character is undone**, and no two
  characters come together as one.
* `stringBody?_quote`: so a string is read back from its quotes.
* `not_control_quote`: **no control character stands in a text as it is.**
-/

namespace TapeReader.Json

variable {c : Char} {cs rest : List Char} {s : String}

/-- The control characters that have a short escape. -/
def shortEscaped : List Char := ['\x08', '\t', '\n', '\x0c', '\r']

/-- What a character is read as when it has been written: a control character without a short escape
comes back as its number. -/
def pieceOf (c : Char) : Piece :=
  if c < ' ' ∧ c ∉ shortEscaped then .unit c.toNat else .char c

/-! ## Escapes -/

theorem toNat_lt_of_control (h : c < ' ') : c.toNat < 32 := h

/-- **The number of a control character** is read from its four digits. -/
theorem unit?_control (h : c < ' ') : unit? '0' '0' (Nat.digitChar (c.toNat / 16))
    (Nat.digitChar (c.toNat % 16)) = some c.toNat := by
  have hall : ∀ n < 32, unit? '0' '0' (Nat.digitChar (n / 16)) (Nat.digitChar (n % 16)) = some n := by
    decide
  exact hall c.toNat (toNat_lt_of_control h)

/-- A character that needs no escape stands for itself. -/
theorem pieces?_plain (hquote : c ≠ '"') (hslash : c ≠ '\\') (hcontrol : ¬ c < ' ') (rest : List Char) :
    pieces? (c :: rest) = (pieces? rest).map fun p => (.char c :: p.1, p.2) := by
  rw [pieces?.eq_def]
  split
  · rename_i heq
    cases heq
  · rename_i heq
    exact absurd (List.cons.inj heq).1 hquote
  · rename_i heq
    exact absurd (List.cons.inj heq).1 hslash
  · rename_i heq
    exact absurd (List.cons.inj heq).1 hslash
  · rename_i heq
    obtain ⟨rfl, rfl⟩ := List.cons.inj heq
    rw [if_neg (by simp [hcontrol, hslash])]
    cases pieces? rest <;> rfl

/-- A short escape is read as its character. -/
theorem pieces?_short {e : Char} (hu : e ≠ 'u') (he : escape? e = some c) (rest : List Char) :
    pieces? ('\\' :: e :: rest) = (pieces? rest).map fun p => (.char c :: p.1, p.2) := by
  rw [pieces?, he]
  · cases pieces? rest <;> rfl
  · intro _ _ _ _ _ h
    exact absurd h hu

/-- A numbered escape is read as its number. -/
theorem pieces?_numbered (h : c < ' ') (rest : List Char) :
    pieces? ('\\' :: 'u' :: '0' :: '0' :: Nat.digitChar (c.toNat / 16) ::
      Nat.digitChar (c.toNat % 16) :: rest) =
        (pieces? rest).map fun p => (.unit c.toNat :: p.1, p.2) := by
  rw [pieces?, unit?_control h]
  cases pieces? rest <;> rfl

/-- **What is written for a character is read as its piece.** -/
theorem pieces?_escapeChar (c : Char) (rest : List Char) :
    pieces? (escapeChar c ++ rest) = (pieces? rest).map fun p => (pieceOf c :: p.1, p.2) := by
  unfold escapeChar
  split
  · exact pieces?_short (by decide) rfl rest
  · exact pieces?_short (by decide) rfl rest
  · exact pieces?_short (by decide) rfl rest
  · exact pieces?_short (by decide) rfl rest
  · exact pieces?_short (by decide) rfl rest
  · exact pieces?_short (by decide) rfl rest
  · exact pieces?_short (by decide) rfl rest
  · rename_i hquote hslash hb ht hn hf hr
    by_cases hcontrol : c < ' '
    · have hshort : c ∉ shortEscaped := by
        simp only [shortEscaped, List.mem_cons, List.not_mem_nil, or_false, not_or]
        exact ⟨hb, ht, hn, hf, hr⟩
      rw [if_pos hcontrol, pieceOf, if_pos ⟨hcontrol, hshort⟩]
      exact pieces?_numbered hcontrol rest
    · rw [if_neg hcontrol, pieceOf, if_neg fun h => hcontrol h.1]
      exact pieces?_plain hquote hslash hcontrol rest

/-! ## Strings -/

/-- **A string's characters are read as their pieces**, up to its closing quote. -/
theorem pieces?_escaped (cs rest : List Char) :
    pieces? (cs.flatMap escapeChar ++ '"' :: rest) = some (cs.map pieceOf, rest) := by
  induction cs with
  | nil => rw [List.flatMap_nil, List.nil_append, pieces?, List.map_nil]
  | cons c cs ih =>
    rw [List.flatMap_cons, List.append_assoc, pieces?_escapeChar, ih]
    rfl

/-- A number that is no half of a surrogate pair denotes its character, whatever comes next. -/
theorem join?_unit {u : ℕ} (hlead : isLead u = false) (htrail : isTrail u = false) (ps : List Piece) :
    join? (.unit u :: ps) = (join? ps).map (Char.ofNat u :: ·) := by
  cases ps with
  | nil => simp [join?, hlead, htrail]
  | cons p ps => cases p <;> simp [join?, hlead, htrail]

/-- **The pieces of characters denote the characters**: no number in them is half a surrogate pair. -/
theorem join?_pieces (cs : List Char) : join? (cs.map pieceOf) = some cs := by
  induction cs with
  | nil => rfl
  | cons c cs ih =>
    rw [List.map_cons]
    by_cases h : c < ' ' ∧ c ∉ shortEscaped
    · have hlt := toNat_lt_of_control h.1
      have hlead : isLead c.toNat = false := by simp [isLead]; omega
      have htrail : isTrail c.toNat = false := by simp [isTrail]; omega
      rw [pieceOf, if_pos h, join?_unit hlead htrail, ih, Option.map_some, Char.ofNat_toNat]
    · rw [pieceOf, if_neg h, join?, ih, Option.map_some]

/-- **A string is read back** from what stands between its quotes. -/
theorem stringBody?_quote (s : String) (rest : List Char) :
    stringBody? (s.toList.flatMap escapeChar ++ '"' :: rest) = some (some s, rest) := by
  rw [stringBody?, pieces?_escaped]
  simp [join?_pieces]

/-! ## What is not in a text -/

/-- What is written for a character has no control character. -/
theorem not_control_escapeChar (c : Char) : ∀ e ∈ escapeChar c, ¬ e < ' ' := by
  have hdigit : ∀ n < 16, ¬ Nat.digitChar n < ' ' := by decide
  unfold escapeChar
  split
  · simp
  · simp
  · simp
  · simp
  · simp
  · simp
  · simp
  · split_ifs with hcontrol
    · have hlt := toNat_lt_of_control hcontrol
      intro e he
      simp only [List.mem_cons, List.not_mem_nil, or_false] at he
      rcases he with rfl | rfl | rfl | rfl | rfl | rfl
      · decide
      · decide
      · decide
      · decide
      · exact hdigit _ (by omega)
      · exact hdigit _ (by omega)
    · simpa using hcontrol

/-- **No control character stands in a quoted string.** -/
theorem not_control_quote (s : String) : ∀ e ∈ quote s, ¬ e < ' ' := by
  intro e he
  simp only [quote, List.mem_append, List.mem_cons, List.mem_flatMap, List.not_mem_nil,
    or_false] at he
  rcases he with (rfl | ⟨c, -, he⟩) | rfl
  · decide
  · exact not_control_escapeChar c e he
  · decide

end TapeReader.Json

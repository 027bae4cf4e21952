import TapeReader.Proofs.Json.Layout

/-!
# Texts as the items of an array

* `local_all`: **what is read at the front of a text is read there whatever comes behind**, unless that
  goes on with a number.
* `arrayText`: texts put side by side in an array; `parse?_arrayText`: **each is read as it is by itself.**
-/

namespace TapeReader.Json

open Text

variable {c : Char} {s rest tail : List Char} {n k : ℕ} {j : Json}

/-! ## Fronts of texts -/

theorem skipBlank_append_of_ne (h : skipBlank s ≠ []) (tail : List Char) :
    skipBlank (s ++ tail) = skipBlank s ++ tail := by
  unfold skipBlank at h ⊢
  rw [List.dropWhile_append, if_neg (by simpa using h)]

theorem skipBlank_append (h : skipBlank s = c :: rest) (tail : List Char) :
    skipBlank (s ++ tail) = c :: (rest ++ tail) := by
  rw [skipBlank_append_of_ne (by simp [h]), h, List.cons_append]

/-- Pieces end at their closing quote, whatever comes behind it. -/
theorem pieces?_append {ps : List Piece} (h : pieces? s = some (ps, rest)) (tail : List Char) :
    pieces? (s ++ tail) = some (ps, rest ++ tail) := by
  induction s using pieces?.induct generalizing ps with
  | case1 => cases h
  | case2 s =>
    cases h
    rfl
  | case3 a b c d s ih =>
    rw [pieces?] at h
    obtain ⟨u, hu, h⟩ := Option.bind_eq_some_iff.1 h
    obtain ⟨⟨ps, r⟩, hps, h⟩ := Option.bind_eq_some_iff.1 h
    cases h
    simp only [List.cons_append, pieces?, hu, ih hps, Option.bind_eq_bind, Option.bind_some]
  | case4 e s hu ih =>
    rw [pieces?.eq_4 _ _ hu] at h
    obtain ⟨c, hc, h⟩ := Option.bind_eq_some_iff.1 h
    obtain ⟨⟨ps, r⟩, hps, h⟩ := Option.bind_eq_some_iff.1 h
    have hne : e ≠ 'u' := by
      rintro rfl
      cases hc
    cases h
    rw [List.cons_append, List.cons_append, pieces?_short hne hc, ih hps]
    rfl
  | case5 c s hquote hnumbered hshort hc =>
    rw [pieces?.eq_5 _ _ hquote hnumbered hshort, if_pos hc] at h
    cases h
  | case6 c s hquote _ _ hc ih =>
    obtain ⟨hcontrol, hslash⟩ := not_or.1 hc
    rw [pieces?_plain hquote hslash hcontrol] at h
    obtain ⟨⟨ps, r⟩, hps, h⟩ := Option.map_eq_some_iff.1 h
    cases h
    rw [List.cons_append, pieces?_plain hquote hslash hcontrol, ih hps]
    rfl

theorem stringBody?_append {o : Option String} (h : stringBody? s = some (o, rest)) (tail : List Char) :
    stringBody? (s ++ tail) = some (o, rest ++ tail) := by
  obtain ⟨⟨ps, r⟩, hps, h⟩ := Option.bind_eq_some_iff.1 h
  cases h
  rw [stringBody?, pieces?_append hps tail]
  rfl

/-! ## What comes behind a value -/

/-- What is read at the front of a text within a bound is read there within a greater one, whatever comes
behind it that does not go on with a number. -/
structure Local (n : ℕ) : Prop where
  value : ∀ {s j rest}, value? n s = some (j, rest) → ∀ {tail}, Numeral.Ends tail →
    ∀ {k}, n ≤ k → value? k (s ++ tail) = some (j, rest ++ tail)
  items : ∀ {s items rest}, items? n s = some (items, rest) → ∀ {tail}, Numeral.Ends tail →
    ∀ {k}, n ≤ k → items? k (s ++ tail) = some (items, rest ++ tail)
  members : ∀ {s members rest}, members? n s = some (members, rest) → ∀ {tail}, Numeral.Ends tail →
    ∀ {k}, n ≤ k → members? k (s ++ tail) = some (members, rest ++ tail)

theorem Local.valueStep (h : Local n) (hs : ValueStep n s j rest) (htail : Numeral.Ends tail)
    (hk : n ≤ k) : ValueStep k (s ++ tail) j (rest ++ tail) := by
  cases hs with
  | emptyObject hs => exact .emptyObject (skipBlank_append hs tail)
  | object hmembers => exact .object (h.members hmembers htail hk)
  | emptyArray hs => exact .emptyArray (skipBlank_append hs tail)
  | array hitems => exact .array (h.items hitems htail hk)
  | string hs => exact .string (stringBody?_append hs tail)
  | null => exact .null
  | true => exact .true
  | false => exact .false
  | number hs => exact .number (Numeral.read?_append hs htail)

theorem Local.itemsStep {items : List Json} (h : Local n) (hs : ItemsStep n s items rest)
    (htail : Numeral.Ends tail) (hk : n ≤ k) : ItemsStep k (s ++ tail) items (rest ++ tail) := by
  cases hs with
  | last hj hr => exact .last (h.value hj htail hk) (skipBlank_append hr tail)
  | more hj hr hitems =>
    exact .more (h.value hj htail hk) (skipBlank_append hr tail) (h.items hitems htail hk)

theorem Local.membersStep {members : List (Option String × Json)} (h : Local n)
    (hs : MembersStep n s members rest) (htail : Numeral.Ends tail) (hk : n ≤ k) :
    MembersStep k (s ++ tail) members (rest ++ tail) := by
  cases hs with
  | last hname hcolon hj hr =>
    exact .last (stringBody?_append hname tail) (skipBlank_append hcolon tail) (h.value hj htail hk)
      (skipBlank_append hr tail)
  | more hname hcolon hj hr hmembers =>
    exact .more (stringBody?_append hname tail) (skipBlank_append hcolon tail) (h.value hj htail hk)
      (skipBlank_append hr tail) (h.members hmembers htail hk)

/-- A step starts with a character. -/
theorem ValueStep.ne_nil (h : ValueStep n s j rest) : s ≠ [] := by
  cases h with
  | number hs =>
    obtain ⟨c, cs, rfl, -⟩ := Numeral.head_of_read? hs
    exact List.cons_ne_nil c cs
  | _ => exact List.cons_ne_nil _ _

/-- **Reading is local**, within every bound. -/
theorem local_all (n : ℕ) : Local n := by
  induction n with
  | zero => exact ⟨nofun, nofun, nofun⟩
  | succ n ih =>
    -- a bound from n + 1 on is a successor, so each of the three is one step of the parser
    refine ⟨fun h tail htail k hk => ?_, fun h tail htail k hk => ?_, fun h tail htail k hk => ?_⟩ <;>
      obtain ⟨k, rfl⟩ : ∃ m, k = m + 1 := ⟨k - 1, by omega⟩
    · have hstep := value?_succ_iff.1 h
      rw [value?_succ_iff, skipBlank_append_of_ne hstep.ne_nil]
      exact ih.valueStep hstep htail (by omega)
    · exact items?_succ_iff.2 (ih.itemsStep (items?_succ_iff.1 h) htail (by omega))
    · have hstep := members?_succ_iff.1 h
      have hne : skipBlank _ ≠ [] := fun hnil => by
        rw [hnil] at hstep
        cases hstep
      rw [members?_succ_iff, skipBlank_append_of_ne hne]
      exact ih.membersStep hstep htail (by omega)

/-! ## Texts side by side -/

/-- Texts with commas between them. -/
def itemsText : List String → List Char
  | [] => []
  | [text] => text.toList
  | text :: next :: rest => text.toList ++ ',' :: itemsText (next :: rest)

/-- **Texts as the items of an array.** -/
def arrayText (texts : List String) : String := String.ofList ('[' :: (itemsText texts ++ [']']))

/-- A text by itself is read at the front of a longer one, and only blanks are left of it. -/
theorem value?_of_parse? {text : String} (h : parse? text = some j) (tail : List Char)
    (htail : Numeral.Ends tail) (hn : 2 * text.toList.length + 2 ≤ n) :
    ∃ r, value? n (text.toList ++ tail) = some (j, r) ∧ skipBlank r = skipBlank tail := by
  obtain ⟨⟨j', r⟩, hvalue, h⟩ := Option.bind_eq_some_iff.1 h
  simp only [Option.ite_none_right_eq_some, List.isEmpty_iff, Option.some.injEq] at h
  obtain ⟨hblank, rfl⟩ := h
  exact ⟨r ++ tail, (local_all _).value hvalue htail hn,
    skipBlank_blanks (List.dropWhile_eq_nil_iff.1 hblank) tail⟩

theorem items?_itemsText {texts : List String} {js : List Json}
    (h : List.Forall₂ (fun text j => parse? text = some j) texts js) (hne : texts ≠ [])
    (hn : 2 * (itemsText texts).length + 3 ≤ n) :
    items? n (itemsText texts ++ [']']) = some (js, []) := by
  induction h generalizing n with
  | nil => exact absurd rfl hne
  | cons hj hrest ih =>
    obtain ⟨n, rfl⟩ : ∃ m, n = m + 1 := ⟨n - 1, by omega⟩
    cases hrest with
    | nil =>
      rw [itemsText] at hn
      obtain ⟨r, hvalue, hr⟩ := value?_of_parse? hj [']'] (n := n) (Numeral.ends_cons (by decide))
        (by omega)
      exact items?_succ_iff.2 (.last hvalue (hr.trans (skipBlank_cons rfl [])))
    | @cons next _ rest _ hk hmore =>
      simp only [itemsText, List.length_append, List.length_cons] at hn
      obtain ⟨r, hvalue, hr⟩ := value?_of_parse? hj (',' :: (itemsText (next :: rest) ++ [']']))
        (n := n) (Numeral.ends_cons (by decide)) (by omega)
      have hitems := ih (n := n) (List.cons_ne_nil next rest) (by omega)
      rw [itemsText, List.append_assoc, List.cons_append]
      exact items?_succ_iff.2 (.more hvalue (hr.trans (skipBlank_cons rfl _)) hitems)

/-- **Each text in an array is read as it is by itself.** -/
theorem parse?_arrayText {texts : List String} {js : List Json}
    (h : List.Forall₂ (fun text j => parse? text = some j) texts js) :
    parse? (arrayText texts) = some (.array js) := by
  have hvalue : value? (2 * (arrayText texts).toList.length + 2) (arrayText texts).toList =
      some (.array js, []) := by
    rw [value?_succ_iff, arrayText, String.toList_ofList, skipBlank_cons rfl]
    cases texts with
    | nil =>
      cases h
      exact .emptyArray (skipBlank_cons rfl _)
    | cons text rest =>
      refine .array (items?_itemsText h (List.cons_ne_nil text rest) ?_)
      rw [List.length_cons, List.length_append]
      omega
  rw [parse?, hvalue]
  rfl

/-! ## Items that denote something -/

theorem settledItems_eq (js : List Json) : settledItems js = js.map settled := by
  induction js with
  | nil => rfl
  | cons j js ih => rw [settledItems, ih, List.map_cons]

/-- A text that an array can have as an item: its value denotes something, and there is room to nest it. -/
structure IsItem (text : String) (j : Json) : Prop where
  reads : parse? text = some j
  readable : j.readable = true
  nests : j.depth < maxDepth

/-- Such items make an array that denotes something, and that is not nested too deep. -/
theorem readable_of_items {texts : List String} {js : List Json} (h : List.Forall₂ IsItem texts js) :
    readableItems js = true ∧ depthItems js < maxDepth := by
  induction h with
  | nil => exact ⟨rfl, by decide⟩
  | cons hitem _ ih =>
    obtain ⟨hreadable, hnests⟩ := ih
    refine ⟨?_, max_lt hitem.nests hnests⟩
    rw [readableItems, hitem.readable, hreadable]
    rfl

/-- **An array of such texts is read** as the array of their values. -/
theorem ofText?_arrayText {texts : List String} {js : List Json} (h : List.Forall₂ IsItem texts js) :
    ofText? (arrayText texts) = some (.array (js.map settled)) := by
  obtain ⟨hreadable, hdepth⟩ := readable_of_items h
  rw [ofText?, parse?_arrayText (h.imp fun _ _ hitem => hitem.reads)]
  simp only [Option.bind_eq_bind, Option.bind_some, readable, depth, settled, settledItems_eq,
    hreadable, true_and]
  exact if_pos hdepth

end TapeReader.Json

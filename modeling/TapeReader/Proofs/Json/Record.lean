import TapeReader.Proofs.Json.Numeral
import TapeReader.Proofs.Word

/-!
# Objects as records

* `field?_object`: in an object with each name once, a name has the member that was written.
* `record?_object`: **such an object is the record of its members**, in the order they were written.
* `field?_of_record?`: and the record of an object has what the object has.
* `settled_object`: it stays as it is when duplicates are resolved.
* `int64?_int`, `nat64?_nat`: an integer in range is itself; `signed_of_int64?`, `lt_of_nat64?`: and one
  that is read is in range.
-/

namespace TapeReader

theorem Signed.fits {i : ℤ} (h : Signed i) : Json.Numeral.Fits i := ⟨h.1, h.2.trans (by norm_num)⟩

namespace Json

variable {members : List (String × Json)} {name : String} {j : Json}

/-- Among names that differ, one member has a given name. -/
theorem filter_eq_singleton (hnodup : (members.map Prod.fst).Nodup) (hm : (name, j) ∈ members) :
    members.filter (·.1 == name) = [(name, j)] := by
  induction members with
  | nil => cases hm
  | cons m rest ih =>
    obtain ⟨hnew, hrest⟩ := List.nodup_cons.1 hnodup
    rcases List.mem_cons.1 hm with rfl | hm
    · have hnone : rest.filter (·.1 == name) = [] := by
        refine List.filter_eq_nil_iff.2 fun other hother hsame => hnew ?_
        exact List.mem_map.2 ⟨other, hother, eq_of_beq hsame⟩
      rw [List.filter_cons, if_pos (beq_self_eq_true name), hnone]
    · have hne : ¬ (m.1 == name) = true := fun hsame =>
        hnew (List.mem_map.2 ⟨_, hm, (eq_of_beq hsame).symm⟩)
      rw [List.filter_cons, if_neg hne, ih hrest hm]

theorem field?_object (hnodup : (members.map Prod.fst).Nodup) (hm : (name, j) ∈ members) :
    field? members name = some (some j) := by
  rw [field?, filter_eq_singleton hnodup hm]

/-- **An object with each name once is the record of its members.** -/
theorem record?_object (hnodup : (members.map Prod.fst).Nodup) :
    record? (members.map Prod.fst) (.object members) = some (members.map fun m => some m.2) := by
  -- the names are looked up one by one, each among all the members
  have hall : ∀ part ⊆ members,
      (part.map Prod.fst).mapM (field? members) = some (part.map fun m => some m.2) := by
    intro part hpart
    induction part with
    | nil => rfl
    | cons m rest ih =>
      obtain ⟨hm, hrest⟩ := List.cons_subset.1 hpart
      rw [List.map_cons, List.mapM_cons, field?_object hnodup hm, ih hrest]
      rfl
  exact hall members (List.Subset.refl members)

/-- The record of an object has what the object has under each name. -/
theorem field?_of_record? {names : List String} {fields : List (Option Json)} {field : Option Json}
    (h : record? names (.object members) = some fields) (hmem : (name, field) ∈ names.zip fields) :
    field? members name = some field := by
  change names.mapM (field? members) = some fields at h
  induction names generalizing fields with
  | nil => cases hmem
  | cons first rest ih =>
    rw [List.mapM_cons] at h
    obtain ⟨found, hfound, h⟩ := Option.bind_eq_some_iff.1 h
    obtain ⟨others, hothers, h⟩ := Option.bind_eq_some_iff.1 h
    cases h
    rcases List.mem_cons.1 hmem with heq | hmem
    · cases heq
      exact hfound
    · exact ih hmem hothers

/-- **An object with each name once stays as it is**, when its members do. -/
theorem settled_object (hnodup : (members.map Prod.fst).Nodup)
    (hsettled : ∀ m ∈ members, settled m.2 = m.2) :
    settled (.object members) = .object members := by
  have hmembers : settledMembers members = members := by
    induction members with
    | nil => rfl
    | cons m rest ih =>
      obtain ⟨hnew, hrest⟩ := List.nodup_cons.1 hnodup
      have honce : rest.any (·.1 == m.1) = false := by
        refine List.any_eq_false.2 fun other hother hsame => hnew ?_
        exact List.mem_map.2 ⟨other, hother, eq_of_beq hsame⟩
      rw [settledMembers, honce, ih hrest fun other hother => hsettled other (List.mem_cons_of_mem m hother),
        hsettled m List.mem_cons_self]
      rfl
  rw [settled, hmembers]

theorem int64?_int {i : ℤ} (h : Signed i) : (int i).int64? = some i := if_pos h

theorem signed_of_int64? {i : ℤ} (h : j.int64? = some i) : Signed i := by
  unfold int64? at h
  split at h
  · split_ifs at h with hbounds
    cases h
    exact hbounds
  · cases h

theorem lt_of_nat64? {n : ℕ} (h : j.nat64? = some n) : n < 2 ^ 64 := by
  unfold nat64? at h
  split at h
  · split_ifs at h with hbounds
    cases h
    omega
  · cases h

theorem fits_nat {n : ℕ} (h : n < 2 ^ 64) : Numeral.Fits n := ⟨by omega, by omega⟩

theorem nat64?_nat {n : ℕ} (h : n < 2 ^ 64) : (nat n).nat64? = some n := by
  have hn : (0 : ℤ) ≤ n ∧ (n : ℤ) < 2 ^ 64 := by omega
  rw [nat, int, nat64?, if_pos hn, Int.toNat_natCast]

end Json

end TapeReader

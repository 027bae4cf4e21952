import Mathlib
import TapeReader.Roster

/-!
# What a roster has been asked

A roster is asked to register names, to unregister them, and to change its values in place.

* `Roster.revise`: every value changed in place; `exists_revise_eq_walk`: a walk does no more.
* `register_of_not_mem`, `unregister_of_entries`: what is done to the entries, and the refusals beside it.
* `Roster.Request`, `Roster.serve`: a request, and what a roster makes of it; `Roster.Served`: the ways
  in which it may go.
* `Roster.after`, `Roster.log`: requests in turn, and the replies to them.
* `Roster.StandsFor`, `Roster.Precedes`: what a log says of a name, and of the order of two names.
* `Roster.Recorded`: a roster holds what a log says; `Recorded.serve`: every request keeps it so.
* `Roster.insertion_ordered`: **a roster is a map in the order of registration**, after any requests.
-/

namespace TapeReader.Roster

variable {α : Type}

/-! ## Changes in place -/

/-- The roster with every value changed in place. -/
def revise (change : String → α → α) (r : Roster α) : Roster α :=
  (r.walk (fun name a _ => (change name a, ())) ()).1

variable {r r' : Roster α} {name : String} {a : α} {front back : List (String × α)}

theorem ext_entries (h : r.entries = r'.entries) : r = r' := by
  obtain ⟨entries, nodup⟩ := r
  obtain ⟨entries', nodup'⟩ := r'
  obtain rfl : entries = entries' := h
  rfl

theorem entries_revise (change : String → α → α) (r : Roster α) :
    (r.revise change).entries = r.entries.map fun e => (e.1, change e.1 e.2) := by
  have hwalk : ∀ entries : List (String × α),
      (walkEntries (fun name a (_ : Unit) => (change name a, ())) entries ()).1 =
        entries.map fun e => (e.1, change e.1 e.2) := by
    intro entries
    induction entries with
    | nil => rfl
    | cons e rest ih => exact congrArg ((e.1, change e.1 e.2) :: ·) ih
  exact hwalk r.entries

theorem mapEntries_eq_revise (f : α → α) (r : Roster α) :
    r.mapEntries f = r.revise fun _ => f := by
  apply ext_entries
  rw [entries_revise]
  rfl

/-- Entries under the same names, none of them twice, are found by their names. -/
theorem map_lookup {entries entries' : List (String × α)}
    (hnames : entries'.map (·.1) = entries.map (·.1)) (hnodup : (entries.map (·.1)).Nodup) :
    (entries.map fun e => (e.1, (entries'.lookup e.1).getD e.2)) = entries' := by
  induction entries generalizing entries' with
  | nil => exact (List.map_eq_nil_iff.1 hnames).symm
  | cons e rest ih =>
    obtain ⟨name, a⟩ := e
    obtain ⟨⟨name', b⟩, rest', rfl, rfl, hrest⟩ := List.map_eq_cons_iff.1 hnames
    obtain ⟨hfresh, hnodup⟩ := List.nodup_cons.1 hnodup
    have hlater : ∀ e ∈ rest, (e.1 == name') = false := fun e he =>
      beq_eq_false_iff_ne.2 fun heq => hfresh (List.mem_map.2 ⟨e, he, heq⟩)
    have htail : (rest.map fun e => (e.1, (((name', b) :: rest').lookup e.1).getD e.2)) = rest' :=
      calc rest.map (fun e => (e.1, (((name', b) :: rest').lookup e.1).getD e.2))
          = rest.map fun e => (e.1, (rest'.lookup e.1).getD e.2) :=
            List.map_congr_left fun e he => by rw [List.lookup_cons, hlater e he]
        _ = rest' := ih hrest hnodup
    rw [List.map_cons, htail, List.lookup_cons_self]
    rfl

/-- **Whatever a walk over the values does**, it changes each of them in a way of its own. -/
theorem exists_revise_eq_walk {σ : Type} (f : String → α → σ → α × σ) (r : Roster α) (s : σ) :
    ∃ change, (r.walk f s).1 = r.revise change := by
  refine ⟨fun name a => ((walkEntries f r.entries s).1.lookup name).getD a, ext_entries ?_⟩
  rw [entries_revise]
  exact (map_lookup (walkEntries_names f r.entries s) r.nodup).symm

/-! ## Names taken, and names that are not there -/

theorem register_of_mem (h : name ∈ r.names) (a : α) : r.register name a = .error (.taken name) :=
  dif_pos h

theorem register_of_not_mem (h : name ∉ r.names) (a : α) :
    ∃ r', r.register name a = .ok r' ∧ r'.entries = r.entries ++ [(name, a)] :=
  ⟨_, dif_neg h, rfl⟩

theorem unregister_of_not_mem (h : name ∉ r.names) : r.unregister name = .error (.unknown name) := by
  have hfind : r.find? name = none := by
    refine List.lookup_eq_none_iff.2 fun e he => ?_
    simpa using fun heq : name = e.1 => h (List.mem_map.2 ⟨e, he, heq.symm⟩)
  simp only [unregister, hfind]

/-- No other entry has the name of an entry. -/
theorem ne_of_entries (h : r.entries = front ++ (name, a) :: back) :
    ∀ e ∈ front ++ back, e.1 ≠ name := by
  have hnodup := r.nodup
  rw [h, List.map_append, List.map_cons, List.nodup_middle, ← List.map_append] at hnodup
  exact fun e he heq => (List.nodup_cons.1 hnodup).1 (List.mem_map.2 ⟨e, he, heq⟩)

/-- An entry is found under its name, where no other entry has it. -/
theorem lookup_middle (h : ∀ e ∈ front ++ back, e.1 ≠ name) :
    (front ++ (name, a) :: back).lookup name = some a := by
  have hfront : front.lookup name = none := List.lookup_eq_none_iff.2 fun e he => by
    simpa using (h e (List.mem_append_left _ he)).symm
  rw [List.lookup_append, hfront, List.lookup_cons_self, Option.none_or]

theorem unregister_of_entries (h : r.entries = front ++ (name, a) :: back) :
    ∃ r', r.unregister name = .ok (a, r') ∧ r'.entries = front ++ back := by
  have hne := ne_of_entries h
  have hfind : r.find? name = some a := by rw [find?, h, lookup_middle hne]
  have hrest : r.entries.filter (·.1 != name) = front ++ back := by
    rw [h, List.filter_append, List.filter_cons_of_neg (by simp), ← List.filter_append]
    exact List.filter_eq_self.2 fun e he => by simpa using hne e he
  simp only [unregister, hfind]
  exact ⟨_, rfl, hrest⟩

/-! ## Requests -/

/-- What a roster may be asked. -/
inductive Request (α : Type) where
  | register (name : String) (a : α)
  | unregister (name : String)
  /-- Every value is changed in place. -/
  | revise (change : String → α → α)

/-- How a request is answered. -/
inductive Reply (α : Type) where
  | done
  | removed (a : α)
  | refused (fault : NameFault)
deriving DecidableEq, Repr

/-- The roster after a request, and the reply to it. -/
def serve (r : Roster α) : Request α → Roster α × Reply α
  | .register name a =>
    match r.register name a with
    | .ok r => (r, .done)
    | .error fault => (r, .refused fault)
  | .unregister name =>
    match r.unregister name with
    | .ok (a, r) => (r, .removed a)
    | .error fault => (r, .refused fault)
  | .revise change => (r.revise change, .done)

/-- **The ways in which a request may go.** -/
inductive Served (r : Roster α) : Request α → Roster α × Reply α → Prop
  | taken {name : String} {a : α} (h : name ∈ r.names) :
    Served r (.register name a) (r, .refused (.taken name))
  | registered {name : String} {a : α} {r' : Roster α} (h : name ∉ r.names)
    (hr : r'.entries = r.entries ++ [(name, a)]) : Served r (.register name a) (r', .done)
  | unknown {name : String} (h : name ∉ r.names) :
    Served r (.unregister name) (r, .refused (.unknown name))
  | removed {name : String} {a : α} {front back : List (String × α)} {r' : Roster α}
    (h : r.entries = front ++ (name, a) :: back) (hr : r'.entries = front ++ back) :
    Served r (.unregister name) (r', .removed a)
  | revised {change : String → α → α} {r' : Roster α}
    (hr : r'.entries = r.entries.map fun e => (e.1, change e.1 e.2)) :
    Served r (.revise change) (r', .done)

theorem serve_register_of_mem (h : name ∈ r.names) (a : α) :
    r.serve (.register name a) = (r, .refused (.taken name)) := by
  simp only [serve, register_of_mem h]

theorem serve_register_of_not_mem (h : name ∉ r.names) (a : α) :
    ∃ r', r.serve (.register name a) = (r', .done) ∧ r'.entries = r.entries ++ [(name, a)] := by
  obtain ⟨r', hregister, hr⟩ := register_of_not_mem h a
  exact ⟨r', by simp only [serve, hregister], hr⟩

theorem serve_unregister_of_not_mem (h : name ∉ r.names) :
    r.serve (.unregister name) = (r, .refused (.unknown name)) := by
  simp only [serve, unregister_of_not_mem h]

theorem serve_unregister_of_entries (h : r.entries = front ++ (name, a) :: back) :
    ∃ r', r.serve (.unregister name) = (r', .removed a) ∧ r'.entries = front ++ back := by
  obtain ⟨r', hunregister, hr⟩ := unregister_of_entries h
  exact ⟨r', by simp only [serve, hunregister], hr⟩

/-- **A request goes in one of these ways.** -/
theorem served (r : Roster α) (q : Request α) : Served r q (r.serve q) := by
  cases q with
  | register name a =>
    by_cases h : name ∈ r.names
    · rw [serve_register_of_mem h]
      exact .taken h
    · obtain ⟨r', hserve, hr⟩ := serve_register_of_not_mem h a
      rw [hserve]
      exact .registered h hr
  | unregister name =>
    by_cases h : name ∈ r.names
    · obtain ⟨⟨_, a⟩, he, rfl⟩ := List.mem_map.1 h
      obtain ⟨front, back, hentries⟩ := List.append_of_mem he
      obtain ⟨r', hserve, hr⟩ := serve_unregister_of_entries hentries
      rw [hserve]
      exact .removed hentries hr
    · rw [serve_unregister_of_not_mem h]
      exact .unknown h
  | revise change => exact .revised (entries_revise change r)

/-- The roster after some requests. -/
def after (r : Roster α) (requests : List (Request α)) : Roster α :=
  requests.foldl (fun r q => (r.serve q).1) r

/-- Requests in turn, each with the reply to it. -/
def log : Roster α → List (Request α) → List (Request α × Reply α)
  | _, [] => []
  | r, q :: rest => (q, (r.serve q).2) :: log (r.serve q).1 rest

theorem after_concat (r : Roster α) (requests : List (Request α)) (q : Request α) :
    r.after (requests ++ [q]) = ((r.after requests).serve q).1 := by
  simp [after]

theorem log_concat (r : Roster α) (requests : List (Request α)) (q : Request α) :
    r.log (requests ++ [q]) = r.log requests ++ [(q, ((r.after requests).serve q).2)] := by
  induction requests generalizing r with
  | nil => rfl
  | cons first rest ih => exact congrArg ((first, (r.serve first).2) :: ·) (ih _)

/-! ## What a log says -/

/-- A request that has been done registers the name, or unregisters it. -/
def Settles (name : String) (e : Request α × Reply α) : Prop :=
  (∃ a, e = (.register name a, .done)) ∨ ∃ a, e = (.unregister name, .removed a)

/-- What has become of a value that stands under a name. -/
def revised (name : String) (a : α) (log : List (Request α × Reply α)) : α :=
  log.foldl (fun a e => match e with
    | (.revise change, .done) => change name a
    | _ => a) a

/-- A name stands by a log: the last of the requests done that settle it has registered it. -/
def Standing (log : List (Request α × Reply α)) (name : String) : Prop :=
  ∃ earlier a later, log = earlier ++ (.register name a, .done) :: later ∧
    ∀ e ∈ later, ¬ Settles name e

/-- A name stands for a value by a log: it has been registered with the value, or with one that has
since become this one. -/
def StandsFor (log : List (Request α × Reply α)) (name : String) (a : α) : Prop :=
  ∃ earlier first later, log = earlier ++ (.register name first, .done) :: later ∧
    (∀ e ∈ later, ¬ Settles name e) ∧ a = revised name first later

/-- A name was registered for the last time before another one was. -/
def Precedes (log : List (Request α × Reply α)) (name other : String) : Prop :=
  ∃ earlier a later, log = earlier ++ (.register other a, .done) :: later ∧
    (∃ b, (.register name b, .done) ∈ earlier) ∧
    ∀ b, (.register name b, .done) ∉ later ∧ (.register other b, .done) ∉ later

variable {log : List (Request α × Reply α)} {e : Request α × Reply α} {b : α} {other : String}
  {requests : List (Request α)} {q : Request α}

theorem standing_iff : Standing log name ↔ ∃ a, StandsFor log name a := by
  constructor
  · rintro ⟨earlier, first, later, hlog, hlater⟩
    exact ⟨_, earlier, first, later, hlog, hlater, rfl⟩
  · rintro ⟨_, earlier, first, later, hlog, hlater, -⟩
    exact ⟨earlier, first, later, hlog, hlater⟩

/-- A request that settles a name decides what it stands for. -/
theorem standsFor_concat_of_settles (h : Settles name e) :
    StandsFor (log ++ [e]) name a ↔ e = (.register name a, .done) := by
  constructor
  · rintro ⟨earlier, first, later, hlog, hlater, rfl⟩
    rcases List.eq_nil_or_concat' later with rfl | ⟨later, last, rfl⟩
    · exact (List.append_inj' hlog rfl).2 |> List.singleton_inj.1
    · rw [← List.cons_append, ← List.append_assoc] at hlog
      obtain rfl : e = last := by simpa using (List.append_inj' hlog rfl).2
      exact absurd h (hlater e (by simp))
  · rintro rfl
    exact ⟨log, a, [], rfl, by simp, rfl⟩

/-- Any other request changes its value at most. -/
theorem standsFor_concat (h : ¬ Settles name e) :
    StandsFor (log ++ [e]) name a ↔ ∃ b, StandsFor log name b ∧ a = revised name b [e] := by
  constructor
  · rintro ⟨earlier, first, later, hlog, hlater, rfl⟩
    rcases List.eq_nil_or_concat' later with rfl | ⟨later, last, rfl⟩
    · obtain rfl : e = _ := List.singleton_inj.1 (List.append_inj' hlog rfl).2
      exact absurd (Or.inl ⟨first, rfl⟩) h
    · rw [← List.cons_append, ← List.append_assoc] at hlog
      obtain ⟨rfl, hlast⟩ := List.append_inj' hlog rfl
      obtain rfl : e = last := List.singleton_inj.1 hlast
      refine ⟨revised name first later, ⟨earlier, first, later, rfl, fun e he => ?_, rfl⟩, ?_⟩
      · exact hlater e (List.mem_append_left _ he)
      · exact List.foldl_append
  · rintro ⟨b, ⟨earlier, first, later, rfl, hlater, rfl⟩, rfl⟩
    refine ⟨earlier, first, later ++ [e], by simp, fun e' he' => ?_, List.foldl_append.symm⟩
    rcases List.mem_append.1 he' with he' | he'
    · exact hlater e' he'
    · exact List.mem_singleton.1 he' ▸ h

/-- A request that leaves the value alone, and does not settle the name. -/
theorem standsFor_concat_of_kept (h : ¬ Settles name e) (hkept : ∀ b, revised name b [e] = b) :
    StandsFor (log ++ [e]) name a ↔ StandsFor log name a := by
  simp [standsFor_concat h, hkept]

theorem Precedes.concat (h : Precedes log name other)
    (hname : ∀ b, e ≠ (.register name b, .done)) (hother : ∀ b, e ≠ (.register other b, .done)) :
    Precedes (log ++ [e]) name other := by
  obtain ⟨earlier, a, later, rfl, hfirst, hlater⟩ := h
  refine ⟨earlier, a, later ++ [e], by simp, hfirst, fun b => ⟨fun hmem => ?_, fun hmem => ?_⟩⟩
  · rcases List.mem_append.1 hmem with hmem | hmem
    · exact (hlater b).1 hmem
    · exact hname b (List.mem_singleton.1 hmem).symm
  · rcases List.mem_append.1 hmem with hmem | hmem
    · exact (hlater b).2 hmem
    · exact hother b (List.mem_singleton.1 hmem).symm

/-- A name registered last comes after every name that stands. -/
theorem StandsFor.precedes (h : StandsFor log name b) (a : α) :
    Precedes (log ++ [(.register other a, .done)]) name other := by
  obtain ⟨earlier, first, later, rfl, -⟩ := h
  exact ⟨_, a, [], rfl, ⟨first, by simp⟩, by simp⟩

/-! ## A roster and its log -/

/-- **A roster holds what a log says**: an entry for every name that stands, with the value that it
stands for, in the order in which the names were registered. -/
structure Recorded (log : List (Request α × Reply α)) (r : Roster α) : Prop where
  stands : ∀ name a, (name, a) ∈ r.entries ↔ StandsFor log name a
  ordered : r.names.Pairwise (Precedes log)

theorem recorded_nil : Recorded [] ({} : Roster α) where
  stands name a := by simp [StandsFor]
  ordered := .nil

theorem Recorded.mem_names_iff (h : Recorded log r) : name ∈ r.names ↔ Standing log name := by
  rw [standing_iff, names, List.mem_map]
  constructor
  · rintro ⟨⟨_, a⟩, he, rfl⟩
    exact ⟨a, (h.stands _ a).1 he⟩
  · rintro ⟨a, ha⟩
    exact ⟨(name, a), (h.stands name a).2 ha, rfl⟩

/-- A request that is refused changes nothing that the log says. -/
theorem Recorded.refused (h : Recorded log r) (q : Request α) (fault : NameFault) :
    Recorded (log ++ [(q, .refused fault)]) r where
  stands name a := by
    rw [standsFor_concat_of_kept (by simp [Settles]) (by cases q <;> exact fun _ => rfl)]
    exact h.stands name a
  ordered := h.ordered.imp fun hp => hp.concat (by simp) (by simp)

/-- A name registered stands last. -/
theorem Recorded.registered (h : Recorded log r) (hname : name ∉ r.names)
    (hr : r'.entries = r.entries ++ [(name, a)]) :
    Recorded (log ++ [(.register name a, .done)]) r' where
  stands other b := by
    rw [hr, List.mem_append, List.mem_singleton, Prod.mk.injEq]
    by_cases heq : other = name
    · subst heq
      have habsent : (other, b) ∉ r.entries := fun he => hname (List.mem_map_of_mem he)
      rw [standsFor_concat_of_settles (Or.inl ⟨a, rfl⟩)]
      simp [habsent, eq_comm]
    · have hother : ¬ Settles other (Request.register name a, Reply.done) := by
        simp [Settles, Ne.symm heq]
      rw [standsFor_concat_of_kept hother fun _ => rfl, h.stands]
      simp [heq]
  ordered := by
    have hne : ∀ m ∈ r.names, m ≠ name := fun m hm heq => hname (heq ▸ hm)
    rw [names, hr, List.map_append, List.pairwise_append]
    refine ⟨?_, List.pairwise_singleton _ _, fun m hm n hn => ?_⟩
    · refine h.ordered.imp_of_mem fun hm hn hp => hp.concat (fun b => ?_) fun b => ?_
      · simpa using fun heq => absurd heq.symm (hne _ hm)
      · simpa using fun heq => absurd heq.symm (hne _ hn)
    · obtain rfl : n = name := by simpa using hn
      obtain ⟨c, hc⟩ := standing_iff.1 (h.mem_names_iff.1 hm)
      exact hc.precedes a

/-- A name unregistered stands no more, and the others stand as they did. -/
theorem Recorded.removed (h : Recorded log r) (hentries : r.entries = front ++ (name, a) :: back)
    (hr : r'.entries = front ++ back) :
    Recorded (log ++ [(.unregister name, .removed a)]) r' where
  stands other b := by
    have hne := ne_of_entries hentries
    by_cases heq : other = name
    · subst heq
      rw [standsFor_concat_of_settles (Or.inr ⟨a, rfl⟩), hr]
      simpa using fun he => hne (other, b) he rfl
    · have hother : ¬ Settles other (Request.unregister name, Reply.removed a) := by
        simp [Settles, Ne.symm heq]
      rw [standsFor_concat_of_kept hother fun _ => rfl, ← h.stands, hentries, hr]
      simp [heq]
  ordered := by
    have hsub : r'.names.Sublist r.names := by
      rw [names, names, hentries, hr]
      exact (List.Sublist.append_left (List.sublist_cons_self _ _) _).map _
    exact (h.ordered.sublist hsub).imp fun hp => hp.concat (by simp) (by simp)

/-- Values changed in place stand changed. -/
theorem Recorded.revised {change : String → α → α} (h : Recorded log r)
    (hr : r'.entries = r.entries.map fun e => (e.1, change e.1 e.2)) :
    Recorded (log ++ [(.revise change, .done)]) r' where
  stands name a := by
    rw [standsFor_concat (by simp [Settles]), hr, List.mem_map]
    constructor
    · rintro ⟨⟨_, b⟩, he, heq⟩
      obtain ⟨rfl, rfl⟩ := Prod.mk.inj heq
      exact ⟨b, (h.stands _ b).1 he, rfl⟩
    · rintro ⟨b, hb, rfl⟩
      exact ⟨(name, b), (h.stands name b).2 hb, rfl⟩
  ordered := by
    have hnames : r'.names = r.names := by
      rw [names, hr, List.map_map]
      rfl
    rw [hnames]
    exact h.ordered.imp fun hp => hp.concat (by simp) (by simp)

/-- **Every request keeps a roster recorded.** -/
theorem Recorded.serve (h : Recorded log r) (q : Request α) :
    Recorded (log ++ [(q, (r.serve q).2)]) (r.serve q).1 := by
  have hserved := served r q
  generalize r.serve q = result at hserved ⊢
  cases hserved with
  | taken | unknown => exact h.refused _ _
  | registered hname hr => exact h.registered hname hr
  | removed hentries hr => exact h.removed hentries hr
  | revised hr => exact h.revised hr

/-- **After any requests** a roster holds what its log says. -/
theorem recorded_after (requests : List (Request α)) :
    Recorded (({} : Roster α).log requests) (({} : Roster α).after requests) := by
  induction requests using List.reverseRecOn with
  | nil => exact recorded_nil
  | append_singleton requests q ih =>
    rw [log_concat, after_concat]
    exact ih.serve q

/-- **A roster is a map in the order of registration.** A new roster is asked to register names, to
unregister them and to change its values in place, in any order. Then its names are distinct, each
stands beside its value, and they come in the order in which they were registered for the last time.
The names are those that were last registered rather than unregistered, with the values that they
were registered with, changed as the values have been since. A name that is there cannot be registered,
and one that is not there cannot be unregistered; both leave the roster as it is. Any other name is
registered behind the rest. A name that is there is unregistered with its value, and the entries before
it and behind it stay as they are. A change in place leaves the names, and whatever walks over the values
makes such a change. -/
theorem insertion_ordered (requests : List (Request α)) :
    let r := ({} : Roster α).after requests
    let log := ({} : Roster α).log requests
    r.names.Nodup ∧ r.names.zip r.values = r.entries ∧ r.names.Pairwise (Precedes log) ∧
    (∀ name, name ∈ r.names ↔ Standing log name) ∧
    (∀ name a, (name, a) ∈ r.entries ↔ StandsFor log name a) ∧
    (∀ name a,
      (Standing log name → r.serve (.register name a) = (r, .refused (.taken name))) ∧
      (¬ Standing log name → ∃ r', r.serve (.register name a) = (r', .done) ∧
        r'.entries = r.entries ++ [(name, a)])) ∧
    (∀ name,
      (¬ Standing log name → r.serve (.unregister name) = (r, .refused (.unknown name))) ∧
      ∀ a, StandsFor log name a → ∃ r' front back,
        r.serve (.unregister name) = (r', .removed a) ∧
        r.entries = front ++ (name, a) :: back ∧ r'.entries = front ++ back) ∧
    (∀ change, ∃ r', r.serve (.revise change) = (r', .done) ∧
      r'.entries = r.entries.map fun e => (e.1, change e.1 e.2)) ∧
    (∀ f, r.mapEntries f = r.revise fun _ => f) ∧
    ∀ (σ : Type) (f : String → α → σ → α × σ) (s : σ),
      ∃ change, (r.walk f s).1 = r.revise change := by
  intro r log
  have h : Recorded log r := recorded_after requests
  have hzip : r.names.zip r.values = r.entries := by
    rw [names, values, ← List.unzip_fst, ← List.unzip_snd, List.zip_unzip]
  refine ⟨r.nodup, hzip, h.ordered, fun _ => h.mem_names_iff, h.stands,
    fun name a => ⟨fun hname => ?_, fun hname => ?_⟩,
    fun name => ⟨fun hname => ?_, fun a ha => ?_⟩,
    fun change => ⟨_, rfl, entries_revise change r⟩, fun f => mapEntries_eq_revise f r,
    fun σ f s => exists_revise_eq_walk f r s⟩
  · exact serve_register_of_mem (h.mem_names_iff.2 hname) a
  · exact serve_register_of_not_mem (mt h.mem_names_iff.1 hname) a
  · exact serve_unregister_of_not_mem (mt h.mem_names_iff.1 hname)
  · obtain ⟨front, back, hentries⟩ := List.append_of_mem ((h.stands name a).2 ha)
    obtain ⟨r', hserve, hr⟩ := serve_unregister_of_entries hentries
    exact ⟨r', front, back, hserve, hentries, hr⟩

/-- A name registered twice, a name that is not there unregistered, the values changed, and a name
registered again behind the one that came after it. -/
theorem insertion_ordered_again :
    let requests : List (Request ℕ) := [.register "b" 2, .register "a" 1, .register "b" 9,
      .unregister "z", .revise fun _ a => a * 10, .unregister "b", .register "b" 3]
    let r := ({} : Roster ℕ).after requests
    let log := ({} : Roster ℕ).log requests
    r.entries = [("a", 10), ("b", 3)] ∧
    log.map (·.2) =
      [.done, .done, .refused (.taken "b"), .refused (.unknown "z"), .done, .removed 20, .done] ∧
    Precedes log "a" "b" ∧
    (Standing log "b" ∧ r.serve (.register "b" 4) = (r, .refused (.taken "b"))) ∧
    (¬ Standing log "z" ∧ r.serve (.unregister "z") = (r, .refused (.unknown "z"))) ∧
    ∃ r', r.serve (.unregister "a") = (r', .removed 10) ∧ r'.entries = [("b", 3)] := by
  intro requests r log
  obtain ⟨-, -, hordered, hnames, hstands, hregister, hunregister, -⟩ := insertion_ordered requests
  have hentries : r.entries = [("a", 10), ("b", 3)] := by decide +kernel
  have hlog : log.map (·.2) =
      [.done, .done, .refused (.taken "b"), .refused (.unknown "z"), .done, .removed 20, .done] := by
    decide +kernel
  have hrnames : r.names = ["a", "b"] := by decide +kernel
  have hb : Standing log "b" := (hnames "b").1 (by simp [r, hrnames])
  have hz : ¬ Standing log "z" := fun h => absurd ((hnames "z").2 h) (by simp [r, hrnames])
  refine ⟨hentries, hlog, ?_, ⟨hb, (hregister "b" 4).1 hb⟩, ⟨hz, (hunregister "z").1 hz⟩, ?_⟩
  · have hpair : r.names.Pairwise (Precedes log) := hordered
    rw [hrnames] at hpair
    exact (List.pairwise_cons.1 hpair).1 "b" (by simp)
  · have ha : StandsFor log "a" 10 := (hstands "a" 10).1 (by simp [r, hentries])
    obtain ⟨r', front, back, hserve, hsplit, hr⟩ := (hunregister "a").2 10 ha
    refine ⟨r', hserve, ?_⟩
    have hentries' : front ++ ("a", 10) :: back = [("a", 10), ("b", 3)] := hsplit ▸ hentries
    cases front with
    | nil => rw [hr]; exact (List.cons.inj hentries').2
    | cons e rest =>
      have hrest : rest ++ ("a", 10) :: back = [("b", 3)] := (List.cons.inj hentries').2
      have hmem : ("a", 10) ∈ rest ++ ("a", 10) :: back := by simp
      rw [hrest] at hmem
      simp at hmem

end TapeReader.Roster

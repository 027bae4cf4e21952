import TapeReader.Proofs.Board.Fanout

/-!
# How ticks come in messages

* `Noise`: records that bring no tick, by the reasons for it.
* `receives`: messages in turn, with every notice and every answer.
* `Keeps`, `Quiet`: watchers that leave the roster alone, and give up on nothing.
* `seeing`: watchers that note what they can read, too.
* `receives_eq`: **messages in turn come to their ticks in turn**, whichever ticks came together.
* `same_of_ticks`: the same comes of messages with the same ticks, when the watchers are quiet.
-/

namespace TapeReader

/-! ## Records -/

namespace Json

theorem string?_eq_some_iff {j : Json} {s : String} : j.string? = some s ↔ j = .string s := by
  cases j <;> simp [string?]

/-- A name written once is also the last of its name. -/
theorem lastField?_of_field? {members : List (String × Json)} {name : String} {j : Json}
    (h : field? members name = some (some j)) : lastField? members name = some j := by
  unfold field? at h
  unfold lastField?
  rw [← List.head?_filter, List.filter_reverse]
  split at h
  · simp at h
  · rename_i hfilter
    rw [hfilter]
    simpa using h
  · simp at h

end Json

namespace Tick

variable {t : Tick}

theorem validate_isOk_iff : t.validate.isOk = true ↔ t.event = "A" ∧ t.start < t.stop := by
  rw [show "A" = aggregateEvent from rfl, ← validate_eq_ok_iff]
  cases t.validate with
  | error v => simp [Except.isOk, Except.toBool]
  | ok u => exact ⟨fun _ => rfl, fun _ => rfl⟩

/-- The event of a tick is that of the object it was read from. -/
theorem event_of_ofJson? {members : List (String × Json)}
    (h : ofJson? (.object members) = some t) :
    (Json.object members).get? "ev" = some (.string t.event) := by
  obtain ⟨ev, _, _, _, _, _, _, _, _, _, _, _, hrecord, hreads⟩ := ofJson?_eq_some_iff.1 h
  obtain ⟨j, rfl, hj⟩ := Option.bind_eq_some_iff.1 hreads.event
  rw [← Json.string?_eq_some_iff.1 hj]
  exact Json.lastField?_of_field? (Json.field?_of_record? hrecord List.mem_cons_self)

end Tick

namespace Board

/-- **Records that bring no tick**: those that are no object, those of another event or of none, those
that do not decode, and those of an empty span. -/
inductive Noise : Json → Prop
  | noObject {record : Json} (h : ∀ members, record ≠ .object members) : Noise record
  | otherEvent {record : Json} (h : record.get? "ev" ≠ some (.string "A")) : Noise record
  | undecoded {record : Json} (h : Tick.ofJson? record = none) : Noise record
  | emptySpan {record : Json} {t : Tick} (h : Tick.ofJson? record = some t)
      (hspan : t.stop ≤ t.start) : Noise record

variable {κ σ ν : Type}

/-- **A record brings no tick** just when it is noise. -/
theorem noise_iff (record : Json) : Noise record ↔ Tick.ofRecord? record = none := by
  have hevent : (record.get? "ev").bind Json.string? = some "A" ↔
      record.get? "ev" = some (.string "A") := by
    simp only [Option.bind_eq_some_iff, Json.string?_eq_some_iff]
    exact ⟨fun ⟨j, hj, hstring⟩ => hstring ▸ hj, fun h => ⟨_, h, rfl⟩⟩
  rw [ofRecord?_eq]
  constructor
  · rintro (h | h | h | ⟨h, hspan⟩)
    · have hnone : record.get? "ev" = none := by
        cases record with
        | object members => exact absurd rfl (h members)
        | _ => rfl
      rw [hnone, if_neg (by simp)]
    · rw [if_neg (mt hevent.1 h)]
    · rw [h]
      exact ite_self none
    · have hvalid := mt Tick.validate_isOk_iff.1 fun hvalid => hspan.not_gt hvalid.2
      rw [h]
      simp [Option.filter, hvalid]
  · intro h
    by_cases hA : record.get? "ev" = some (.string "A")
    · rw [if_pos (hevent.2 hA)] at h
      cases hdecoded : Tick.ofJson? record with
      | none => exact .undecoded hdecoded
      | some t =>
        -- an object of the event of aggregates that decodes can only fail by its span
        cases record with
        | object members =>
          have hsame := (Tick.event_of_ofJson? hdecoded).symm.trans hA
          have haggregate : t.event = "A" := by simpa using hsame
          refine .emptySpan hdecoded (not_lt.1 fun hspan => ?_)
          have hvalid := Tick.validate_isOk_iff.2 ⟨haggregate, hspan⟩
          simp [hdecoded, Option.filter, hvalid] at h
        | _ => simp [Json.get?] at hA
    · exact .otherEvent hA

instance (record : Json) : Decidable (Noise record) := decidable_of_iff _ (noise_iff record).symm

/-- Batches that differ in noise bring the same ticks. -/
theorem ticksOf_eq_of_filter {raw raw' : String} {records records' : List Json}
    (h : records? raw = some records) (h' : records? raw' = some records')
    (hsame : records'.filter (¬ Noise ·) = records.filter (¬ Noise ·)) :
    ticksOf raw' = ticksOf raw := by
  have hfilter : ∀ records : List Json, records.filterMap Tick.ofRecord? =
      (records.filter (¬ Noise ·)).filterMap Tick.ofRecord? := by
    intro records
    rw [List.filterMap_filter]
    refine List.filterMap_congr fun record _ => ?_
    by_cases hnoise : Noise record
    · simp [hnoise, (noise_iff record).1 hnoise]
    · simp [hnoise]
  unfold ticksOf
  simp only [← ofRecord?_eq, h, h', Option.getD_some]
  rw [hfilter records', hsame, ← hfilter]

/-- A batch put together of two brings the ticks of both. -/
theorem ticksOf_append {raw first second : String} {xs ys : List Json}
    (h : records? raw = some (xs ++ ys)) (hfirst : records? first = some xs)
    (hsecond : records? second = some ys) : ticksOf raw = ticksOf first ++ ticksOf second := by
  unfold ticksOf
  rw [h, hfirst, hsecond]
  exact List.filterMap_append

/-- A batch that is not empty is counted. -/
theorem counted_eq_ok {raw : String} {records : List Json} (h : records? raw = some records)
    (hne : records ≠ []) : counted raw = .ok (ticksOf raw).length := by
  unfold counted
  rw [h]
  cases records with
  | nil => exact absurd rfl hne
  | cons record rest => rfl

/-! ## Messages -/

/-- **Messages in turn**, with every notice and every answer. -/
def receives (react : Reaction κ σ ν) :
    List String → World κ σ → World κ σ × List (Notice ν) × List (Except MessageFault ℕ)
  | [], w => (w, [], [])
  | raw :: rest, w =>
    let (w, notices, answer) := receive react raw w
    let (w, more, answers) := receives react rest w
    (w, notices ++ more, answer :: answers)

variable {react : Reaction κ σ ν} {told : List (String × κ)} {w : World κ σ}
  {ticks : List Tick} {raws raws' : List String}

/-- Ticks in two parts are applied in two parts, unless a watcher gives up on the first. -/
theorem applyAll_append (react : Reaction κ σ ν) (told : List (String × κ)) (ticks more : List Tick)
    (w : World κ σ) :
    applyAll react told (ticks ++ more) w = match applyAll react told ticks w with
      | (w, notices, .ok ()) =>
        let (w, later, done) := applyAll react told more w
        (w, notices ++ later, done)
      | (w, notices, .error a) => (w, notices, .error a) := by
  induction ticks generalizing w with
  | nil => rfl
  | cons t rest ih =>
    rw [List.cons_append, applyAll, applyAll]
    obtain ⟨w', notices, done⟩ := apply react told t w
    cases done with
    | error a => rfl
    | ok u =>
      dsimp only
      rw [ih]
      obtain ⟨w'', notices', done⟩ := applyAll react told rest w'
      cases done with
      | error a => rfl
      | ok u =>
        dsimp only
        rw [List.append_assoc]

/-- Watchers that leave the roster as it is. -/
def Keeps (react : Reaction κ σ ν) (told : List (String × κ)) : Prop :=
  ∀ e ∈ told, ∀ ticker w, (react e.2 ticker w).1.board.watchers = w.board.watchers

theorem applyAll_keeps (h : Keeps react told) (ticks : List Tick) (w : World κ σ) :
    (applyAll react told ticks w).1.board.watchers = w.board.watchers := by
  have hinvariant : Invariant react told fun w' => w'.board.watchers = w.board.watchers :=
    ⟨fun _ _ hw' => hw', fun e he ticker w' hw' => (h e he ticker w').trans hw'⟩
  exact hinvariant.applyAll ticks rfl

/-- No answer says that a message was given up. -/
def NoneGivenUp (answers : List (Except MessageFault ℕ)) : Prop :=
  ∀ answer ∈ answers, ∀ a, answer ≠ .error (.abort a)

/-- **Messages in turn are their ticks in turn**, when the watchers keep the roster: no message is
given up just when the ticks, one after the other, are not. -/
theorem receives_eq (h : Keeps react w.board.watchers.entries) (raws : List String) :
    let applied := applyAll react w.board.watchers.entries (raws.flatMap ticksOf) w
    (NoneGivenUp (receives react raws w).2.2 ↔ applied.2.2 = .ok ()) ∧
      (applied.2.2 = .ok () →
        receives react raws w = (applied.1, applied.2.1, raws.map counted)) := by
  induction raws generalizing w with
  | nil => exact ⟨⟨fun _ => rfl, fun _ => by simp [NoneGivenUp, receives]⟩, fun _ => rfl⟩
  | cons raw rest ih =>
    have hkeeps := applyAll_keeps h (ticksOf raw) w
    rw [List.flatMap_cons, applyAll_append, receives, receive_eq]
    cases hr : applyAll react w.board.watchers.entries (ticksOf raw) w with
    | mk w' p =>
      obtain ⟨notices, done⟩ := p
      rw [hr] at hkeeps
      cases done with
      | error a => simp [NoneGivenUp]
      | ok u =>
        -- the roster is still the one that the first message came upon
        obtain ⟨hiff, heq⟩ := ih (w := w') (by rw [hkeeps]; exact h)
        rw [hkeeps] at hiff heq
        refine ⟨?_, fun hdone => ?_⟩
        · rw [← hiff]
          unfold NoneGivenUp
          rw [List.forall_mem_cons]
          exact and_iff_right fun a => counted_ne_abort raw a
        · dsimp only
          rw [heq hdone]
          rfl

/-! ## Watchers that do not give up -/

/-- Watchers that leave the roster and the windows as they are, and give up on nothing: they may look,
and do what they like to the bars. -/
structure Quiet (react : Reaction κ σ ν) (told : List (String × κ)) : Prop where
  keeps : Keeps react told
  proper : ∀ e ∈ told, ∀ ticker w, Proper w.board.stores →
    Proper (react e.2 ticker w).1.board.stores
  steady : ∀ e ∈ told, ∀ ticker w, Proper w.board.stores →
    ∀ a, (react e.2 ticker w).2 ≠ .error a

theorem Quiet.notify (h : Quiet react told) (ticker : String) (hw : Proper w.board.stores) :
    Proper (notify react ticker told w).1.board.stores ∧
      (notify react ticker told w).2.2 = .ok () := by
  induction told generalizing w with
  | nil => exact ⟨hw, rfl⟩
  | cons entry rest ih =>
    obtain ⟨name, watcher⟩ := entry
    have hproper := h.proper (name, watcher) List.mem_cons_self ticker w hw
    have hsteady := h.steady (name, watcher) List.mem_cons_self ticker w hw
    have hrest : Quiet react rest := ⟨fun e he => h.keeps e (List.mem_cons_of_mem _ he),
      fun e he => h.proper e (List.mem_cons_of_mem _ he),
      fun e he => h.steady e (List.mem_cons_of_mem _ he)⟩
    unfold Board.notify
    cases hr : react watcher ticker w with
    | mk w' result =>
      rw [hr] at hproper hsteady
      cases result with
      | error a => exact absurd rfl (hsteady a)
      | ok note => exact ih hrest hproper

/-- Quiet watchers let every tick through. -/
theorem Quiet.applyAll (h : Quiet react told) (ticks : List Tick) (hw : Proper w.board.stores) :
    (applyAll react told ticks w).2.2 = .ok () := by
  induction ticks generalizing w with
  | nil => rfl
  | cons t rest ih =>
    unfold Board.applyAll apply
    rw [offer_all hw]
    dsimp only
    obtain ⟨hproper, hdone⟩ := h.notify t.ticker
      (w := { w with board := { w.board with stores := feedAll w.board.stores t } }) (hw.feedAll t)
    cases hr : Board.notify react t.ticker told
        { w with board := { w.board with stores := feedAll w.board.stores t } } with
    | mk w' p =>
      obtain ⟨notices, done⟩ := p
      rw [hr] at hproper hdone
      obtain rfl : done = .ok () := hdone
      exact ih hproper

/-- Watchers that note what they can read, besides what they note. -/
def seeing (react : Reaction κ σ ν) : Reaction κ σ (PerResolution Store × ν) :=
  fun watcher ticker w =>
    ((react watcher ticker w).1, (react watcher ticker w).2.map (w.board.stores, ·))

theorem Quiet.seeing (h : Quiet react told) : Quiet (seeing react) told where
  keeps := h.keeps
  proper := h.proper
  steady e he ticker w hw a := by
    have hsteady := h.steady e he ticker w hw
    unfold Board.seeing
    cases hr : (react e.2 ticker w).2 with
    | error b => exact absurd hr (hsteady b)
    | ok note => simp [Except.map]

/-- The same comes of messages put together in two ways: the board and all around it end up the same,
the same watchers are told of the same tickers in the same order, and each of them finds the same bars
when it is told. -/
structure Same (react : Reaction κ σ ν) (w : World κ σ) (raws raws' : List String) : Prop where
  world : (receives react raws' w).1 = (receives react raws w).1
  notices : (receives react raws' w).2.1 = (receives react raws w).2.1
  seen : (receives (seeing react) raws' w).2.1 = (receives (seeing react) raws w).2.1

/-- **What comes of messages is settled by their ticks**, for quiet watchers, and every message is
counted or refused for itself. -/
theorem same_of_ticks (hw : Proper w.board.stores) (hq : Quiet react w.board.watchers.entries)
    (raws raws' : List String) (hticks : raws'.flatMap ticksOf = raws.flatMap ticksOf) :
    Same react w raws raws' ∧ (receives react raws w).2.2 = raws.map counted ∧
      (receives react raws' w).2.2 = raws'.map counted := by
  have heq := fun raws => (receives_eq hq.keeps raws).2 (hq.applyAll _ hw)
  have hseen := fun raws => (receives_eq hq.seeing.keeps raws).2 (hq.seeing.applyAll _ hw)
  refine ⟨⟨?_, ?_, ?_⟩, ?_, ?_⟩
  · rw [heq raws, heq raws', hticks]
  · rw [heq raws, heq raws', hticks]
  · rw [hseen raws, hseen raws', hticks]
  · rw [heq raws]
  · rw [heq raws']

end Board

namespace Watcher

open Board

/-- Watchers that look at the bars, or forget them, are quiet. -/
theorem quiet {told : List (String × Watcher)}
    (h : ∀ e ∈ told, e.2 = .observer ∨ e.2 = .reader ∨ e.2 = .clearer) :
    Quiet react told where
  keeps e he ticker w := by
    rcases h e he with hk | hk | hk <;> rw [hk] <;> rfl
  proper e he ticker w hw := by
    rcases h e he with hk | hk | hk <;> rw [hk]
    · exact hw
    · exact hw
    · intro r
      have hr := hw r
      cases r <;> exact hr
  steady e he ticker w _ a := by
    rcases h e he with hk | hk | hk <;> rw [hk] <;> simp [react]

end Watcher

end TapeReader

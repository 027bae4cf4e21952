import TapeReader.Clock.Table
import TapeReader.Proofs.Momentum.Attended

/-!
# When a message is given up

* `sights`: what a desk sees at each of some ticks.
* `applyAll_error_iff`: ticks are given up at the first overpriced sight, if nothing is held by then.
* `Session.message_aborted_iff`: **a message is given up for an overpriced sight only, and in no
  other case.**
-/

namespace TapeReader.Momentum

open Board Decimal

/-- What a desk sees at each of some ticks, once the stores have been fed it. -/
def sights : PerResolution Store → List Tick → List Sight
  | _, [] => []
  | stores, t :: rest => sightOf (feedAll stores t) t.ticker :: sights (feedAll stores t) rest

section

variable [TimeZones] {rule : Config.Momentum} {sight : Sight} {abort : Abort} {w : World DeskWatcher Desk}
  {ticks : List Tick}

/-- **Ticks are given up** at the first overpriced sight, when the desk holds nothing by then. -/
theorem applyAll_error_iff (hrule : Sober w.around.rule) (hw : Proper w.board.stores)
    (hcounted : ∀ sight ∈ sights w.board.stores ticks, sight.Counted) :
    (applyAll react deskAlone ticks w).2.2 = .error abort ↔
      abort = .multiplication ∧ w.around.held = none ∧
        signalsOf (applyAll react deskAlone ticks w).2.1 = [] ∧
        ∃ sight ∈ sights w.board.stores ticks, sight.Overpriced w.around.rule := by
  induction ticks generalizing w with
  | nil => simp [applyAll, sights]
  | cons t rest ih =>
    unfold sights at hcounted ⊢
    obtain ⟨hfirst, hrest⟩ := List.forall_mem_cons.1 hcounted
    have hiff : ∀ abort, (w.around.look t.ticker
        (sightOf (feedAll w.board.stores t) t.ticker)).2 = .error abort ↔ _ :=
      fun _ => Desk.look_error_iff hrule hfirst
    unfold applyAll
    rw [apply_eq hw t]
    dsimp only
    rcases w.around.update_cases t.ticker (sightOf (feedAll w.board.stores t) t.ticker).tens
        (sightOf (feedAll w.board.stores t) t.ticker).minutes with
      ⟨signal, (hlook : w.around.look t.ticker _ = _), hheld, -, -⟩ |
      ⟨answer, (hlook : w.around.look t.ticker _ = _), hnone⟩
    · -- from the first signal on the desk looks at nothing
      rw [hlook]
      have hquiet := ih (w := ⟨{ w.board with stores := feedAll w.board.stores t },
        { w.around with held := some signal.ticker }⟩) hrule (hw.feedAll t) hrest
      simp only [reduceCtorEq, false_and, and_false, iff_false] at hquiet
      simp [hquiet, signalsOf]
    · rw [hlook] at hiff ⊢
      rcases answer with a | note
      · -- the first sight is overpriced, and nothing is applied any more
        obtain ⟨rfl, hheld, hover⟩ := (hiff a).1 rfl
        simp [signalsOf, hheld, hover, eq_comm]
      · cases note with
        | some signal => exact absurd rfl (hnone signal)
        | none =>
          have hnext := ih (w := ⟨{ w.board with stores := feedAll w.board.stores t }, w.around⟩)
            hrule (hw.feedAll t) hrest
          have hclear : w.around.held = none →
              ¬ (sightOf (feedAll w.board.stores t) t.ticker).Overpriced w.around.rule := by
            intro hheld hover
            simpa using (hiff .multiplication).2 ⟨rfl, hheld, hover⟩
          dsimp only at hnext ⊢
          rw [hnext, signalsOf_append]
          simp only [signalsOf, List.filterMap_cons_none, List.filterMap_nil, List.nil_append]
          constructor
          · rintro ⟨ha, hheld, hquiet, sight, hsight, hover⟩
            exact ⟨ha, hheld, hquiet, sight, List.mem_cons_of_mem _ hsight, hover⟩
          · rintro ⟨ha, hheld, hquiet, sight, hsight, hover⟩
            rcases List.mem_cons.1 hsight with rfl | hsight
            · exact absurd hover (hclear hheld)
            · exact ⟨ha, hheld, hquiet, sight, hsight, hover⟩

omit [TimeZones] in
/-- A sight is of stores that have been fed some of the ticks more. -/
theorem mem_sights {stores : PerResolution Store} (h : sight ∈ sights stores ticks) :
    ∃ fed ticker, fed ⊆ ticks ∧ sight = sightOf (fed.foldl feedAll stores) ticker := by
  induction ticks generalizing stores with
  | nil => simp [sights] at h
  | cons t rest ih =>
    rcases List.mem_cons.1 h with rfl | h
    · exact ⟨[t], t.ticker, by simp, rfl⟩
    · obtain ⟨fed, ticker, hsub, rfl⟩ := ih h
      exact ⟨t :: fed, ticker, List.cons_subset_cons t hsub, rfl⟩

omit [TimeZones] in
/-- A reference open is the open of a bar. -/
theorem referenceOpen_mem {tens : History} (h : tens ≠ []) :
    ∃ bar ∈ tens, referenceOpen tens = bar.openPrice := by
  unfold referenceOpen
  split
  · exact absurd rfl h
  · exact ⟨_, by simp, rfl⟩
  · split
    · exact ⟨_, by simp, rfl⟩
    · exact ⟨_, by simp, rfl⟩

namespace Session

variable {aggregation : Config.Aggregation} {s s₀ : Session}

/-- A sight of a session is of stores that have been fed ticks that came in, and some more. -/
theorem Attended.sight_eq (h : Attended aggregation ticks s) {board : Board DeskWatcher}
    (hboard : s.board = some board) {more : List Tick} (hsight : sight ∈ sights board.stores more) :
    ∃ fed ticker, fed ⊆ ticks ++ more ∧ sight = {
      tens := (fed.foldl Store.feed
        (.fresh ⟨aggregation.resolutionsSecs.tenSeconds⟩ aggregation.historyLen)).history ticker
      minutes := (fed.foldl Store.feed
        (.fresh ⟨aggregation.resolutionsSecs.oneMinute⟩ aggregation.historyLen)).history ticker } := by
  obtain ⟨before, hbefore, hstores⟩ := h.fed board hboard
  obtain ⟨fed, ticker, hsub, rfl⟩ := mem_sights hsight
  refine ⟨before ++ fed, ticker, List.append_subset.2
    ⟨List.subset_append_of_subset_left _ hbefore, List.subset_append_of_subset_right _ hsub⟩, ?_⟩
  rw [hstores, ← List.foldl_append]
  unfold sightOf
  rw [get_foldl_feedAll, get_foldl_feedAll, ofConfig_get, ofConfig_get]
  rfl

/-- **An overpriced ticker has had an overpriced tick.** -/
theorem Attended.overpriced (h : Attended aggregation ticks s) {board : Board DeskWatcher}
    (hboard : s.board = some board) {more : List Tick}
    (hsight : sight ∈ sights board.stores more) (hover : sight.Overpriced rule) :
    ∃ t ∈ ticks ++ more, overflow ≤ |rule.gainRatio.value * t.openPrice.value| := by
  obtain ⟨-, bar, hbar, -, hover⟩ := hover
  obtain ⟨fed, ticker, hsub, hsight⟩ := h.sight_eq hboard hsight
  have hne : sight.tens ≠ [] := by
    intro hnil
    simp [hnil] at hbar
  -- the reference open is that of a bar, and the bar has it from a tick
  obtain ⟨first, hfirst, hopen⟩ := referenceOpen_mem hne
  rw [hopen] at hover
  rw [hsight] at hfirst
  obtain ⟨t, ht, hprice⟩ := Ledger.openPrice_of_mem hfirst
  exact ⟨t, hsub ht, by rw [hprice]; exact hover⟩

/-- **The volumes that a desk sees have 64 bits**, as those of the ticks have. -/
theorem Attended.counted (h : Attended aggregation ticks s) {board : Board DeskWatcher}
    (hboard : s.board = some board) {more : List Tick} (hsized : ∀ t ∈ ticks ++ more, t.Sized)
    (hsight : sight ∈ sights board.stores more) : sight.Counted := by
  obtain ⟨fed, ticker, hsub, hsight⟩ := h.sight_eq hboard hsight
  have htens : ∀ bar ∈ sight.tens, Signed bar.volume := by
    rw [hsight]
    exact Ledger.signed_volume_of_mem fun t ht => (hsized t (hsub ht)).volume
  intro bar hbar minute _
  obtain ⟨hlow, hhigh⟩ := htens bar (List.mem_of_mem_head? hbar)
  obtain ⟨hlow', hhigh'⟩ := signed_wrap _
  exact ⟨abs_le.2 ⟨by omega, by omega⟩, abs_le.2 ⟨hlow', hhigh'.le⟩⟩

/-- The answer to a message. -/
def answerTo (s : Session) (raw : String) : Answer := (s.message raw).2.2

/-- The signals given on a message. -/
def signalsOn (s : Session) (raw : String) : List Signal := (s.message raw).2.1

/-- **A message is given up for one reason only.** A desk with the default rule watches the board of
a configuration whose windows have a length, and any steps follow. Then a message is given up just when
the desk holds nothing, signals nothing on it, and sees at one of its ticks a ticker in the session
whose reference open has no multiple in a decimal; such an open has come in with a tick. Every other
message is applied or refused. -/
theorem message_aborted_iff (hproper : aggregation.Proper)
    (hopen : Session.open? aggregation {} = .ok s₀) (steps : List Step) (raw : String) :
    let s := s₀.run (.watch :: steps)
    let answer := s.answerTo raw
    ∀ board, s.board = some board →
      (∀ abort, answer = .aborted abort ↔
        abort = .multiplication ∧ s.desk.held = none ∧ s.signalsOn raw = [] ∧
          ∃ sight ∈ sights board.stores (ticksOf raw), sight.Overpriced {}) ∧
      (∀ abort, answer = .aborted abort → ∃ t ∈ heard steps ++ ticksOf raw,
        overflow ≤ |({} : Config.Momentum).gainRatio.value * t.openPrice.value|) ∧
      ((∀ abort, answer ≠ .aborted abort) → answer = .applied (ticksOf raw).length ∨
        answer = .refused .decode ∨ answer = .refused .emptyBatch) := by
  intro s answer board hboard
  have hs : Attended aggregation (heard steps) s := attended_run hproper hopen steps
  have hcounted : ∀ sight ∈ sights board.stores (ticksOf raw), sight.Counted := fun _ =>
    hs.counted hboard (List.forall_mem_append.2 ⟨fun _ => sized_of_heard,
      fun _ ht => (of_mem_ticksOf ht).2⟩)
  have hiff : ∀ abort, answer = .aborted abort ↔
      abort = .multiplication ∧ s.desk.held = none ∧ s.signalsOn raw = [] ∧
        ∃ sight ∈ sights board.stores (ticksOf raw), sight.Overpriced {} := by
    intro abort
    rcases message_cases hboard (hs.alone board hboard) raw with ⟨hnone, hrefused⟩ | happlied
    · rw [hnone]
      rcases hrefused with hr | hr <;> simp [answer, answerTo, hr, sights]
    · have herror : (applyAll react deskAlone (ticksOf raw) ⟨board, s.desk⟩).2.2 =
          .error abort ↔ _ :=
        applyAll_error_iff (hs.rule.symm ▸ sober_default) (hs.proper hproper hboard) hcounted
      simp only [hs.rule] at herror
      simp only [answer, answerTo, signalsOn, happlied, ← herror]
      cases (applyAll react deskAlone (ticksOf raw) ⟨board, s.desk⟩).2.2 with
      | ok u => simp
      | error a => simp
  refine ⟨hiff, fun abort haborted => ?_, fun hnot => ?_⟩
  · obtain ⟨-, -, -, sight, hsight, hover⟩ := (hiff abort).1 haborted
    exact hs.overpriced hboard hsight hover
  · rcases message_cases hboard (hs.alone board hboard) raw with ⟨-, hr | hr⟩ | happlied
    · exact Or.inr (Or.inl (by simp only [answer, answerTo, hr]))
    · exact Or.inr (Or.inr (by simp only [answer, answerTo, hr]))
    · refine Or.inl ?_
      simp only [answer, answerTo, happlied] at hnot ⊢
      cases hdone : (applyAll react deskAlone (ticksOf raw) ⟨board, s.desk⟩).2.2 with
      | ok u => rfl
      | error a =>
        rw [hdone] at hnot
        exact absurd rfl (hnot a)

end Session

end

namespace Session

attribute [local instance] TimeZones.table

/-- An aggregate of ten past nine in New York, at an open. -/
def recordAt (opening : String) : String :=
  "[\x7b\"ev\":\"A\",\"sym\":\"SPCE\",\"v\":4000,\"av\":9,\"op\":2,\"vw\":2,\"o\":\"" ++ opening ++
    "\",\"c\":13,\"h\":13,\"l\":10,\"s\":1610115000000,\"e\":1610115001000\x7d]"

/-- The greatest decimal as an open, after a tick that is no entry. -/
theorem message_aborted_greatest :
    let raw := recordAt "79228162514264337593543950335"
    let s₀ : Session := { board := some (.ofConfig {}), desk := { rule := {} } }
    let s := s₀.run [.watch, .message (recordAt "12")]
    Config.Aggregation.Proper {} ∧ Session.open? {} {} = .ok s₀ ∧
      ∃ board, s.board = some board ∧
        (s.answerTo raw = .aborted .multiplication ↔ s.desk.held = none ∧
          s.signalsOn raw = [] ∧
            ∃ sight ∈ sights board.stores (ticksOf raw), sight.Overpriced {}) := by
  intro raw s₀ s
  have hproper : Config.Aggregation.Proper {} := by decide
  have hopen : Session.open? {} {} = .ok s₀ := rfl
  have hsome : s.board.isSome := by decide +kernel
  obtain ⟨board, hboard⟩ := Option.isSome_iff_exists.1 hsome
  refine ⟨hproper, hopen, board, hboard, ?_⟩
  have hiff := (message_aborted_iff hproper hopen [.message (recordAt "12")] raw board hboard).1
    .multiplication
  simpa only [s, true_and] using hiff

/-- That no message is given up does not hold: the greatest decimal as an open has no multiple. -/
theorem message_given_up :
    ¬ ∀ (aggregation : Config.Aggregation) (s₀ : Session) (raws : List String) (raw : String)
      (abort : Abort), aggregation.validate = .ok () → Session.open? aggregation {} = .ok s₀ →
        (s₀.run (.watch :: raws.map .message)).answerTo raw ≠ .aborted abort := by
  intro h
  have haborted : (Session.run { board := some (.ofConfig {}), desk := { rule := {} } }
      (.watch :: ([] : List String).map .message)).answerTo
        (recordAt "79228162514264337593543950335") = .aborted .multiplication := by
    decide +kernel
  exact h _ _ _ _ _ (by decide) rfl haborted

end Session

end TapeReader.Momentum

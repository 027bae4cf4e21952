import TapeReader.Proofs.Board.Fanout
import TapeReader.Proofs.Momentum.Entry
import TapeReader.Proofs.Momentum.Position
import TapeReader.Proofs.Roster

/-!
# Boards that a desk watches

* `sightOf`: what there is to see of a ticker in some stores.
* `apply_eq`, `applyAll_board`: ticks on a board that only a desk watches. Every store is fed, and
  nothing else of the board changes.
* `Session.message_cases`: a message is refused, or its ticks are applied.
* `Session.attended_run`: **whatever is done to a session, a desk that has begun to watch its board
  goes on with the rule it was opened with, and the stores have been fed ticks that came in.**
-/

namespace TapeReader.Momentum

open Board

/-- What is seen of a ticker in some stores. -/
def sightOf (stores : PerResolution Store) (ticker : String) : Sight where
  tens := (stores.get .tenSeconds).history ticker
  minutes := (stores.get .oneMinute).history ticker

/-- The entries of a board that a desk watches, and no one else. -/
def deskAlone : List (String × DeskWatcher) := [(Desk.watcherName, .desk)]

variable [TimeZones] {w : World DeskWatcher Desk} {ticks : List Tick}

theorem react_eq (ticker : String) (w : World DeskWatcher Desk) :
    react .desk ticker w =
      let sight := sightOf w.board.stores ticker
      ({ w with around := (w.around.look ticker sight).1 }, (w.around.look ticker sight).2) := rfl

/-- **A tick on a board**: every store is fed, and the desk looks at its ticker. -/
theorem apply_eq (hw : Proper w.board.stores) (t : Tick) :
    apply react deskAlone t w =
      let fed := feedAll w.board.stores t
      match w.around.look t.ticker (sightOf fed t.ticker) with
      | (desk, .ok note) =>
        (⟨{ w.board with stores := fed }, desk⟩, [⟨Desk.watcherName, t.ticker, note⟩], .ok ())
      | (desk, .error a) => (⟨{ w.board with stores := fed }, desk⟩, [], .error a) := by
  unfold apply
  rw [offer_all hw]
  dsimp only
  unfold deskAlone notify
  rw [react_eq]
  dsimp only
  cases w.around.look t.ticker (sightOf (feedAll w.board.stores t) t.ticker) with
  | mk desk answer => cases answer <;> rfl

/-- **Nothing but the stores of a board changes**, and these are fed the ticks up to where they are
given up. -/
theorem applyAll_board (hw : Proper w.board.stores) (ticks : List Tick) :
    ∃ fed, fed ⊆ ticks ∧ (applyAll react deskAlone ticks w).1.board =
      { w.board with stores := fed.foldl feedAll w.board.stores } := by
  induction ticks generalizing w with
  | nil => exact ⟨[], by simp, rfl⟩
  | cons t rest ih =>
    unfold applyAll
    rw [apply_eq hw t]
    dsimp only
    cases w.around.look t.ticker (sightOf (feedAll w.board.stores t) t.ticker) with
    | mk desk answer =>
      cases answer with
      | error a => exact ⟨[t], by simp, rfl⟩
      | ok note =>
        obtain ⟨fed, hsub, hboard⟩ :=
          ih (w := ⟨{ w.board with stores := feedAll w.board.stores t }, desk⟩) (hw.feedAll t)
        exact ⟨t :: fed, List.cons_subset_cons t hsub, hboard⟩

/-! ## Sessions -/

namespace Session

/-- The ticks that a step brings. -/
def heardIn : Step → List Tick
  | .message raw => ticksOf raw
  | _ => []

/-- The ticks that some steps bring. -/
def heard (steps : List Step) : List Tick := steps.flatMap heardIn

omit [TimeZones] in
/-- The ticks that come in have 64 bits. -/
theorem sized_of_heard {steps : List Step} {t : Tick} (h : t ∈ heard steps) : t.Sized := by
  obtain ⟨step, -, ht⟩ := List.mem_flatMap.1 h
  cases step with
  | message raw => exact (of_mem_ticksOf ht).2
  | _ => cases ht

/-- A session that a desk with the default rule watches. Its stores are those of a configuration, fed
some of the ticks that have come in. -/
structure Attended (aggregation : Config.Aggregation) (ticks : List Tick) (s : Session) : Prop where
  rule : s.desk.rule = {}
  alone : ∀ board, s.board = some board → board.watchers.entries = deskAlone
  fed : ∀ board, s.board = some board → ∃ fed, fed ⊆ ticks ∧
    board.stores = fed.foldl feedAll (ofConfig aggregation : Board DeskWatcher).stores

variable {aggregation : Config.Aggregation} {s s₀ : Session}

omit [TimeZones] in
theorem proper_fed (hproper : aggregation.Proper) (fed : List Tick) :
    Proper (fed.foldl feedAll (ofConfig aggregation : Board DeskWatcher).stores) := by
  induction fed using List.reverseRecOn with
  | nil => exact proper_ofConfig hproper
  | append_singleton fed t ih =>
    rw [List.foldl_concat]
    exact ih.feedAll t

theorem Attended.proper (h : Attended aggregation ticks s) (hproper : aggregation.Proper)
    {board : Board DeskWatcher} (hboard : s.board = some board) : Proper board.stores := by
  obtain ⟨fed, -, hstores⟩ := h.fed board hboard
  rw [hstores]
  exact proper_fed hproper fed

omit [TimeZones] in
theorem clear_fed (stores : PerResolution Store) (fed : List Tick) :
    (fed.foldl feedAll stores).map Store.clear = stores.map Store.clear := by
  have hfeed : ∀ (s : Store) (t : Tick), (s.feed t).clear = s.clear := by
    intro s t
    unfold Store.feed
    cases h : s.add t with
    | error r => rfl
    | ok r =>
      obtain ⟨s', closed⟩ := r
      obtain ⟨_, -, rfl⟩ := Store.add_eq_ok_iff.1 h
      rfl
  induction fed generalizing stores with
  | nil => rfl
  | cons t fed ih =>
    rw [List.foldl_cons, ih]
    simp only [feedAll, PerResolution.map, hfeed]

/-- The answer to a message whose ticks have been applied. -/
def answerOf (raw : String) : Except Abort Unit → Answer
  | .error a => .aborted a
  | .ok () =>
    match counted raw with
    | .ok ticks => .applied ticks
    | .error .decode => .refused .decode
    | .error .emptyBatch => .refused .emptyBatch
    | .error (.abort a) => .aborted a

/-- A message to a session with a board is its ticks applied. -/
theorem message_eq {board : Board DeskWatcher} (hboard : s.board = some board) (raw : String) :
    let applied := applyAll react board.watchers.entries (ticksOf raw) ⟨board, s.desk⟩
    s.message raw = ({ board := some applied.1.board, desk := applied.1.around },
      signalsOf applied.2.1, answerOf raw applied.2.2) := by
  unfold message
  simp only [hboard, receive_eq]
  cases (applyAll react board.watchers.entries (ticksOf raw) ⟨board, s.desk⟩).2.2 with
  | error a => rfl
  | ok u =>
    unfold answerOf
    rcases counted raw with (_ | _ | a) | ticks <;> rfl

/-- None of some messages in turn is given up. -/
def NoneGivenUp (s : Session) : List String → Prop
  | [] => True
  | raw :: rest => (∀ a, (s.message raw).2.2 ≠ .aborted a) ∧ NoneGivenUp (s.message raw).1 rest

/-- **A message to a board that a desk watches** is refused, or its ticks are applied. -/
theorem message_cases {board : Board DeskWatcher} (hboard : s.board = some board)
    (halone : board.watchers.entries = deskAlone) (raw : String) :
    (ticksOf raw = [] ∧ (s.message raw = (s, [], .refused .decode) ∨
      s.message raw = (s, [], .refused .emptyBatch))) ∨
    let applied := applyAll react deskAlone (ticksOf raw) ⟨board, s.desk⟩
    s.message raw = ({ board := some applied.1.board, desk := applied.1.around },
      signalsOf applied.2.1,
      match applied.2.2 with
      | .ok () => .applied (ticksOf raw).length
      | .error a => .aborted a) := by
  have hmessage := message_eq hboard raw
  rw [halone] at hmessage
  rcases counted_cases raw with hok | ⟨hnone, hrefused⟩
  · refine Or.inr (hmessage.trans ?_)
    unfold answerOf
    rw [hok]
    cases (applyAll react deskAlone (ticksOf raw) ⟨board, s.desk⟩).2.2 <;> rfl
  · refine Or.inl ⟨hnone, ?_⟩
    have hself : ({ board := some board, desk := s.desk } : Session) = s := by rw [← hboard]
    have hanswer : s.message raw = (s, [], answerOf raw (.ok ())) := by
      rw [hmessage, hnone]
      exact congrArg (·, [], answerOf raw (.ok ())) hself
    rw [hanswer]
    unfold answerOf
    rcases hrefused with h | h
    · exact Or.inl (by rw [h])
    · exact Or.inr (by rw [h])

/-- A step keeps the rule of the desk. -/
theorem step_rule (s : Session) (step : Step) : (s.step step).1.desk.rule = s.desk.rule := by
  rcases s.step_gives step with ⟨-, -, hdesk⟩ | ⟨-, -, hdesk⟩ | ⟨-, -, hgives⟩
  · rw [hdesk]; rfl
  · rw [hdesk]; rfl
  · rcases hgives.cases with ⟨-, hdesk⟩ | ⟨_, -, -, -, hdesk⟩ <;> rw [hdesk]

/-- A step that leaves the board alone keeps a session attended. -/
theorem Attended.of_board (h : Attended aggregation ticks s) {step : Step}
    (hboard : (s.step step).1.board = s.board) :
    Attended aggregation (ticks ++ heardIn step) (s.step step).1 where
  rule := (s.step_rule step).trans h.rule
  alone board hb := h.alone board (hboard ▸ hb)
  fed board hb := by
    obtain ⟨fed, hsub, hstores⟩ := h.fed board (hboard ▸ hb)
    exact ⟨fed, List.subset_append_of_subset_left _ hsub, hstores⟩

/-- The desk watches already, and is not registered once more. -/
theorem Attended.watch_board (h : Attended aggregation ticks s) :
    (s.step .watch).1.board = s.board := by
  unfold Session.step Session.watch
  cases hb : s.board with
  | none => exact hb
  | some board =>
    have hmem : Desk.watcherName ∈ board.watchers.names := by
      rw [Roster.names, h.alone board hb]
      simp [deskAlone]
    have htaken : board.register Desk.watcherName .desk = .error (.taken Desk.watcherName) := by
      rw [Board.register, Roster.register_of_mem hmem]
      rfl
    simp only [htaken, hb]

theorem Attended.message (h : Attended aggregation ticks s) (hproper : aggregation.Proper)
    (raw : String) :
    Attended aggregation (ticks ++ ticksOf raw) (s.message raw).1 := by
  cases hb : s.board with
  | none =>
    have hsame : (s.step (.message raw)).1.board = s.board := by
      show (s.message raw).1.board = s.board
      unfold Session.message
      rw [hb]
      exact hb
    exact h.of_board hsame
  | some board =>
    rcases message_cases hb (h.alone board hb) raw with ⟨-, hrefused⟩ | happlied
    · have hsame : (s.step (.message raw)).1.board = s.board := by
        show (s.message raw).1.board = s.board
        rcases hrefused with hr | hr <;> rw [hr]
      exact h.of_board hsame
    · -- what has been fed so far, and the ticks of the message up to where they are given up
      obtain ⟨before, hbefore, hstores⟩ := h.fed board hb
      obtain ⟨fed, hsub, hboard⟩ := applyAll_board (w := ⟨board, s.desk⟩)
        (h.proper hproper hb) (ticksOf raw)
      have hnow : (s.message raw).1.board =
          some { board with stores := fed.foldl feedAll board.stores } := by
        rw [happlied, hboard]
      refine ⟨(s.step_rule (.message raw)).trans h.rule, fun b hb' => ?_, fun b hb' => ?_⟩
      · obtain rfl := Option.some.inj (hnow.symm.trans hb')
        exact h.alone board hb
      · obtain rfl := Option.some.inj (hnow.symm.trans hb')
        refine ⟨before ++ fed, List.append_subset.2
          ⟨List.subset_append_of_subset_left _ hbefore,
            List.subset_append_of_subset_right _ hsub⟩, ?_⟩
        rw [List.foldl_append, ← hstores]

/-- **Every step keeps a session attended.** -/
theorem Attended.step (h : Attended aggregation ticks s) (hproper : aggregation.Proper)
    (step : Step) :
    Attended aggregation (ticks ++ heardIn step) (s.step step).1 := by
  cases step with
  | message raw => exact h.message hproper raw
  | watch => exact h.of_board h.watch_board
  | entry ticker =>
    refine h.of_board ?_
    unfold Session.step
    dsimp only
    cases s.isEntryPoint ticker <;> rfl
  | release => exact h.of_board rfl
  | closeReceiver => exact h.of_board rfl
  | dropBoard => exact ⟨h.rule, nofun, nofun⟩
  | clear =>
    cases hboard : s.board with
    | none =>
      refine h.of_board ?_
      unfold Session.step
      simp only [hboard]
    | some board =>
      have hnow : (s.step .clear).1.board = some board.clear := by
        unfold Session.step
        simp only [hboard]
      refine ⟨(s.step_rule .clear).trans h.rule, fun b hb => ?_, fun b hb => ?_⟩
      · obtain rfl := Option.some.inj (hnow.symm.trans hb)
        exact h.alone board hboard
      · obtain rfl := Option.some.inj (hnow.symm.trans hb)
        obtain ⟨fed, -, hstores⟩ := h.fed board hboard
        refine ⟨[], by simp, ?_⟩
        show board.stores.map Store.clear = _
        rw [hstores, clear_fed]
        rfl

/-- A session opened with the default rule is attended from the first watch on. -/
theorem attended_run (hproper : aggregation.Proper)
    (hopen : Session.open? aggregation {} = .ok s₀) (steps : List Step) :
    Attended aggregation (heard steps) (s₀.run (.watch :: steps)) := by
  induction steps using List.reverseRecOn with
  | nil =>
    -- the first watch finds the roster empty
    obtain rfl := (Except.ok.inj hopen).symm
    refine ⟨rfl, fun board hb => ?_, fun board hb => ⟨[], by simp, ?_⟩⟩
    · obtain rfl := (Option.some.inj hb).symm
      rfl
    · obtain rfl := (Option.some.inj hb).symm
      rfl
  | append_singleton steps step ih =>
    rw [← List.cons_append, run_concat]
    have hheard : heard (steps ++ [step]) = heard steps ++ heardIn step := by simp [heard]
    rw [hheard]
    exact ih.step hproper step

end Session

end TapeReader.Momentum

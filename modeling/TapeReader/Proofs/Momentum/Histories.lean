import TapeReader.Clock.Table
import TapeReader.Proofs.Board.Calls
import TapeReader.Proofs.Momentum.Attended
import TapeReader.Proofs.Momentum.Lookback

/-!
# Desks and whole histories

A desk sees the newest bars of a ticker, as many as its board keeps. Six are enough for it.

* `Deep`: boards with the usual windows that keep six bars or more.
* `wholeSight`: what there would be to see if nothing were ever dropped.
* `Session.callsOn`: what the stores of a session are called with in some steps.
* `Session.within_callsOn`: they are within the range of the windows, when the ticks that come in are.
* `Alike`, `Session.Alike`: two boards with the same watchers whose stores have been called with the
  same; they go on alike.
* `Session.isEntryPoint_whole`: **a desk finds the entries that are there in whole histories**, and
  it makes no difference how many bars are kept.
-/

namespace TapeReader.Momentum

open Board History

/-- Windows of the usual lengths, and room for six bars or more. -/
structure Deep (aggregation : Config.Aggregation) : Prop where
  secs : aggregation.resolutionsSecs = ⟨1, 10, 60, 300⟩
  room : 6 ≤ aggregation.historyLen

variable {aggregation aggregation' : Config.Aggregation} {stores : PerResolution Store}
  {calls : List Call} {ticker : String}

/-- No window of a usual length comes out with length zero. -/
theorem proper_usual (hsecs : aggregation.resolutionsSecs = ⟨1, 10, 60, 300⟩) : aggregation.Proper := by
  unfold Config.Aggregation.Proper
  rw [hsecs]
  decide

theorem Deep.historyLen_pos (h : Deep aggregation) : 1 ≤ aggregation.historyLen :=
  le_trans (by decide) h.room

/-- The whole histories of a ticker, after some calls. -/
def wholeSight (calls : List Call) (ticker : String) : Sight where
  tens := Store.whole tenSeconds calls ticker
  minutes := Store.whole oneMinute calls ticker

/-- The stores of a board for a configuration, called with calls in turn. -/
def called (aggregation : Config.Aggregation) (calls : List Call) : PerResolution Store :=
  calls.foldl callAll (ofConfig aggregation : Board DeskWatcher).stores

/-! ## One board -/

theorem sightOf_called (h : Deep aggregation) (calls : List Call) (ticker : String) :
    sightOf (called aggregation calls) ticker =
      { tens := (wholeSight calls ticker).tens.take aggregation.historyLen
        minutes := (wholeSight calls ticker).minutes.take aggregation.historyLen } := by
  have hfront := history_eq_take_whole (b := ⟨called aggregation calls, {}⟩) h.historyLen_pos rfl
  have htens := hfront .tenSeconds ticker
  have hminutes := hfront .oneMinute ticker
  rw [h.secs] at htens hminutes
  unfold sightOf
  exact congrArg₂ Sight.mk htens hminutes

section Range

variable (hcalls : ∀ c ∈ calls, c.Within oneMinute) (ticker : String)

include hcalls

/-- Ten seconds are within range where minutes are. -/
theorem laid_tens : Laid tenSeconds (wholeSight calls ticker).tens :=
  Store.laid_whole tenSeconds_inRange (fun c hc => (hcalls c hc).of_le (by decide)) ticker

theorem laid_minutes : Laid oneMinute (wholeSight calls ticker).minutes :=
  Store.laid_whole oneMinute_inRange hcalls ticker

theorem holds_minutes :
    ∀ minute ∈ (wholeSight calls ticker).minutes.head?, oneMinute.Holds minute.start :=
  fun minute hminute => Store.holds_of_mem oneMinute_inRange calls.length hcalls ticker minute
    (List.mem_of_mem_head? hminute)

variable [TimeZones]

/-- **The rule finds in the newest bars what it would find in all of them.** -/
theorem isEntryPoint_called (h : Deep aggregation) (rule : Config.Momentum)
    (hsum : ∀ minute ∈ (wholeSight calls ticker).minutes.head?,
      Signed (lastVolume (wholeSight calls ticker).minutes minute)) :
    let sight := sightOf (called aggregation calls) ticker
    let whole := wholeSight calls ticker
    Answers (isEntryPoint rule sight.tens sight.minutes) (Entry rule whole.tens whole.minutes)
      (Overflows rule whole.tens whole.minutes) := by
  intro sight whole
  simp only [sight, sightOf_called h]
  exact isEntryPoint_take (laid_tens hcalls ticker) (laid_minutes hcalls ticker) h.room
    (holds_minutes hcalls ticker) hsum

/-- It makes no difference to the rule how many bars are kept. -/
theorem isEntryPoint_called_eq (h : Deep aggregation) (h' : Deep aggregation')
    (rule : Config.Momentum) :
    let sight := sightOf (called aggregation calls) ticker
    let sight' := sightOf (called aggregation' calls) ticker
    isEntryPoint rule sight'.tens sight'.minutes = isEntryPoint rule sight.tens sight.minutes := by
  intro sight sight'
  simp only [sight, sight', sightOf_called h, sightOf_called h']
  exact isEntryPoint_take_eq (laid_tens hcalls ticker) (laid_minutes hcalls ticker)
    (holds_minutes hcalls ticker) h'.room h.room

/-- A desk does with six bars of a ticker what it does with more. -/
theorem look_called (h : Deep aggregation) (h' : Deep aggregation') (d : Desk) :
    d.look ticker (sightOf (called aggregation' calls) ticker) =
      d.look ticker (sightOf (called aggregation calls) ticker) := by
  have hrule := isEntryPoint_called_eq hcalls ticker h h' d.rule
  have hroom := h.room
  have hroom' := h'.room
  have hhead : (sightOf (called aggregation' calls) ticker).tens.head? =
      (sightOf (called aggregation calls) ticker).tens.head? := by
    rw [sightOf_called h, sightOf_called h', List.head?_take, List.head?_take, if_neg (by omega),
      if_neg (by omega)]
  unfold Desk.look Desk.update Desk.signal?
  rw [hrule, hhead]

end Range

/-! ## Two boards -/

section

variable [TimeZones]

/-- Two boards that a desk watches: their watchers and their desks are one and the same, and their
stores have been called with one and the same, but the configurations may keep more bars or fewer. -/
structure Alike (aggregation aggregation' : Config.Aggregation) (calls : List Call)
    (w w' : World DeskWatcher Desk) : Prop where
  around : w'.around = w.around
  watchers : w'.board.watchers = w.board.watchers
  stores : w.board.stores = called aggregation calls
  stores' : w'.board.stores = called aggregation' calls

/-- The same has come of two boards, and they go on alike. -/
def Agree {α : Type} (aggregation aggregation' : Config.Aggregation) (calls : List Call)
    (x x' : World DeskWatcher Desk × α) : Prop :=
  ∃ w w' result, x = (w, result) ∧ x' = (w', result) ∧ Alike aggregation aggregation' calls w w'

variable {w w' : World DeskWatcher Desk}

theorem react_alike (hcalls : ∀ c ∈ calls, c.Within oneMinute) (h : Deep aggregation)
    (h' : Deep aggregation') (ha : Alike aggregation aggregation' calls w w') (watcher : DeskWatcher)
    (ticker : String) :
    Agree aggregation aggregation' calls (react watcher ticker w) (react watcher ticker w') := by
  have hlook : w'.around.look ticker (sightOf w'.board.stores ticker) =
      w.around.look ticker (sightOf w.board.stores ticker) := by
    rw [ha.around, ha.stores, ha.stores']
    exact look_called hcalls ticker h h' w.around
  cases watcher with
  | desk =>
    rw [react_eq, react_eq]
    dsimp only
    rw [hlook]
    exact ⟨_, _, _, rfl, rfl, rfl, ha.watchers, ha.stores, ha.stores'⟩

theorem notify_alike (hcalls : ∀ c ∈ calls, c.Within oneMinute) (h : Deep aggregation)
    (h' : Deep aggregation') (ha : Alike aggregation aggregation' calls w w') (ticker : String)
    (told : List (String × DeskWatcher)) :
    Agree aggregation aggregation' calls (notify react ticker told w)
      (notify react ticker told w') := by
  induction told generalizing w w' with
  | nil => exact ⟨w, w', _, rfl, rfl, ha⟩
  | cons entry rest ih =>
    obtain ⟨name, watcher⟩ := entry
    obtain ⟨v, v', result, hr, hr', hnext⟩ := react_alike hcalls h h' ha watcher ticker
    unfold notify
    rw [hr, hr']
    cases result with
    | error a => exact ⟨v, v', _, rfl, rfl, hnext⟩
    | ok note =>
      obtain ⟨u, u', rest, hrest, hrest', hlast⟩ := ih hnext
      dsimp only
      rw [hrest, hrest']
      exact ⟨u, u', _, rfl, rfl, hlast⟩

omit [TimeZones] in
theorem within_concat {w : Window} (hcalls : ∀ c ∈ calls, c.Within w) {t : Tick} (ht : t.Within w) :
    ∀ c ∈ calls ++ [.add t], c.Within w := by
  refine List.forall_mem_append.2 ⟨hcalls, fun c hc => ?_⟩
  rw [List.mem_singleton.1 hc]
  exact ht

/-- **A tick on two boards.** -/
theorem apply_alike (hcalls : ∀ c ∈ calls, c.Within oneMinute) (h : Deep aggregation)
    (h' : Deep aggregation') (ha : Alike aggregation aggregation' calls w w')
    (told : List (String × DeskWatcher)) {t : Tick} (ht : t.Within oneMinute) :
    Agree aggregation aggregation' (calls ++ [.add t]) (apply react told t w)
      (apply react told t w') := by
  have hproper : ∀ {aggregation : Config.Aggregation}, Deep aggregation →
      Proper (called aggregation calls) := fun h =>
    (proper_ofConfig (proper_usual h.secs)).callAll calls
  unfold apply
  rw [ha.stores, ha.stores', offer_all (hproper h), offer_all (hproper h')]
  refine notify_alike (within_concat hcalls ht) h h' ?_ t.ticker told
  exact {
    around := ha.around
    watchers := ha.watchers
    stores := foldl_callAll_feedAll _ calls t
    stores' := foldl_callAll_feedAll _ calls t }

theorem applyAll_alike (hcalls : ∀ c ∈ calls, c.Within oneMinute) (h : Deep aggregation)
    (h' : Deep aggregation') (ha : Alike aggregation aggregation' calls w w')
    (told : List (String × DeskWatcher)) {ticks : List Tick} (hticks : ∀ t ∈ ticks, t.Within oneMinute) :
    Agree aggregation aggregation' (calls ++ (fedBy react told ticks w).map .add)
      (applyAll react told ticks w) (applyAll react told ticks w') := by
  induction ticks generalizing calls w w' with
  | nil =>
    unfold fedBy
    rw [List.map_nil, List.append_nil]
    exact ⟨w, w', _, rfl, rfl, ha⟩
  | cons t rest ih =>
    obtain ⟨ht, hrest⟩ := List.forall_mem_cons.1 hticks
    obtain ⟨v, v', ⟨notices, done⟩, hr, hr', hnext⟩ := apply_alike hcalls h h' ha told ht
    unfold applyAll fedBy
    rw [hr, hr']
    cases done with
    | error a => exact ⟨v, v', _, rfl, rfl, hnext⟩
    | ok u =>
      obtain ⟨u, u', last, hlast, hlast', hend⟩ :=
        ih (within_concat hcalls ht) hnext hrest
      dsimp only
      rw [hlast, hlast', List.map_cons, ← List.append_cons] at *
      exact ⟨u, u', _, rfl, rfl, hend⟩

/-! ## Sessions -/

namespace Session

variable {s s' s₀ : Session}

/-- What a step calls the stores with. -/
def callsIn (s : Session) : Step → List Call
  | .message raw =>
    match s.board with
    | none => []
    | some board =>
      (fedBy react board.watchers.entries (ticksOf raw) ⟨board, s.desk⟩).map .add
  | .clear => [.clear]
  | _ => []

/-- What some steps call the stores with. -/
def callsOn (s : Session) : List Step → List Call
  | [] => []
  | step :: rest => s.callsIn step ++ callsOn (s.step step).1 rest

/-- The stores are called with ticks that come in. -/
theorem within_callsIn {w : Window} {step : Step} (h : ∀ t ∈ heardIn step, t.Within w) :
    ∀ c ∈ s.callsIn step, c.Within w := by
  cases step with
  | message raw =>
    unfold callsIn
    cases s.board with
    | none => simp
    | some board =>
      refine List.forall_mem_map.2 fun t ht => h t ?_
      exact (fedBy_isPrefix react _ (ticksOf raw) _).subset ht
  | clear => exact List.forall_mem_singleton.2 trivial
  | _ => simp [callsIn]

theorem within_callsOn {w : Window} {steps : List Step} (h : ∀ t ∈ heard steps, t.Within w) :
    ∀ c ∈ s.callsOn steps, c.Within w := by
  induction steps generalizing s with
  | nil => simp [callsOn]
  | cons step rest ih =>
    rw [heard, List.flatMap_cons] at h
    obtain ⟨hfirst, hrest⟩ := List.forall_mem_append.1 h
    exact List.forall_mem_append.2 ⟨within_callsIn hfirst, ih hrest⟩

/-- Two sessions that have been called with one and the same, as long as there are boards. -/
inductive Alike (aggregation aggregation' : Config.Aggregation) (calls : List Call) :
    Session → Session → Prop
  | gone {desk : Desk} : Alike aggregation aggregation' calls ⟨none, desk⟩ ⟨none, desk⟩
  | there {board board' : Board DeskWatcher} {desk : Desk}
      (ha : Momentum.Alike aggregation aggregation' calls ⟨board, desk⟩ ⟨board', desk⟩) :
      Alike aggregation aggregation' calls ⟨some board, desk⟩ ⟨some board', desk⟩

theorem isEntryPoint_alike (hcalls : ∀ c ∈ calls, c.Within oneMinute) (h : Deep aggregation)
    (h' : Deep aggregation') (ha : Alike aggregation aggregation' calls s s') (ticker : String) :
    s'.isEntryPoint ticker = s.isEntryPoint ticker := by
  cases ha with
  | gone => rfl
  | @there board board' desk ha =>
    have hstores : board.stores = called aggregation calls := ha.stores
    have hstores' : board'.stores = called aggregation' calls := ha.stores'
    have hrule := isEntryPoint_called_eq hcalls ticker h h' desk.rule
    rw [← hstores, ← hstores'] at hrule
    exact hrule

/-- **A step on two boards**: the same is signalled and answered. -/
theorem step_alike (hcalls : ∀ c ∈ calls, c.Within oneMinute) (h : Deep aggregation)
    (h' : Deep aggregation') (ha : Alike aggregation aggregation' calls s s') {step : Step}
    (hticks : ∀ t ∈ heardIn step, t.Within oneMinute) :
    Alike aggregation aggregation' (calls ++ s.callsIn step) (s.step step).1 (s'.step step).1 ∧
      (s'.step step).2 = (s.step step).2 := by
  have hentry := isEntryPoint_alike hcalls h h' ha
  cases ha with
  | @gone desk => cases step <;> exact ⟨.gone, rfl⟩
  | @there board board' desk ha =>
    have hwatchers : board'.watchers = board.watchers := ha.watchers
    cases step with
    | watch =>
      simp only [callsIn, List.append_nil, Session.step, Session.watch, Board.register, hwatchers]
      cases board.watchers.register Desk.watcherName .desk with
      | error fault => exact ⟨.there ha, rfl⟩
      | ok watchers => exact ⟨.there ⟨rfl, rfl, ha.stores, ha.stores'⟩, rfl⟩
    | entry ticker =>
      simp only [callsIn, List.append_nil, Session.step, hentry ticker]
      cases isEntryPoint ⟨some board, desk⟩ ticker <;> exact ⟨.there ha, rfl⟩
    | release =>
      have hnone : calls ++ callsIn ⟨some board, desk⟩ .release = calls := List.append_nil calls
      rw [hnone]
      exact ⟨.there ⟨rfl, ha.watchers, ha.stores, ha.stores'⟩, rfl⟩
    | closeReceiver =>
      have hnone : calls ++ callsIn ⟨some board, desk⟩ .closeReceiver = calls := List.append_nil calls
      rw [hnone]
      exact ⟨.there ⟨rfl, ha.watchers, ha.stores, ha.stores'⟩, rfl⟩
    | message raw =>
      have hticks : ∀ t ∈ ticksOf raw, t.Within oneMinute := hticks
      obtain ⟨v, v', result, hr, hr', hend⟩ :=
        applyAll_alike hcalls h h' ha board.watchers.entries hticks
      have hmessage := message_eq (s := ⟨some board, desk⟩) rfl raw
      have hmessage' := message_eq (s := ⟨some board', desk⟩) rfl raw
      rw [hr] at hmessage
      rw [hwatchers, hr'] at hmessage'
      rw [Session.step, Session.step, hmessage, hmessage']
      obtain ⟨bars, desk'⟩ := v
      obtain ⟨bars', desk''⟩ := v'
      obtain rfl : desk'' = desk' := hend.around
      exact ⟨.there hend, rfl⟩
    | dropBoard => exact ⟨.gone, rfl⟩
    | clear =>
      have hcleared : board.stores.map Store.clear = called aggregation (calls ++ [.clear]) := by
        rw [show board.stores = called aggregation calls from ha.stores]
        exact foldl_callAll_clear _ calls
      have hcleared' : board'.stores.map Store.clear = called aggregation' (calls ++ [.clear]) := by
        rw [show board'.stores = called aggregation' calls from ha.stores']
        exact foldl_callAll_clear _ calls
      exact ⟨.there ⟨rfl, ha.watchers, hcleared, hcleared'⟩, rfl⟩

/-- **Steps on two boards.** -/
theorem run_alike (hcalls : ∀ c ∈ calls, c.Within oneMinute) (h : Deep aggregation)
    (h' : Deep aggregation') (ha : Alike aggregation aggregation' calls s s') {steps : List Step}
    (hticks : ∀ t ∈ heard steps, t.Within oneMinute) :
    Alike aggregation aggregation' (calls ++ s.callsOn steps) (s.run steps) (s'.run steps) ∧
      s'.log steps = s.log steps := by
  induction steps generalizing calls s s' with
  | nil =>
    rw [callsOn, List.append_nil]
    exact ⟨ha, rfl⟩
  | cons step rest ih =>
    rw [heard, List.flatMap_cons] at hticks
    obtain ⟨hfirst, hrest⟩ := List.forall_mem_append.1 hticks
    obtain ⟨hnext, hsame⟩ := step_alike hcalls h h' ha hfirst
    obtain ⟨hlast, hlog⟩ :=
      ih (List.forall_mem_append.2 ⟨hcalls, within_callsIn hfirst⟩) hnext hrest
    rw [List.append_assoc] at hlast
    have hdeeds : s'.deedsOf step = s.deedsOf step := by
      unfold deedsOf
      rw [hsame]
    refine ⟨hlast, ?_⟩
    rw [log, log, hlog, hdeeds]

/-- The rule of a session with a board, on whole histories. -/
theorem Alike.answers (hcalls : ∀ c ∈ calls, c.Within oneMinute) (h : Deep aggregation)
    (ha : Alike aggregation aggregation' calls s s') (hboard : s.board ≠ none) (ticker : String)
    (hsum : ∀ minute ∈ (wholeSight calls ticker).minutes.head?,
      Signed (lastVolume (wholeSight calls ticker).minutes minute)) :
    let whole := wholeSight calls ticker
    Answers (s.isEntryPoint ticker) (Entry s.desk.rule whole.tens whole.minutes)
      (Overflows s.desk.rule whole.tens whole.minutes) := by
  cases ha with
  | gone => exact absurd rfl hboard
  | @there board board' desk ha =>
    have hanswers := isEntryPoint_called hcalls ticker h desk.rule hsum
    have hstores : board.stores = called aggregation calls := ha.stores
    rw [← hstores] at hanswers
    exact hanswers

theorem run_rule (s : Session) (steps : List Step) : (s.run steps).desk.rule = s.desk.rule := by
  induction steps generalizing s with
  | nil => rfl
  | cons step rest ih => exact (ih (s.step step).1).trans (s.step_rule step)

/-- Messages that are not given up call the stores with their ticks. -/
theorem callsOn_messages {board : Board DeskWatcher} (hboard : s.board = some board)
    {raws : List String} (hdone : s.NoneGivenUp raws) :
    (s.run (raws.map .message)).board ≠ none ∧
      s.callsOn (raws.map .message) = (raws.flatMap ticksOf).map .add := by
  induction raws generalizing s board with
  | nil => exact ⟨by simp [run, hboard], rfl⟩
  | cons raw rest ih =>
    obtain ⟨hfirst, hdone⟩ := hdone
    have hmessage := message_eq hboard raw
    have hfed : s.callsIn (.message raw) = (ticksOf raw).map .add := by
      unfold callsIn
      simp only [hboard]
      rw [fedBy_eq_self]
      cases hend : (applyAll react board.watchers.entries (ticksOf raw) ⟨board, s.desk⟩).2.2 with
      | ok u => rfl
      | error a =>
        have haborted := congrArg (·.2.2) hmessage
        rw [hend] at haborted
        exact absurd haborted (hfirst a)
    obtain ⟨hthere, hrest⟩ := ih (congrArg (·.1.board) hmessage) hdone
    refine ⟨hthere, ?_⟩
    rw [List.map_cons, callsOn, hfed, List.flatMap_cons, List.map_append, ← hrest]
    rfl

/-- **A desk finds the entries that are there in whole histories.** Its board has windows of the usual
lengths and keeps six bars or more; the rule may be any. After any steps, the rule says yes of a
ticker just when that is an entry on its whole histories, of which nothing was ever dropped, and it
gives up just when it forms a decimal that there is no room for; of the minutes no more than six
count. Messages of which none is given up have called the stores with their ticks, one after the
other. A board that keeps more bars, or fewer, makes no difference to what is signalled, nor to what
the rule says. The ticks that come in are within range, and where the rule is compared with whole
histories, so is the volume of the last minutes. -/
theorem isEntryPoint_whole (h : Deep aggregation) (rule : Config.Momentum) (steps : List Step)
    (hticks : ∀ t ∈ heard steps, t.Within oneMinute) :
    let s₀ : Session := { board := some (ofConfig aggregation), desk := { rule } }
    let s := s₀.run steps
    let tens := fun ticker => Store.whole tenSeconds (s₀.callsOn steps) ticker
    let minutes := fun ticker => Store.whole oneMinute (s₀.callsOn steps) ticker
    (s.board ≠ none → ∀ ticker,
      (∀ minute ∈ (minutes ticker).head?, Signed (lastVolume (minutes ticker) minute)) →
      Answers (s.isEntryPoint ticker) (Entry rule (tens ticker) (minutes ticker))
        (Overflows rule (tens ticker) (minutes ticker))) ∧
    (∀ ticker, ∀ minute ∈ (minutes ticker).head?,
      (lastMinutes (minutes ticker) minute).length ≤ 6) ∧
    (∀ raws, steps = raws.map .message → s₀.NoneGivenUp raws →
      s.board ≠ none ∧ s₀.callsOn steps = (raws.flatMap ticksOf).map .add) ∧
    ∀ aggregation', Deep aggregation' →
      let s₀' : Session := { board := some (ofConfig aggregation'), desk := { rule } }
      s₀'.log steps = s₀.log steps ∧
        ∀ ticker, (s₀'.run steps).isEntryPoint ticker = s.isEntryPoint ticker := by
  intro s₀ s tens minutes
  have hcalls : ∀ c ∈ s₀.callsOn steps, c.Within oneMinute := within_callsOn hticks
  refine ⟨fun hboard ticker hsum => ?_, fun ticker minute _ => ?_, ?_, fun aggregation' h' => ?_⟩
  · have ha : Alike aggregation aggregation [] s₀ s₀ := .there ⟨rfl, rfl, rfl, rfl⟩
    have hrun := (run_alike (by simp) h h ha hticks).1
    have hanswers := hrun.answers hcalls h hboard ticker hsum
    rw [show (s₀.run steps).desk.rule = rule from s₀.run_rule steps] at hanswers
    exact hanswers
  · exact length_lastMinutes_le (laid_minutes hcalls ticker) minute
  · rintro raws rfl hdone
    exact callsOn_messages rfl hdone
  · intro s₀'
    have ha : Alike aggregation aggregation' [] s₀ s₀' := .there ⟨rfl, rfl, rfl, rfl⟩
    obtain ⟨hrun, hlog⟩ := run_alike (by simp) h h' ha hticks
    exact ⟨hlog, isEntryPoint_alike hcalls h h' hrun⟩

end Session

end

namespace Session

attribute [local instance] TimeZones.table

/-- An aggregate of the ticker `SPCE`, at an open and a close. -/
def recordOver (opening closing start stop : String) : String :=
  "[\x7b\"ev\":\"A\",\"sym\":\"SPCE\",\"v\":4000,\"av\":9,\"op\":2,\"vw\":2,\"o\":" ++ opening ++
    ",\"c\":" ++ closing ++ ",\"h\":13,\"l\":10,\"s\":16101150" ++ start ++ ",\"e\":16101150" ++ stop ++
    "\x7d]"

/-- A jump from the open of the ten seconds before, which are filled. -/
theorem isEntryPoint_whole_jump :
    let six : Session :=
      { board := some (ofConfig { historyLen := 6 }), desk := { rule := {} } }
    let thirty : Session :=
      { board := some (ofConfig { historyLen := 30 }), desk := { rule := {} } }
    let steps : List Step := [.watch, .message (recordOver "10" "11" "00000" "10000"),
      .message (recordOver "13" "13" "10000" "11000")]
    let minutes := Store.whole oneMinute (six.callsOn steps) "SPCE"
    (Deep { historyLen := 6 } ∧ Deep { historyLen := 30 } ∧ (six.run steps).board ≠ none ∧
      (∀ t ∈ heard steps, t.Within oneMinute) ∧
      ∀ minute ∈ minutes.head?, Signed (lastVolume minutes minute)) ∧
      Entry {} (Store.whole tenSeconds (six.callsOn steps) "SPCE")
        minutes ∧
      (thirty.run steps).isEntryPoint "SPCE" = .ok true := by
  intro six thirty steps minutes
  have hsix : Deep { historyLen := 6 } := ⟨rfl, le_rfl⟩
  have hthirty : Deep { historyLen := 30 } := ⟨rfl, by decide⟩
  have hyes : (six.run steps).isEntryPoint "SPCE" = .ok true := by decide +kernel
  have hboard : (six.run steps).board ≠ none := by
    intro hnone
    unfold isEntryPoint at hyes
    rw [hnone] at hyes
    cases hyes
  have hticks : ∀ t ∈ heard steps, t.Within oneMinute := by decide +kernel
  have hsum : ∀ minute ∈ minutes.head?, Signed (lastVolume minutes minute) := by decide +kernel
  obtain ⟨hrule, -, -, hbars⟩ := isEntryPoint_whole hsix {} steps hticks
  exact ⟨⟨hsix, hthirty, hboard, hticks, hsum⟩, (hrule hboard "SPCE" hsum).yes.1 hyes,
    ((hbars _ hthirty).2 "SPCE").trans hyes⟩

end Session

end TapeReader.Momentum

import TapeReader.Clock.Table
import TapeReader.Momentum.Desk
import TapeReader.Proofs.Board.Fanout

/-!
# One position at a time

* `Desk.Gives`: what a desk does with one tick or with several: nothing, or one signal while it
  holds no ticker.
* `apply_gives`, `step_gives`: it does so with every tick that a board applies, and in every step of
  a session.
* `Session.log`: the signals of a session, the releases, and the loss of the receiver, in order.
* `Session.one_position`: **a signal is given only while no ticker is held, its ticker is held from
  then on until it is released, and nothing is signalled to no one.**
-/

namespace TapeReader.Momentum

open Board

section

variable [TimeZones] {d d' d₁ d₂ : Desk} {l l' : List Signal} {ticker : String}

/-- What a desk does when it is told of ticks: it stays as it is, or it gives one signal, while it
holds no ticker and someone receives, and holds the signal's ticker from then on. -/
inductive Desk.Gives : Desk → List Signal → Desk → Prop
  | nothing {d : Desk} : Gives d [] d
  | entry {d : Desk} {signal : Signal} (hheld : d.held = none) (hreceiving : d.receiving = true) :
      Gives d [signal] { d with held := some signal.ticker }

theorem Desk.Gives.cases (h : Desk.Gives d l d') :
    l = [] ∧ d' = d ∨ ∃ signal, l = [signal] ∧ d.held = none ∧ d.receiving = true ∧
      d' = { d with held := some signal.ticker } := by
  cases h with
  | nothing => exact Or.inl ⟨rfl, rfl⟩
  | entry hheld hreceiving => exact Or.inr ⟨_, rfl, hheld, hreceiving, rfl⟩

/-- A desk that holds a ticker does nothing. -/
theorem Desk.Gives.eq_of_held (h : Desk.Gives d l d') (hheld : d.held ≠ none) :
    l = [] ∧ d' = d := by
  cases h with
  | nothing => exact ⟨rfl, rfl⟩
  | entry hnone _ => exact absurd hnone hheld

/-- After a signal there is no other. -/
theorem Desk.Gives.trans (h₁ : Desk.Gives d l d₁) (h₂ : Desk.Gives d₁ l' d₂) :
    Desk.Gives d (l ++ l') d₂ := by
  cases h₁ with
  | nothing => exact h₂
  | entry hheld hreceiving =>
    obtain ⟨rfl, rfl⟩ := h₂.eq_of_held (by simp)
    exact .entry hheld hreceiving

/-! ## A tick, a message, a step -/

/-- A signal is for the ticker that the desk was told. -/
theorem Desk.signal?_ticker {tens minutes : History} {signal : Signal}
    (h : d.signal? ticker tens minutes = .ok (some signal)) : signal.ticker = ticker := by
  unfold Desk.signal? at h
  cases he : isEntryPoint d.rule tens minutes with
  | error a => simp [he, bind, Except.bind] at h
  | ok yes =>
    cases yes with
    | false => simp [he, bind, Except.bind] at h
    | true =>
      simp only [he, bind, Except.bind, if_true] at h
      split at h
      · simp at h
      · rename_i bar _
        split at h
        · simp at h
        · rename_i limit _
          have hsome := Except.ok.inj h
          cases hend : bar.endTime? with
          | none => simp [hend] at hsome
          | some instant =>
            rw [hend] at hsome
            rw [← Option.some.inj hsome]

/-- **What a desk does with one tick.** -/
theorem Desk.update_cases (d : Desk) (ticker : String) (tens minutes : History) :
    (∃ signal, d.update ticker tens minutes =
        ({ d with held := some signal.ticker }, .ok (some signal)) ∧
      d.held = none ∧ d.receiving = true ∧ signal.ticker = ticker) ∨
    ∃ answer, d.update ticker tens minutes = (d, answer) ∧
      ∀ signal, answer ≠ .ok (some signal) := by
  unfold Desk.update
  cases hheld : d.held with
  | some held => exact Or.inr ⟨_, rfl, by simp⟩
  | none =>
    dsimp only
    cases hsignal : d.signal? ticker tens minutes with
    | error a => exact Or.inr ⟨_, rfl, by simp⟩
    | ok answer =>
      cases answer with
      | none => exact Or.inr ⟨_, rfl, by simp⟩
      | some signal =>
        have hticker := Desk.signal?_ticker hsignal
        by_cases hreceiving : d.receiving = true
        · refine Or.inl ⟨signal, ?_, rfl, hreceiving, hticker⟩
          simp [hreceiving, hticker]
        · exact Or.inr ⟨.ok none, by simp [hreceiving], by simp⟩

/-- The signals among what the desk noted. -/
def signalsOf (notices : List (Notice (Option Signal))) : List Signal :=
  notices.filterMap (·.note)

omit [TimeZones] in
theorem signalsOf_append (n n' : List (Notice (Option Signal))) :
    signalsOf (n ++ n') = signalsOf n ++ signalsOf n' :=
  List.filterMap_append

/-- What the desk does on a board, told of a ticker. -/
theorem react_cases (watcher : DeskWatcher) (ticker : String) (w : World DeskWatcher Desk) :
    (∃ signal, react watcher ticker w =
        ({ w with around := { w.around with held := some signal.ticker } }, .ok (some signal)) ∧
      w.around.held = none ∧ w.around.receiving = true ∧ signal.ticker = ticker) ∨
    ∃ answer, react watcher ticker w = (w, answer) ∧ ∀ signal, answer ≠ .ok (some signal) := by
  unfold react
  dsimp only
  rcases w.around.update_cases ticker (w.board.history .tenSeconds ticker)
    (w.board.history .oneMinute ticker) with ⟨signal, hupdate, hgives⟩ | ⟨answer, hupdate, hnone⟩
  · exact Or.inl ⟨signal, by rw [hupdate], hgives⟩
  · exact Or.inr ⟨answer, by rw [hupdate], hnone⟩

/-- The desk told a ticker does what a desk does, for this ticker. -/
theorem notify_gives (ticker : String) (told : List (String × DeskWatcher))
    (w : World DeskWatcher Desk) :
    Desk.Gives w.around (signalsOf (notify react ticker told w).2.1)
        (notify react ticker told w).1.around ∧
      ∀ signal ∈ signalsOf (notify react ticker told w).2.1, signal.ticker = ticker := by
  induction told generalizing w with
  | nil => exact ⟨.nothing, by simp [notify, signalsOf]⟩
  | cons entry rest ih =>
    obtain ⟨name, watcher⟩ := entry
    unfold notify
    rcases react_cases watcher ticker w with
      ⟨signal, hreact, hheld, hreceiving, hticker⟩ | ⟨answer, hreact, hnone⟩
    · rw [hreact]
      -- whoever is told next finds the ticker held
      obtain ⟨hgives, -⟩ := ih { w with around := { w.around with held := some signal.ticker } }
      obtain ⟨hquiet, -⟩ := hgives.eq_of_held (by simp)
      have hentry : Desk.Gives w.around [signal] _ := .entry hheld hreceiving
      refine ⟨hentry.trans hgives, fun s hs => ?_⟩
      have hs : s ∈ signal :: signalsOf _ := hs
      rw [hquiet, List.mem_singleton] at hs
      rw [hs, hticker]
    · rw [hreact]
      cases answer with
      | error a => exact ⟨.nothing, by simp [signalsOf]⟩
      | ok note =>
        cases note with
        | some signal => exact absurd rfl (hnone signal)
        | none => exact ih w

/-- **What the desk does with a tick that the board applies.** -/
theorem apply_gives (told : List (String × DeskWatcher)) (t : Tick) (w : World DeskWatcher Desk) :
    Desk.Gives w.around (signalsOf (apply react told t w).2.1) (apply react told t w).1.around ∧
      ∀ signal ∈ signalsOf (apply react told t w).2.1, signal.ticker = t.ticker := by
  unfold apply
  cases offer t Resolution.all w.board.stores with
  | mk stores done =>
    cases done with
    | error a => exact ⟨.nothing, by simp [signalsOf]⟩
    | ok u => exact notify_gives t.ticker told { w with board := { w.board with stores } }

theorem applyAll_gives (told : List (String × DeskWatcher)) (ticks : List Tick)
    (w : World DeskWatcher Desk) :
    Desk.Gives w.around (signalsOf (applyAll react told ticks w).2.1)
      (applyAll react told ticks w).1.around := by
  induction ticks generalizing w with
  | nil => exact .nothing
  | cons t rest ih =>
    have hfirst := (apply_gives told t w).1
    unfold applyAll
    cases hr : apply react told t w with
    | mk w' p =>
      obtain ⟨notices, done⟩ := p
      rw [hr] at hfirst
      cases done with
      | error a => exact hfirst
      | ok u =>
        dsimp only
        rw [signalsOf_append]
        exact hfirst.trans (ih w')

theorem receive_gives (raw : String) (w : World DeskWatcher Desk) :
    Desk.Gives w.around (signalsOf (receive react raw w).2.1) (receive react raw w).1.around := by
  rw [receive_eq]
  exact applyAll_gives w.board.watchers.entries (ticksOf raw) w

namespace Session

variable {s s₀ : Session}

theorem message_gives (s : Session) (raw : String) :
    Desk.Gives s.desk (s.message raw).2.1 (s.message raw).1.desk := by
  unfold message
  cases s.board with
  | none => exact .nothing
  | some board =>
    have hgives := receive_gives raw ⟨board, s.desk⟩
    dsimp only
    cases hr : receive react raw ⟨board, s.desk⟩ with
    | mk w p =>
      obtain ⟨notices, result⟩ := p
      rw [hr] at hgives
      rcases result with e | n
      · cases e <;> exact hgives
      · exact hgives

/-- **What the desk does in a step**: it is released, it loses its receiver, or it is told of the
ticks of a message, if any. -/
theorem step_gives (s : Session) (step : Step) :
    (step = .release ∧ (s.step step).2.1 = [] ∧ (s.step step).1.desk = s.desk.release) ∨
    (step = .closeReceiver ∧ (s.step step).2.1 = [] ∧
      (s.step step).1.desk = s.desk.closeReceiver) ∨
    step ≠ .release ∧ step ≠ .closeReceiver ∧
      Desk.Gives s.desk (s.step step).2.1 (s.step step).1.desk := by
  cases step with
  | release => exact Or.inl ⟨rfl, rfl, rfl⟩
  | closeReceiver => exact Or.inr (Or.inl ⟨rfl, rfl, rfl⟩)
  | message raw => exact Or.inr (Or.inr ⟨by simp, by simp, s.message_gives raw⟩)
  | watch =>
    refine Or.inr (Or.inr ⟨by simp, by simp, ?_⟩)
    have hdesk : ∀ s', s.watch = .ok s' → s'.desk = s.desk := by
      intro s' h
      unfold watch at h
      cases hb : s.board with
      | none => simp [hb] at h
      | some board =>
        simp only [hb] at h
        split at h
        · rw [← Except.ok.inj h]
        · simp at h
    unfold Session.step
    dsimp only
    cases hw : s.watch with
    | error e => exact .nothing
    | ok s' =>
      dsimp only
      rw [hdesk s' hw]
      exact .nothing
  | entry ticker =>
    refine Or.inr (Or.inr ⟨by simp, by simp, ?_⟩)
    unfold Session.step
    dsimp only
    cases s.isEntryPoint ticker <;> exact .nothing
  | dropBoard => exact Or.inr (Or.inr ⟨by simp, by simp, .nothing⟩)
  | clear =>
    refine Or.inr (Or.inr ⟨by simp, by simp, ?_⟩)
    unfold Session.step
    dsimp only
    cases s.board <;> exact .nothing

/-- A session after some steps. -/
def run (s : Session) (steps : List Step) : Session := steps.foldl (fun s step => (s.step step).1) s

/-- What is kept of a session. -/
inductive Deed where
  | signalled (signal : Signal)
  | released
  | receiverLost
deriving DecidableEq, Repr

/-- The deeds of one step: the signals given in it, in order, or what the step itself is. -/
def deedsOf (s : Session) (step : Step) : List Deed :=
  (s.step step).2.1.map .signalled ++
    match step with
    | .release => [.released]
    | .closeReceiver => [.receiverLost]
    | _ => []

/-- **The log of a session**: its signals, releases and the loss of the receiver, in order. -/
def log (s : Session) : List Step → List Deed
  | [] => []
  | step :: rest => s.deedsOf step ++ log (s.step step).1 rest

/-- The ticker of the last signal, unless a release has followed it. -/
def heldAfter (deeds : List Deed) : Option String :=
  deeds.foldl (fun held deed =>
    match deed with
    | .signalled signal => some signal.ticker
    | .released => none
    | .receiverLost => held) none

theorem run_concat (s : Session) (steps : List Step) (step : Step) :
    s.run (steps ++ [step]) = ((s.run steps).step step).1 := by
  simp [run]

theorem log_concat (s : Session) (steps : List Step) (step : Step) :
    s.log (steps ++ [step]) = s.log steps ++ (s.run steps).deedsOf step := by
  induction steps generalizing s with
  | nil => simp [log, run]
  | cons first rest ih =>
    rw [List.cons_append, log, ih, log, List.append_assoc]
    rfl

/-- The log is lawful: a signal stands in it only where no ticker is held, and the receiver has not
been lost. -/
def Lawful (deeds : List Deed) : Prop :=
  ∀ before signal after, deeds = before ++ .signalled signal :: after →
    heldAfter before = none ∧ .receiverLost ∉ before

variable {deeds : List Deed}

omit [TimeZones] in
theorem lawful_nil : Lawful [] := by
  intro before signal after h
  simp at h

omit [TimeZones] in
/-- A deed more, lawful where it stands. -/
theorem Lawful.concat (h : Lawful deeds) {deed : Deed}
    (hdeed : ∀ signal, deed = .signalled signal →
      heldAfter deeds = none ∧ .receiverLost ∉ deeds) : Lawful (deeds ++ [deed]) := by
  intro before signal after hsplit
  rcases List.eq_nil_or_concat after with rfl | ⟨after, last, rfl⟩
  · -- the signal is the last deed
    obtain ⟨rfl, hlast⟩ := List.append_inj' hsplit rfl
    exact hdeed signal (List.cons.inj hlast).1
  · rw [List.concat_eq_append, ← List.cons_append, ← List.append_assoc] at hsplit
    exact h before signal after (List.append_inj' hsplit rfl).1

omit [TimeZones] in
theorem heldAfter_concat (deeds : List Deed) (deed : Deed) :
    heldAfter (deeds ++ [deed]) = match deed with
      | .signalled signal => some signal.ticker
      | .released => none
      | .receiverLost => heldAfter deeds := by
  simp only [heldAfter, List.foldl_append]
  cases deed <;> rfl

omit [TimeZones] in
/-- What is held after a log is the ticker of its last signal, with no release after it. -/
theorem heldAfter_eq_some_iff : heldAfter deeds = some ticker ↔
    ∃ before signal after, deeds = before ++ .signalled signal :: after ∧ signal.ticker = ticker ∧
      .released ∉ after ∧ ∀ later, .signalled later ∉ after := by
  induction deeds using List.reverseRecOn with
  | nil => simp [heldAfter]
  | append_singleton deeds deed ih =>
    rw [heldAfter_concat]
    constructor
    · intro h
      cases deed with
      | released => simp at h
      | signalled signal => exact ⟨deeds, signal, [], by simp, Option.some.inj h, by simp, by simp⟩
      | receiverLost =>
        obtain ⟨before, signal, after, rfl, hticker, hnone, hlast⟩ := ih.1 h
        exact ⟨before, signal, after ++ [.receiverLost], by simp, hticker, by simpa using hnone,
          by simpa using hlast⟩
    · rintro ⟨before, signal, after, hsplit, hticker, hnone, hlast⟩
      rcases List.eq_nil_or_concat after with rfl | ⟨after, last, rfl⟩
      · obtain ⟨-, hdeed⟩ := List.append_inj' hsplit rfl
        rw [(List.cons.inj hdeed).1]
        exact congrArg some hticker
      · rw [List.concat_eq_append] at hsplit hnone hlast
        rw [← List.cons_append, ← List.append_assoc] at hsplit
        obtain ⟨hdeeds, hdeed⟩ := List.append_inj' hsplit rfl
        rw [(List.cons.inj hdeed).1]
        cases last with
        | released => simp at hnone
        | signalled later => exact absurd (by simp) (hlast later)
        | receiverLost =>
          refine ih.2 ⟨before, signal, after, hdeeds, hticker, ?_, fun later => ?_⟩
          · simpa using hnone
          · simpa using hlast later

omit [TimeZones] in
/-- Something is held after a signal that no release has followed. -/
theorem heldAfter_ne_none (before : List Deed) (signal : Signal) {after : List Deed}
    (h : .released ∉ after) : heldAfter (before ++ .signalled signal :: after) ≠ none := by
  induction after using List.reverseRecOn with
  | nil => rw [heldAfter_concat]; simp
  | append_singleton after deed ih =>
    rw [← List.cons_append, ← List.append_assoc, heldAfter_concat]
    cases deed with
    | released => simp at h
    | signalled later => simp
    | receiverLost => exact ih (by simpa using h)

/-- The desk of a session is as the log has it. -/
structure Kept (s : Session) (deeds : List Deed) : Prop where
  held : s.desk.held = heldAfter deeds
  receiving : s.desk.receiving = true ↔ .receiverLost ∉ deeds
  lawful : Lawful deeds

/-- A step that is neither a release nor the loss of the receiver does its signals. -/
theorem deedsOf_eq {step : Step} (hrelease : step ≠ .release) (hclose : step ≠ .closeReceiver) :
    s.deedsOf step = (s.step step).2.1.map .signalled := by
  unfold deedsOf
  cases step with
  | release => exact absurd rfl hrelease
  | closeReceiver => exact absurd rfl hclose
  | _ => exact List.append_nil _

/-- **Every step is logged.** -/
theorem Kept.step (h : Kept s deeds) (step : Step) :
    Kept (s.step step).1 (deeds ++ s.deedsOf step) := by
  rcases s.step_gives step with
    ⟨rfl, hnone, hdesk⟩ | ⟨rfl, hnone, hdesk⟩ | ⟨hrelease, hclose, hgives⟩
  · have hdeeds : s.deedsOf .release = [.released] := rfl
    rw [hdeeds]
    refine ⟨?_, ?_, h.lawful.concat (by simp)⟩
    · rw [hdesk, heldAfter_concat]; rfl
    · rw [hdesk]
      simpa [Desk.release] using h.receiving
  · have hdeeds : s.deedsOf .closeReceiver = [.receiverLost] := rfl
    rw [hdeeds]
    refine ⟨?_, ?_, h.lawful.concat (by simp)⟩
    · rw [hdesk, heldAfter_concat]; exact h.held
    · rw [hdesk]
      simp [Desk.closeReceiver]
  · rw [deedsOf_eq hrelease hclose]
    rcases hgives.cases with ⟨hl, hdesk⟩ | ⟨signal, hl, hheld, hreceiving, hdesk⟩
    · rw [hl, List.map_nil, List.append_nil]
      exact ⟨by rw [hdesk, h.held], by rw [hdesk, h.receiving], h.lawful⟩
    · rw [hl, List.map_singleton]
      refine ⟨?_, ?_, h.lawful.concat fun _ _ => ?_⟩
      · rw [hdesk, heldAfter_concat]
      · rw [hdesk]
        simpa using h.receiving
      · exact ⟨h.held.symm.trans hheld, h.receiving.1 hreceiving⟩

theorem kept_run (hopen : s₀.desk.held = none) (hreceiving : s₀.desk.receiving = true)
    (steps : List Step) : Kept (s₀.run steps) (s₀.log steps) := by
  induction steps using List.reverseRecOn with
  | nil => exact ⟨hopen, by simp [run, log, hreceiving], lawful_nil⟩
  | append_singleton steps step ih =>
    rw [run_concat, log_concat]
    exact ih.step step

/-- **The held ticker changes in two ways only**: from none to that of a signal, or to none by a
release. -/
theorem held_changes (s : Session) (step : Step)
    (h : (s.step step).1.desk.held ≠ s.desk.held) :
    (∃ signal, (s.step step).2.1 = [signal] ∧ s.desk.held = none ∧
      (s.step step).1.desk.held = some signal.ticker) ∨
    step = .release ∧ (s.step step).1.desk.held = none := by
  rcases s.step_gives step with ⟨rfl, -, hdesk⟩ | ⟨rfl, -, hdesk⟩ | ⟨-, -, hgives⟩
  · exact Or.inr ⟨rfl, by rw [hdesk]; rfl⟩
  · exact absurd (by rw [hdesk]; rfl) h
  · rcases hgives.cases with ⟨-, hdesk⟩ | ⟨signal, hl, hheld, -, hdesk⟩
    · exact absurd (by rw [hdesk]) h
    · exact Or.inl ⟨signal, hl, hheld, by rw [hdesk]⟩

/-- Without a receiver nothing is signalled. -/
theorem step_silent (h : s.desk.receiving = false) (step : Step) : (s.step step).2.1 = [] := by
  rcases s.step_gives step with ⟨-, hl, -⟩ | ⟨-, hl, -⟩ | ⟨-, -, hgives⟩
  · exact hl
  · exact hl
  · rcases hgives.cases with ⟨hl, -⟩ | ⟨signal, -, -, hreceiving, -⟩
    · exact hl
    · rw [h] at hreceiving
      simp at hreceiving

/-- A desk is opened with nothing held, and someone who receives. -/
theorem open_desk {aggregation : Config.Aggregation} {rule : Config.Momentum}
    (h : Session.open? aggregation rule = .ok s₀) :
    s₀.desk.held = none ∧ s₀.desk.receiving = true := by
  unfold Session.open? Desk.open? at h
  split at h
  · cases h
    exact ⟨rfl, rfl⟩
  · simp [Except.map] at h

/-- **One position at a time**, in every session. With every tick that a board applies the desk does
nothing, or it gives one signal, for the tick's ticker, while it holds none and someone receives, and
holds the ticker at once. So in the log of a session a signal stands only where nothing is held and
the receiver has not been lost; the ticker held is that of the last signal, unless a release has
followed; and between two signals there is a release. No step changes the held ticker in any other
way, and nothing is signalled or held anew once the receiver is lost. -/
theorem one_position {aggregation : Config.Aggregation} {rule : Config.Momentum}
    (hopen : Session.open? aggregation rule = .ok s₀) (steps : List Step) :
    let s := s₀.run steps
    let log := s₀.log steps
    (∀ told t w, Desk.Gives w.around (signalsOf (apply react told t w).2.1)
        (apply react told t w).1.around ∧
      ∀ signal ∈ signalsOf (apply react told t w).2.1, signal.ticker = t.ticker) ∧
    (∀ before signal after, log = before ++ .signalled signal :: after →
      heldAfter before = none ∧ .receiverLost ∉ before) ∧
    (∀ ticker, s.desk.held = some ticker ↔ ∃ before signal after,
      log = before ++ .signalled signal :: after ∧ signal.ticker = ticker ∧
        .released ∉ after ∧ ∀ later, .signalled later ∉ after) ∧
    (∀ before a between b after,
      log = before ++ .signalled a :: between ++ .signalled b :: after → .released ∈ between) ∧
    (∀ step, (s.step step).1.desk.held ≠ s.desk.held →
      (∃ signal, (s.step step).2.1 = [signal] ∧ s.desk.held = none ∧
        (s.step step).1.desk.held = some signal.ticker) ∨
      step = .release ∧ (s.step step).1.desk.held = none) ∧
    (.receiverLost ∈ log → ∀ step, (s.step step).2.1 = [] ∧
      ((s.step step).1.desk.held = s.desk.held ∨ (s.step step).1.desk.held = none)) := by
  intro s log
  obtain ⟨hheld, hreceiving⟩ := open_desk hopen
  have hkept : Kept s log := kept_run hheld hreceiving steps
  refine ⟨apply_gives, hkept.lawful, fun ticker => ?_, fun before a between b after hlog => ?_,
    s.held_changes, fun hlost step => ?_⟩
  · rw [hkept.held]
    exact heldAfter_eq_some_iff
  · by_contra hnone
    exact heldAfter_ne_none before a hnone (hkept.lawful _ b after hlog).1
  · have hdeaf : s.desk.receiving = false := by
      by_contra h
      exact hkept.receiving.1 (by simpa using h) hlost
    have hsilent := step_silent hdeaf step
    refine ⟨hsilent, ?_⟩
    by_cases hsame : (s.step step).1.desk.held = s.desk.held
    · exact Or.inl hsame
    · rcases s.held_changes step hsame with ⟨signal, hl, -⟩ | ⟨-, hnone⟩
      · rw [hsilent] at hl
        simp at hl
      · exact Or.inr hnone

end Session

end

namespace Session

attribute [local instance] TimeZones.table

/-- Two tickers jump in one batch, and the one that comes first is held. It jumps again, and is only
signalled anew after a release. -/
theorem one_position_twice :
    let record (ticker : String) : String :=
      "\x7b\"ev\":\"A\",\"sym\":\"" ++ ticker ++ "\",\"v\":4000,\"av\":9,\"op\":2,\"vw\":2," ++
        "\"o\":10,\"c\":13,\"h\":13,\"l\":10,\"s\":1610115000000,\"e\":1610115001000\x7d"
    let batch := "[" ++ record "SPCE" ++ "," ++ record "AAPL" ++ "]"
    let s₀ : Session := { board := some (.ofConfig {}), desk := { rule := {} } }
    let steps : List Step := [.watch, .message batch, .release, .message batch]
    ((s₀.log steps).map fun deed => match deed with
      | .signalled signal => some signal.ticker
      | _ => none) = [some "SPCE", none, some "SPCE"] ∧
      ∀ before a between b after, s₀.log steps =
        before ++ .signalled a :: between ++ .signalled b :: after → .released ∈ between := by
  intro record batch s₀ steps
  have hopen : Session.open? {} {} = .ok s₀ := rfl
  exact ⟨by decide +kernel, (one_position hopen steps).2.2.2.1⟩

end Session

end TapeReader.Momentum

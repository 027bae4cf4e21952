import TapeReader.Proofs.Market.Log

/-!
# Stores worked on in place

Here a tick is added by reads and writes, one after the other, to a store that is there only once:
what has been written when the tick is refused stays written.

* `Store.Work`: work on a store in place, which may end in a refusal.
* `Store.addInPlace`: a tick added in place, each check and each write in its turn.
* `Store.addInPlace_on`: **work in place answers what `add` answers, and leaves the store that `feed`
  leaves**. No write comes before a refusal.
* `Store.refused_leave_no_trace`: **a run in place without the ticks that it refused is the same run**
  in all else.
-/

namespace TapeReader.Store

/-- Work on a store in place. A refusal undoes nothing. -/
abbrev Work := ExceptT Refusal (StateM Store)

/-- The store with the history of a ticker changed. A ticker that was not known is now. -/
def changed (ticker : String) (f : History → History) (s : Store) : Store :=
  { s with histories := put ticker (f (s.history ticker)) s.histories }

namespace Work

variable {α : Type}

/-- What work on a store comes to: the answer, and the store that is left. -/
def on (work : Work α) (s : Store) : Except Refusal α × Store := StateT.run (ExceptT.run work) s

/-- Writes to the history of a ticker. -/
def change (ticker : String) (f : History → History) : Work Unit := modify (changed ticker f)

/-- Writes to the newest bar of a ticker. -/
def changeFront (ticker : String) (f : Bar → Bar) : Work Unit :=
  change ticker (List.modifyHead f)

end Work

open Work

/-- A tick folded into the newest bar of its ticker, where the bar stands. -/
def absorbInPlace (front : Bar) (t : Tick) : Work Bar := do
  if front.ticker ≠ t.ticker then throw (.violation (.otherTicker t.ticker front.ticker))
  else
    changeFront t.ticker (·.fold t)
    return front.fold t

/-- A tick merged into the newest bar of its ticker, where the bar stands. -/
def mergeInPlace (front : Bar) (t : Tick) : Work Bool := do
  let w := (← get).window
  if t.start < front.start then throw (.violation (.predates t.ticker t.start front.start))
  else if w.millis < wrap (t.stop - front.start) then
    throw (.violation (.overrunsOpen t.ticker t.stop front.start (wrap (front.start + w.millis))))
  else
    let bar ← absorbInPlace front t
    -- the tick is in the bar from here on, and a refusal would come too late
    let closed := bar.isClosed w.millis
    if closed then changeFront t.ticker ({ · with closureReported := true })
    return closed

/-- A bar opened for a tick: the ticker becomes known, the bar before counts as reported, the new
one is put in front, and what there is no room for is dropped. -/
def openInPlace (t : Tick) : Work Bool := do
  let s ← get
  if s.window.millis = 0 then throw .zeroWindow
  else
    let bar := { Bar.ofTick t with start := s.window.floor t.start }
    if s.window.millis < bar.span then
      throw (.violation (.overrunsFresh t.ticker t.start t.stop s.window.secs bar.start))
    else
      let closed := bar.isClosed s.window.millis
      -- the writes begin, with the ticker: one that is refused does not become known
      change t.ticker id
      let waiting := ((← get).history t.ticker).pending
      change t.ticker History.settle
      change t.ticker ({ bar with closureReported := closed } :: ·)
      change t.ticker (·.take s.bound)
      return closed || waiting

/-- A tick added in place. -/
def addInPlace (t : Tick) : Work Bool := do
  match t.validate with
  | .error v => throw (.violation v)
  | .ok () =>
    let s ← get
    match s.history t.ticker with
    | front :: _ =>
      if wrap (t.start - front.start) < s.window.millis then mergeInPlace front t else openInPlace t
    | [] => openInPlace t

/-! ## What the steps leave -/

variable {s : Store} {t : Tick} {ticker : String} {front : Bar} {older : History}

section

variable {α β : Type}

theorem on_pure (a : α) (s : Store) : (pure a : Work α).on s = (.ok a, s) := rfl

theorem on_get_bind (f : Store → Work β) (s : Store) : (get >>= f).on s = (f s).on s := rfl

theorem on_change_bind (ticker : String) (g : History → History) (f : Unit → Work β) (s : Store) :
    (change ticker g >>= f).on s = (f ()).on (s.changed ticker g) := rfl

end

theorem put_put (ticker : String) (h h' : History) (histories : List (String × History)) :
    put ticker h' (put ticker h histories) = put ticker h' histories := by
  induction histories with
  | nil => simp [put]
  | cons entry rest ih =>
    obtain ⟨name, old⟩ := entry
    by_cases hname : name = ticker
    · simp [put, hname]
    · simp [put, hname, ih]

theorem history_changed (ticker : String) (f : History → History) (s : Store) :
    (s.changed ticker f).history ticker = f (s.history ticker) := by
  unfold changed
  rw [history_put, if_pos rfl]

/-- A write is known by the history that it leaves. -/
theorem changed_congr {f g : History → History} (h : f (s.history ticker) = g (s.history ticker)) :
    s.changed ticker f = s.changed ticker g := by
  unfold changed
  rw [h]

/-- Two writes to one history are one. -/
theorem changed_changed (ticker : String) (f g : History → History) (s : Store) :
    (s.changed ticker f).changed ticker g = s.changed ticker (g ∘ f) := by
  have hhistory := history_changed ticker f s
  unfold changed at hhistory ⊢
  rw [hhistory]
  simp only [put_put, Function.comp_apply]

/-- **Merging in place**, when it is refused: nothing is written. -/
theorem mergeInPlace_error {v : Violation} (h : History.merge s.window front t = .error v) :
    (mergeInPlace front t).on s = (.error (.violation v), s) := by
  unfold History.merge at h
  unfold mergeInPlace
  rw [on_get_bind]
  by_cases hstart : t.start < front.start
  · rw [if_pos hstart] at h ⊢
    cases h
    rfl
  rw [if_neg hstart] at h ⊢
  by_cases hover : s.window.millis < wrap (t.stop - front.start)
  · rw [if_pos hover] at h ⊢
    cases h
    rfl
  rw [if_neg hover] at h ⊢
  -- what is left to refuse is the bar of another ticker, and that is found out before the fold
  unfold absorbInPlace
  unfold Bar.absorb at h
  by_cases hticker : front.ticker = t.ticker
  · rw [if_pos hticker] at h
    cases h
  · rw [if_neg hticker] at h
    rw [if_pos hticker]
    cases h
    rfl

/-- A bar folded in place, for a tick of its ticker. -/
theorem absorbInPlace_bind {β : Type} (hticker : front.ticker = t.ticker) (f : Bar → Work β) :
    (absorbInPlace front t >>= f).on s =
      (f (front.fold t)).on (s.changed t.ticker (List.modifyHead (·.fold t))) := by
  unfold absorbInPlace
  rw [if_neg (not_not.2 hticker)]
  rfl

/-- Merging in place, when it is not refused: the newest bar is written over. -/
theorem mergeInPlace_ok (hhistory : s.history t.ticker = front :: older) {bar : Bar}
    {closed : Bool} (h : History.merge s.window front t = .ok (bar, closed)) :
    (mergeInPlace front t).on s = (.ok closed, s.changed t.ticker fun _ => bar :: older) := by
  unfold History.merge Bar.absorb at h
  unfold mergeInPlace
  rw [on_get_bind]
  by_cases hstart : t.start < front.start
  · rw [if_pos hstart] at h
    cases h
  rw [if_neg hstart] at h ⊢
  by_cases hover : s.window.millis < wrap (t.stop - front.start)
  · rw [if_pos hover] at h
    cases h
  rw [if_neg hover] at h ⊢
  by_cases hticker : front.ticker = t.ticker
  · rw [if_pos hticker] at h
    cases h
    rw [absorbInPlace_bind hticker]
    dsimp only
    cases hclosed : (front.fold t).isClosed s.window.millis with
    | true =>
      -- the bar is closed by the tick, and the flag is written
      rw [if_pos rfl]
      unfold changeFront
      rw [on_change_bind, on_pure, changed_changed]
      refine congrArg (Prod.mk _) (changed_congr ?_)
      simp [hhistory]
    | false =>
      rw [if_neg Bool.false_ne_true, on_pure]
      refine congrArg (Prod.mk _) (changed_congr ?_)
      simp [hhistory, Bar.fold]
  · rw [if_neg hticker] at h
    cases h

/-- Opening a bar in place, when it is refused: nothing is written. -/
theorem openInPlace_error {r : Refusal} (h : History.openBar s.window t = .error r) :
    (openInPlace t).on s = (.error r, s) := by
  unfold History.openBar at h
  unfold openInPlace
  rw [on_get_bind]
  by_cases hzero : s.window.millis = 0
  · rw [if_pos hzero] at h ⊢
    cases h
    rfl
  rw [if_neg hzero] at h ⊢
  dsimp only at h ⊢
  split at h
  · rename_i hover
    rw [if_pos hover]
    cases h
    rfl
  · cases h

/-- Opening a bar in place, when it is not refused: the four writes put the bar in front. -/
theorem openInPlace_ok {bar : Bar} (h : History.openBar s.window t = .ok bar) :
    let pushed := History.push s.bound (s.history t.ticker) bar
    (openInPlace t).on s = (.ok pushed.2, s.changed t.ticker fun _ => pushed.1) := by
  intro pushed
  unfold History.openBar at h
  unfold openInPlace
  rw [on_get_bind]
  by_cases hzero : s.window.millis = 0
  · rw [if_pos hzero] at h
    cases h
  rw [if_neg hzero] at h ⊢
  dsimp only at h ⊢
  split at h
  · cases h
  · rename_i hfit
    rw [if_neg hfit]
    cases h
    rw [on_change_bind, on_get_bind, on_change_bind, on_change_bind, on_change_bind, on_pure,
      history_changed, changed_changed, changed_changed, changed_changed]
    rfl

/-! ## Work in place and `add` -/

/-- What a tick comes to: the answer of `add`, and the store that `feed` leaves. -/
def outcome (s : Store) (t : Tick) : Except Refusal Bool × Store :=
  ((s.add t).map (·.2), s.feed t)

theorem outcome_of_ok {h : History} {closed : Bool}
    (hadd : History.add s.window s.bound (s.history t.ticker) t = .ok (h, closed)) :
    s.outcome t = (.ok closed, s.changed t.ticker fun _ => h) := by
  have hs := add_eq_ok_iff.2 ⟨h, hadd, rfl⟩
  unfold outcome
  rw [hs, feed_of_ok hs]
  rfl

theorem outcome_of_error {r : Refusal}
    (hadd : History.add s.window s.bound (s.history t.ticker) t = .error r) :
    s.outcome t = (.error r, s) := by
  have hs := add_eq_error_iff.2 hadd
  unfold outcome
  rw [hs, feed_of_error hs]
  rfl

/-- Opening a bar in place, when the history opens one. -/
theorem openInPlace_on (hadd : History.add s.window s.bound (s.history t.ticker) t =
    (History.openBar s.window t).map (History.push s.bound (s.history t.ticker))) :
    (openInPlace t).on s = s.outcome t := by
  cases ho : History.openBar s.window t with
  | error r =>
    rw [ho] at hadd
    rw [openInPlace_error ho, outcome_of_error hadd]
  | ok bar =>
    rw [ho] at hadd
    exact (openInPlace_ok ho).trans (outcome_of_ok hadd).symm

/-- Merging in place, when the history merges. -/
theorem mergeInPlace_on (hvalid : t.validate = .ok ())
    (hhistory : s.history t.ticker = front :: older)
    (hin : wrap (t.start - front.start) < s.window.millis) :
    (mergeInPlace front t).on s = s.outcome t := by
  cases hm : History.merge s.window front t with
  | error v =>
    have hadd : History.add s.window s.bound (s.history t.ticker) t = .error (.violation v) := by
      rw [hhistory]
      simp only [History.add, hvalid, if_pos hin, hm]
    rw [mergeInPlace_error hm, outcome_of_error hadd]
  | ok merged =>
    obtain ⟨bar, closed⟩ := merged
    have hadd : History.add s.window s.bound (s.history t.ticker) t =
        .ok (bar :: older, closed) := by
      rw [hhistory]
      simp only [History.add, hvalid, if_pos hin, hm]
    rw [mergeInPlace_ok hhistory hm, outcome_of_ok hadd]

/-- **Work in place answers what `add` answers, and leaves the store that `feed` leaves**: the store
as it was when the tick is refused. -/
theorem addInPlace_on (s : Store) (t : Tick) : (addInPlace t).on s = s.outcome t := by
  unfold addInPlace
  cases hv : t.validate with
  | error v =>
    have hadd : History.add s.window s.bound (s.history t.ticker) t = .error (.violation v) := by
      simp only [History.add, hv]
    exact (outcome_of_error hadd).symm
  | ok u =>
    dsimp only
    rw [on_get_bind]
    cases hhistory : s.history t.ticker with
    | nil =>
      refine openInPlace_on ?_
      rw [hhistory]
      simp only [History.add, hv]
    | cons front older =>
      dsimp only
      by_cases hin : wrap (t.start - front.start) < s.window.millis
      · rw [if_pos hin]
        exact mergeInPlace_on hv hhistory hin
      · rw [if_neg hin]
        refine openInPlace_on ?_
        rw [hhistory]
        simp only [History.add, hv, if_neg hin]

/-! ## Runs in place -/

/-- Ticks added in place, one after the other: each with its answer, and the store that is left. -/
def runInPlace : List Tick → Store → List (Tick × Except Refusal Bool) × Store
  | [], s => ([], s)
  | t :: rest, s =>
    let first := (addInPlace t).on s
    let others := runInPlace rest first.2
    ((t, first.1) :: others.1, others.2)

theorem runInPlace_eq (ticks : List Tick) (s : Store) :
    runInPlace ticks s = (s.log ticks, ticks.foldl feed s) := by
  induction ticks generalizing s with
  | nil => rfl
  | cons t rest ih =>
    rw [runInPlace, addInPlace_on, ih]
    rfl

/-- A store with windows of some length, or less than none, gives up on no tick. -/
theorem answer_of_mem_log (hs : s.window.millis ≠ 0) (ticks : List Tick) :
    ∀ entry ∈ s.log ticks, entry.2.isOk = true ∨ ∃ v, entry.2 = .error (.violation v) := by
  induction ticks generalizing s with
  | nil => simp [log]
  | cons t rest ih =>
    intro entry hentry
    rcases List.mem_cons.1 hentry with rfl | hentry
    · have hne := add_ne_zeroWindow hs t
      dsimp only
      cases hadd : s.add t with
      | ok added => exact Or.inl rfl
      | error r =>
        cases r with
        | violation v => exact Or.inr ⟨v, rfl⟩
        | zeroWindow => exact absurd hadd hne
    · exact ih (by rwa [feed_window]) entry hentry

/-- **Ticks refused leave no trace.** Ticks are added in place to a store with any bars and any bound,
of windows whose length in milliseconds does not come out as zero in 64 bits. Every call comes to an
answer or to a violation; the answers are those of `add`, and the store left is that of `feed`. A second
run from the same store, without the ticks that were refused, gives each of the others the answer that
it had, and leaves the same store: the same bars, with the same marks of reported closures, and the same
tickers known. -/
theorem refused_leave_no_trace (s : Store) (hs : s.window.millis ≠ 0) (ticks : List Tick) :
    let run := runInPlace ticks s
    let added := run.1.filter (·.2.isOk)
    (∀ entry ∈ run.1, entry.2.isOk = true ∨ ∃ v, entry.2 = .error (.violation v)) ∧
      run = (s.log ticks, ticks.foldl feed s) ∧
      runInPlace (added.map (·.1)) s = (added, run.2) := by
  intro run added
  have hrun : run = (s.log ticks, ticks.foldl feed s) := runInPlace_eq ticks s
  obtain ⟨hlog, hfeed⟩ := log_added s ticks
  refine ⟨?_, hrun, ?_⟩
  · rw [hrun]
    exact answer_of_mem_log hs ticks
  · rw [runInPlace_eq, show added = (s.log ticks).filter (·.2.isOk) by simp only [added, hrun], hlog,
      hfeed, hrun]

/-- Three ticks refused, each for another reason, between three that are added: the closure that the
last but one reports is not reported again. -/
theorem refused_leave_no_trace_three :
    let ticks := [Tick.plain 0 5000, Tick.plain 5000 11000, Tick.plain (-5000) (-4000),
      Tick.plain 10000 21000, Tick.plain 5000 10000, Tick.plain 10000 11000]
    let s := fresh ⟨10⟩ 2
    let run := runInPlace ticks s
    s.window.millis ≠ 0 ∧
      run.1.map (·.2) = [.ok false, .error (.violation (.overrunsOpen "SPCE" 11000 0 10000)),
        .error (.violation (.predates "SPCE" (-5000) 0)),
        .error (.violation (.overrunsFresh "SPCE" 10000 21000 10 10000)), .ok true, .ok false] ∧
      runInPlace ((run.1.filter (·.2.isOk)).map (·.1)) s = (run.1.filter (·.2.isOk), run.2) := by
  intro ticks s run
  have hs : s.window.millis ≠ 0 := by decide
  exact ⟨hs, by decide +kernel, (refused_leave_no_trace s hs ticks).2.2⟩

end TapeReader.Store

import TapeReader.Market.Store
import TapeReader.Proofs.Market.Records

/-!
# Ledgers

A ledger is a store together with the ticks that it has taken since it was last cleared.

* `Ledger.step`, `Ledger.run`: calls to the store, one after the other.
* `Ledger.takenOf`: the ticks taken of one ticker.
* `Ledger.run_induction`: what every clear and every tick taken keeps; `Ledger.forall_history_run`: what
  every history keeps; `Ledger.forall_bar_run`: what every bar keeps, in range or not.
* `Ledger.faithful_run`: **after any calls, the history of every ticker records the ticks taken of
  it.**
-/

namespace TapeReader

namespace Store

/-- A store that has not been called yet. -/
def fresh (w : Window) (bound : ℕ) : Store := { window := w, bound }

variable {s s' : Store} {t : Tick} {closed : Bool} {ticker : String}

theorem lookup_put (ticker name : String) (h : History) (histories : List (String × History)) :
    (put ticker h histories).lookup name =
      if name = ticker then some h else histories.lookup name := by
  induction histories with
  | nil =>
    unfold put
    by_cases hn : name = ticker
    · rw [if_pos hn, List.lookup_cons, beq_iff_eq.2 hn]
    · rw [if_neg hn, List.lookup_cons, beq_eq_false_iff_ne.2 hn]
  | cons entry rest ih =>
    obtain ⟨key, old⟩ := entry
    unfold put
    by_cases hk : key = ticker
    · subst hk
      by_cases hn : name = key
      · simp [hn]
      · simp [List.lookup_cons, beq_eq_false_iff_ne.2 hn, hn]
    · rw [if_neg hk]
      by_cases hn : name = key
      · subst hn; simp [hk]
      · simp only [List.lookup_cons, beq_eq_false_iff_ne.2 hn, ih]

/-- **A store takes a tick as the history of its ticker does**, and leaves all else alone. -/
theorem add_eq_ok_iff :
    s.add t = .ok (s', closed) ↔ ∃ h,
      History.add s.window s.bound (s.history t.ticker) t = .ok (h, closed) ∧
        s' = { s with histories := put t.ticker h s.histories } := by
  unfold add
  cases History.add s.window s.bound (s.history t.ticker) t with
  | error r => simp [Except.map]
  | ok r =>
    obtain ⟨h, c⟩ := r
    simp only [Except.map, Except.ok.injEq, Prod.mk.injEq]
    constructor
    · rintro ⟨rfl, rfl⟩; exact ⟨h, ⟨rfl, rfl⟩, rfl⟩
    · rintro ⟨_, ⟨rfl, rfl⟩, rfl⟩; exact ⟨rfl, rfl⟩

/-- A store refuses a tick for what the history of its ticker does. -/
theorem add_eq_error_iff {r : Refusal} :
    s.add t = .error r ↔ History.add s.window s.bound (s.history t.ticker) t = .error r := by
  unfold add
  cases History.add s.window s.bound (s.history t.ticker) t <;> simp [Except.map]

theorem history_put (s : Store) (h : History) (name : String) :
    ({ s with histories := put name h s.histories } : Store).history ticker =
      if ticker = name then h else s.history ticker := by
  unfold history
  rw [lookup_put]
  split <;> rfl

/-- **A store for windows of a length**, whose bars are of windows within range. -/
structure Ranged (w : Window) (bound : ℕ) (s : Store) : Prop where
  window_eq : s.window = w
  bound_eq : s.bound = bound
  holds : ∀ ticker, ∀ b ∈ s.history ticker, w.Holds b.start

variable {w : Window} {bound : ℕ}

theorem ranged_fresh (w : Window) (bound : ℕ) : (fresh w bound).Ranged w bound :=
  ⟨rfl, rfl, fun _ _ hb => nomatch hb⟩

theorem Ranged.clear (hs : s.Ranged w bound) : s.clear.Ranged w bound :=
  ⟨hs.window_eq, hs.bound_eq, fun _ _ hb => nomatch hb⟩

/-- What a store that has taken a tick is like. -/
theorem Ranged.grows (hw : 0 < w.millis) (hs : s.Ranged w bound) (ht : t.Within w)
    (ha : s.add t = .ok (s', closed)) : t.validate = .ok () ∧
      History.Grows w bound t (s.history t.ticker) (s'.history t.ticker) closed ∧
        ∀ name, name ≠ t.ticker → s'.history name = s.history name := by
  obtain ⟨rfl, rfl, hholds⟩ := hs
  obtain ⟨h, hadd, rfl⟩ := add_eq_ok_iff.1 ha
  obtain ⟨hvalid, hg⟩ := (History.add_eq_ok_iff hw
    (fun front hfront => hholds t.ticker front (List.mem_of_mem_head? hfront)) ht).1 hadd
  refine ⟨hvalid, ?_, fun name hn => ?_⟩
  · rwa [history_put, if_pos rfl]
  · rw [history_put, if_neg hn]

theorem Ranged.taken (hw : 0 < w.millis) (hs : s.Ranged w bound) (ht : t.Within w)
    (ha : s.add t = .ok (s', closed)) : s'.Ranged w bound := by
  obtain ⟨-, hg, hother⟩ := hs.grows hw ht ha
  obtain ⟨h, -, rfl⟩ := add_eq_ok_iff.1 ha
  refine ⟨hs.window_eq, hs.bound_eq, fun name => ?_⟩
  by_cases hname : name = t.ticker
  · subst hname
    exact hg.holds hw ht (hs.holds t.ticker)
  · exact hother name hname ▸ hs.holds name

/-- A store whose windows have a length does not give up on a tick. -/
theorem add_ne_zeroWindow (h : s.window.millis ≠ 0) (t : Tick) : s.add t ≠ .error .zeroWindow := by
  rw [ne_eq, add_eq_error_iff]
  exact History.add_ne_zeroWindow h s.bound (s.history t.ticker) t

/-- A store without bars gives up on a valid tick when its windows have length zero. -/
theorem add_fresh_zeroWindow (hzero : w.millis = 0) (bound : ℕ)
    (hvalid : t.validate = .ok ()) : (fresh w bound).add t = .error .zeroWindow := by
  have hopen : History.openBar w t = .error .zeroWindow := if_pos hzero
  rw [add_eq_error_iff]
  show History.add w bound [] t = _
  unfold History.add
  rw [hvalid]
  dsimp only
  rw [hopen]
  rfl

theorem feed_of_ok (h : s.add t = .ok (s', closed)) : s.feed t = s' := by
  unfold feed
  rw [h]

theorem feed_of_error {r : Refusal} (h : s.add t = .error r) : s.feed t = s := by
  unfold feed
  rw [h]

theorem feed_window (s : Store) (t : Tick) : (s.feed t).window = s.window := by
  unfold feed add
  cases History.add s.window s.bound (s.history t.ticker) t <;> rfl

theorem feed_bound (s : Store) (t : Tick) : (s.feed t).bound = s.bound := by
  unfold feed add
  cases History.add s.window s.bound (s.history t.ticker) t <;> rfl

end Store

theorem Decimal.two_le_maxScale : 2 ≤ 28 := by decide

/-- A tick of the ticker `SPCE` over a span. -/
def Tick.plain (start stop : ℤ) : Tick where
  event := aggregateEvent
  ticker := "SPCE"
  volume := 100
  accumulatedVolume := 8642007
  dayOpen := ⟨2566, 2, by decide, Decimal.two_le_maxScale⟩
  vwap := ⟨253981, 4, by decide, by decide⟩
  openPrice := ⟨2539, 2, by decide, Decimal.two_le_maxScale⟩
  closePrice := ⟨2545, 2, by decide, Decimal.two_le_maxScale⟩
  high := ⟨2557, 2, by decide, Decimal.two_le_maxScale⟩
  low := ⟨2535, 2, by decide, Decimal.two_le_maxScale⟩
  start
  stop

/-- What is asked of a store. -/
inductive Call where
  | add (t : Tick)
  | clear
deriving DecidableEq, Repr

/-- A call that brings a tick within range, if it brings one. -/
def Call.Within (w : Window) : Call → Prop
  | .add t => t.Within w
  | .clear => True

instance (w : Window) : DecidablePred (Call.Within w)
  | .add t => inferInstanceAs (Decidable (t.Within w))
  | .clear => inferInstanceAs (Decidable True)

/-- The tick that a call brings, if it brings one. -/
def Call.tick? : Call → Option Tick
  | .add t => some t
  | .clear => none

theorem Call.Within.of_le {w w' : Window} {c : Call} (hle : w'.millis ≤ w.millis) (h : c.Within w) :
    c.Within w' := by
  cases c with
  | add t => exact Tick.Within.of_le hle h
  | clear => trivial

theorem Call.mem_ticks_iff {calls : List Call} {t : Tick} :
    t ∈ calls.filterMap Call.tick? ↔ Call.add t ∈ calls := by
  constructor
  · intro ht
    obtain ⟨a | _, ha, heq⟩ := List.mem_filterMap.1 ht
    · cases heq
      exact ha
    · cases heq
  · exact fun ht => List.mem_filterMap.2 ⟨.add t, ht, rfl⟩

/-- Calls are within range when the ticks that they bring are. -/
theorem Call.within_of_ticks {w : Window} {calls : List Call}
    (h : ∀ t ∈ calls.filterMap Call.tick?, t.Within w) : ∀ c ∈ calls, c.Within w := by
  rintro (t | _) hc
  · exact h t (mem_ticks_iff.2 hc)
  · trivial

/-- The ticks of a ticker that start at an instant or later. -/
def ticksSince (ticker : String) (since : ℤ) (ticks : List Tick) : List Tick :=
  ticks.filter fun t => t.ticker = ticker ∧ since ≤ t.start

theorem mem_ticksSince {ticker : String} {since : ℤ} {ticks : List Tick} {t : Tick} :
    t ∈ ticksSince ticker since ticks ↔ t ∈ ticks ∧ t.ticker = ticker ∧ since ≤ t.start := by
  simp [ticksSince]

/-- Some of the ticks that came, all of the ticker and all since then, are some of those. -/
theorem sublist_ticksSince {ticker : String} {since : ℤ} {part ticks : List Tick}
    (hsub : part.Sublist ticks) (hpart : ∀ t ∈ part, t.ticker = ticker ∧ since ≤ t.start) :
    part.Sublist (ticksSince ticker since ticks) := by
  have hself : part.filter (fun t => t.ticker = ticker ∧ since ≤ t.start) = part :=
    List.filter_eq_self.2 fun t ht => decide_eq_true (hpart t ht)
  rw [← hself]
  exact hsub.filter _

/-- A store, and the ticks it has taken since it was last cleared, in order. -/
structure Ledger where
  store : Store
  taken : List Tick := []
deriving DecidableEq, Repr

namespace Ledger

/-- The ledger of a store that has not been called yet. -/
def fresh (w : Window) (bound : ℕ) : Ledger := { store := .fresh w bound }

/-- One call. A tick that the store refuses is not entered. -/
def step (l : Ledger) : Call → Ledger
  | .add t =>
    match l.store.add t with
    | .ok (store, _) => { store, taken := l.taken ++ [t] }
    | .error _ => l
  | .clear => { store := l.store.clear, taken := [] }

/-- Calls, one after the other. -/
def run (l : Ledger) (calls : List Call) : Ledger := calls.foldl step l

/-- The ticks taken of a ticker. -/
def takenOf (l : Ledger) (ticker : String) : List Tick := l.taken.filter (·.ticker = ticker)

variable {l : Ledger} {w : Window} {bound : ℕ} {s : Store} {t : Tick} {closed : Bool}
  {ticker : String}

theorem step_of_ok (h : l.store.add t = .ok (s, closed)) :
    l.step (.add t) = { store := s, taken := l.taken ++ [t] } := by
  simp only [step, h]

theorem step_of_error {r : Refusal} (h : l.store.add t = .error r) : l.step (.add t) = l := by
  simp only [step, h]

theorem step_store (l : Ledger) (t : Tick) : (l.step (.add t)).store = l.store.feed t := by
  unfold Store.feed
  cases h : l.store.add t with
  | error r => rw [step_of_error h]
  | ok r => rw [step_of_ok h]

theorem takenOf_concat_self (l : Ledger) (s : Store) (t : Tick) :
    takenOf ⟨s, l.taken ++ [t]⟩ t.ticker = l.takenOf t.ticker ++ [t] := by
  simp [takenOf]

theorem takenOf_concat_of_ne (h : t.ticker ≠ ticker) (l : Ledger) (s : Store) :
    takenOf ⟨s, l.taken ++ [t]⟩ ticker = l.takenOf ticker := by
  simp [takenOf, h]

theorem run_concat (l : Ledger) (calls : List Call) (c : Call) :
    l.run (calls ++ [c]) = (l.run calls).step c := by
  simp [run]

/-- **What holds after any calls**: what holds at first, after every clear, and after every tick
taken. A tick refused changes nothing. -/
theorem run_induction {P : Ledger → Prop} {calls : List Call} (hfresh : P (fresh w bound))
    (hclear : ∀ l, P l → P (l.step .clear))
    (htaken : ∀ (l : Ledger) t s closed, .add t ∈ calls → P l → l.store.add t = .ok (s, closed) →
      P { store := s, taken := l.taken ++ [t] }) : P ((fresh w bound).run calls) := by
  induction calls using List.reverseRecOn with
  | nil => exact hfresh
  | append_singleton calls c ih =>
    have ih := ih fun l t s closed ht => htaken l t s closed (List.mem_append_left _ ht)
    rw [run_concat]
    cases c with
    | clear => exact hclear _ ih
    | add t =>
      cases ha : ((fresh w bound).run calls).store.add t with
      | error r => rw [step_of_error ha]; exact ih
      | ok r => rw [step_of_ok ha]; exact htaken _ t _ _ (by simp) ih ha

/-- **What every history of a run has**: what one without bars has, and what stays when the history
takes a valid tick, in whatever way. -/
theorem forall_history_run {P : String → History → Prop} {calls : List Call} (hw : w.InRange)
    (hcalls : ∀ c ∈ calls, c.Within w) (hnil : ∀ name, P name [])
    (hgrows : ∀ t h h' closed, t.Within w → t.validate = .ok () →
      History.Grows w bound t h h' closed → P t.ticker h → P t.ticker h') (ticker : String) :
    P ticker (((fresh w bound).run calls).store.history ticker) := by
  have hm := hw.millis_pos
  suffices hrun : ((fresh w bound).run calls).store.Ranged w bound ∧
      ∀ name, P name (((fresh w bound).run calls).store.history name) from hrun.2 ticker
  refine run_induction (P := fun l => l.store.Ranged w bound ∧ ∀ name, P name (l.store.history name))
    ⟨Store.ranged_fresh w bound, hnil⟩ (fun l hl => ⟨hl.1.clear, hnil⟩)
    (fun l t s closed hcall hl ha => ?_)
  have ht := hcalls _ hcall
  obtain ⟨hranged, hall⟩ := hl
  obtain ⟨hvalid, hg, hother⟩ := hranged.grows hm ht ha
  refine ⟨hranged.taken hm ht ha, fun name => ?_⟩
  by_cases hname : name = t.ticker
  · subst hname
    exact hgrows t _ _ closed ht hvalid hg (hall t.ticker)
  · exact hother name hname ▸ hall name

/-- The store of a ledger is fed the ticks, one after the other. -/
theorem run_store (l : Ledger) (ticks : List Tick) :
    (l.run (ticks.map .add)).store = ticks.foldl Store.feed l.store := by
  induction ticks using List.reverseRecOn with
  | nil => rfl
  | append_singleton ticks t ih =>
    rw [List.map_append, List.map_singleton, run_concat, List.foldl_concat, ← ih, step_store]

/-- **Every history records the ticks taken of its ticker.** -/
structure Faithful (w : Window) (bound : ℕ) (l : Ledger) : Prop extends l.store.Ranged w bound where
  records : ∀ ticker, History.Records w bound (l.takenOf ticker) (l.store.history ticker)

theorem faithful_fresh (w : Window) (bound : ℕ) : (fresh w bound).Faithful w bound :=
  ⟨Store.ranged_fresh w bound, fun _ => History.records_nil w bound⟩

/-- A clear forgets the ticks with the bars. -/
theorem Faithful.clear (hl : l.Faithful w bound) : (l.step .clear).Faithful w bound :=
  ⟨hl.toRanged.clear, fun _ => History.records_nil w bound⟩

/-- A tick taken is recorded under its ticker. -/
theorem Faithful.taken (hw : 0 < w.millis) (hbound : 1 ≤ bound) (hl : l.Faithful w bound)
    (ht : t.Within w) (ha : l.store.add t = .ok (s, closed)) :
    ({ store := s, taken := l.taken ++ [t] } : Ledger).Faithful w bound := by
  obtain ⟨-, hgrows, hother⟩ := hl.grows hw ht ha
  refine ⟨hl.toRanged.taken hw ht ha, fun ticker => ?_⟩
  by_cases hticker : t.ticker = ticker
  · subst hticker
    rw [takenOf_concat_self]
    exact (hl.records t.ticker).grows hw hbound ht hgrows
  · rw [takenOf_concat_of_ne hticker]
    exact hother ticker (Ne.symm hticker) ▸ hl.records ticker

theorem faithful_run (hw : w.InRange) (hbound : 1 ≤ bound) {calls : List Call}
    (hcalls : ∀ c ∈ calls, c.Within w) :
    ((fresh w bound).run calls).Faithful w bound :=
  run_induction (faithful_fresh w bound) (fun _ hl => hl.clear)
    (fun _ _ _ _ hcall hl ha => hl.taken hw.millis_pos hbound (hcalls _ hcall) ha)

/-- The ticks taken are among those that the calls brought, in order. -/
theorem taken_sublist (w : Window) (bound : ℕ) (calls : List Call) :
    ((fresh w bound).run calls).taken.Sublist (calls.filterMap Call.tick?) := by
  induction calls using List.reverseRecOn with
  | nil => exact .slnil
  | append_singleton calls c ih =>
    rw [run_concat, List.filterMap_append]
    cases c with
    | clear => exact List.nil_sublist _
    | add t =>
      cases ha : ((fresh w bound).run calls).store.add t with
      | error r =>
        rw [step_of_error ha]
        exact ih.trans (List.sublist_append_left _ _)
      | ok r =>
        rw [step_of_ok ha]
        exact ih.append (.refl _)

/-- **What every bar of a run has**, whether 64 bits hold what it shows or not: what the bar of a tick
of its ticker has, and what stays when such a tick is folded in. -/
theorem forall_bar_run {P : String → Bar → Prop} {calls : List Call}
    (hopen : ∀ t, Call.add t ∈ calls → ∀ reported, P t.ticker
      { Bar.ofTick t with start := w.floor t.start, closureReported := reported })
    (hfold : ∀ b t, Call.add t ∈ calls → P t.ticker b → P t.ticker (b.fold t))
    (hmark : ∀ name b reported, P name b → P name { b with closureReported := reported })
    (ticker : String) : ∀ b ∈ ((fresh w bound).run calls).store.history ticker, P ticker b := by
  suffices hrun : ((fresh w bound).run calls).store.window = w ∧
      ∀ name, ∀ b ∈ ((fresh w bound).run calls).store.history name, P name b from hrun.2 ticker
  refine run_induction (P := fun l => l.store.window = w ∧ ∀ name, ∀ b ∈ l.store.history name, P name b)
    ⟨rfl, fun _ _ hb => nomatch hb⟩ (fun _ hl => ⟨hl.1, fun _ _ hb => nomatch hb⟩)
    (fun l t s closed hcall hl ha => ?_)
  obtain ⟨hwindow, hall⟩ := hl
  obtain ⟨h, hadd, rfl⟩ := Store.add_eq_ok_iff.1 ha
  refine ⟨hwindow, fun name => ?_⟩
  rw [Store.history_put]
  split
  · rename_i hname
    subst hname
    rw [hwindow] at hadd
    exact History.forall_of_add (hopen t hcall) (fun b hb => hfold b t hcall hb) (hmark t.ticker) hadd
      (hall t.ticker)
  · exact hall name

/-- **A bar is of its ticker**, and starts where the window of a tick does. -/
theorem start_of_mem {calls : List Call} {b : Bar}
    (hb : b ∈ ((fresh w bound).run calls).store.history ticker) :
    b.ticker = ticker ∧ ∃ t, Call.add t ∈ calls ∧ b.start = w.floor t.start :=
  forall_bar_run (P := fun name b => b.ticker = name ∧ ∃ t, Call.add t ∈ calls ∧ b.start = w.floor t.start)
    (fun t ht _ => ⟨rfl, t, ht, rfl⟩) (fun _ _ _ h => h) (fun _ _ _ h => h) ticker b hb

theorem named_run (w : Window) (bound : ℕ) (calls : List Call) (ticker : String) :
    ∀ b ∈ ((fresh w bound).run calls).store.history ticker, b.ticker = ticker :=
  fun _ hb => (start_of_mem hb).1

/-- The open of a bar is that of a tick. -/
theorem openPrice_of_mem {ticks : List Tick} {b : Bar}
    (hb : b ∈ (ticks.foldl Store.feed (.fresh w bound)).history ticker) :
    ∃ t ∈ ticks, t.openPrice = b.openPrice := by
  have hrun : (run (fresh w bound) (ticks.map .add)).store =
      ticks.foldl Store.feed (.fresh w bound) := run_store _ ticks
  rw [← hrun] at hb
  refine forall_bar_run (P := fun _ b => ∃ t ∈ ticks, t.openPrice = b.openPrice)
    (fun t ht _ => ⟨t, by simpa using ht, rfl⟩) (fun _ _ _ h => h) (fun _ _ _ h => h) ticker b hb

/-- The volume of a bar has 64 bits, when those of the ticks have. -/
theorem signed_volume_of_mem {ticks : List Tick} (hticks : ∀ t ∈ ticks, Signed t.volume) :
    ∀ b ∈ (ticks.foldl Store.feed (.fresh w bound)).history ticker, Signed b.volume := by
  have hrun : (run (fresh w bound) (ticks.map .add)).store =
      ticks.foldl Store.feed (.fresh w bound) := run_store _ ticks
  rw [← hrun]
  exact forall_bar_run (P := fun _ b => Signed b.volume)
    (fun t ht _ => hticks t (by simpa using ht)) (fun _ _ _ _ => signed_wrap _) (fun _ _ _ h => h) ticker

end Ledger

end TapeReader

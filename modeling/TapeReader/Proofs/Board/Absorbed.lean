import TapeReader.Proofs.Board.Arrivals
import TapeReader.Proofs.Board.Dispatch
import TapeReader.Proofs.Market.Span

/-!
# Ticks absorbed and ticks refused

A message counts its ticks, and tells of them, whether any store has absorbed them or not.

* `Called`: stores with calls made on them; `OnlyCalls`: watchers that do no more to the stores.
* `Reached`: the worlds that a board of a configuration comes into, its stores only called.
* `Turn`: a tick with the stores that it is offered to; `Turn.Absorbed`: one of them takes it.
* `Turn.taken_iff`: **a store takes a tick that fits in its window, unless it has a bar that starts
  later.**
* `receive_counts`: **a message counts and announces absorbed ticks and refused ticks alike.**
-/

namespace TapeReader

namespace PerResolution

variable {α : Type} {p q : PerResolution α}

theorem ext_get (h : ∀ r, p.get r = q.get r) : p = q := by
  obtain ⟨_, _, _, _⟩ := p
  obtain ⟨_, _, _, _⟩ := q
  rw [mk.injEq]
  exact ⟨h .oneSecond, h .tenSeconds, h .oneMinute, h .fiveMinutes⟩

end PerResolution

namespace Board

variable {κ σ ν : Type}

/-! ## Calls -/

/-- Stores with calls made on them, of ticks of 64 bits. -/
def Called (stores stores' : PerResolution Store) : Prop :=
  ∃ ticks, (∀ t ∈ ticks, t.Sized) ∧ Brings ticks stores stores'

variable {stores stores' stores'' : PerResolution Store} {t : Tick}

theorem Brings.called (h : Brings [] stores stores') : Called stores stores' := ⟨[], by simp, h⟩

theorem Called.refl (stores : PerResolution Store) : Called stores stores := (Brings.refl stores).called

theorem Called.trans (h : Called stores stores') (h' : Called stores' stores'') :
    Called stores stores'' := by
  obtain ⟨ticks, hsized, hbrings⟩ := h
  obtain ⟨more, hmore, hbrings'⟩ := h'
  exact ⟨ticks ++ more, List.forall_mem_append.2 ⟨hsized, hmore⟩, hbrings.trans hbrings'⟩

theorem called_feedAll (stores : PerResolution Store) (ht : t.Sized) :
    Called stores (feedAll stores t) :=
  ⟨[t], List.forall_mem_singleton.2 ht, brings_feedAll stores t⟩

theorem Called.proper (h : Called stores stores') (hproper : Proper stores) : Proper stores' := by
  obtain ⟨_, -, hbrings⟩ := h
  exact hbrings.proper hproper

/-- All that watchers do to the stores is to call them, by messages of their own perhaps. -/
def OnlyCalls (react : Reaction κ σ ν) : Prop :=
  ∀ watcher ticker w, Called w.board.stores (react watcher ticker w).1.board.stores

variable {react : Reaction κ σ ν} {told : List (String × κ)} {ticks : List Tick} {w : World κ σ}
  {raw : String}

/-- Watchers that work by acts only call the stores. -/
theorem WorksBy.onlyCalls {acts : κ → String → World κ σ → List (Act κ)}
    (h : WorksBy react acts) : OnlyCalls react := fun watcher ticker w =>
  (h.bringsNone watcher ticker w).called

/-- Ticks of 64 bits are calls, as far as the stores see them. -/
theorem OnlyCalls.applyAll (h : OnlyCalls react) (told : List (String × κ))
    (hsized : ∀ t ∈ ticks, t.Sized) (hproper : Proper w.board.stores) :
    Called w.board.stores (applyAll react told ticks w).1.board.stores := by
  refine ticks_keep (P := fun w' => Called w.board.stores w'.board.stores) (fun t ht w' hw' => ?_)
    (fun e _ ticker w' hw' => hw'.trans (h e.2 ticker w')) (.refl _)
  rw [offer_all (hw'.proper hproper)]
  exact hw'.trans (called_feedAll _ (hsized t ht))

/-- **A message is made of calls**, as far as the stores see it. -/
theorem OnlyCalls.receive (h : OnlyCalls react) (raw : String) (hproper : Proper w.board.stores) :
    Called w.board.stores (receive react raw w).1.board.stores := by
  rw [receive_eq]
  exact h.applyAll _ (fun t ht => (of_mem_ticksOf ht).2) hproper

/-- The worlds that a board of a configuration comes into: it is made, gets messages, is acted on
from elsewhere, and what is around it changes. -/
inductive Reached (react : Reaction κ σ ν) (c : Config.Aggregation) : World κ σ → Prop
  | fresh (around : σ) : Reached react c ⟨ofConfig c, around⟩
  | message {w : World κ σ} (h : Reached react c w) (raw : String) :
      Reached react c (receive react raw w).1
  | act {w : World κ σ} (h : Reached react c w) (a : Act κ) :
      Reached react c { w with board := w.board.act a }
  | meanwhile {w : World κ σ} (h : Reached react c w) (around : σ) :
      Reached react c { w with around }

variable {c : Config.Aggregation}

/-- The stores have only been called since the board was made. -/
theorem Reached.called (hproper : c.Proper) (hcalls : OnlyCalls react) (h : Reached react c w) :
    Called (ofConfig c : Board κ).stores w.board.stores := by
  induction h with
  | fresh around => exact .refl _
  | message _ raw ih => exact ih.trans (hcalls.receive raw (ih.proper (proper_ofConfig hproper)))
  | act _ a ih => exact ih.trans (brings_act _ a).called
  | meanwhile _ around ih => exact ih

/-! ## Turns -/

/-- A tick about to be offered, with the stores that it comes upon. -/
structure Turn where
  stores : PerResolution Store
  tick : Tick

namespace Turn

/-- The store of a resolution adds the tick. -/
def Taken (turn : Turn) (r : Resolution) : Prop := ((turn.stores.get r).add turn.tick).isOk = true

instance (turn : Turn) (r : Resolution) : Decidable (turn.Taken r) :=
  inferInstanceAs (Decidable (_ = _))

/-- Some store adds the tick. -/
def Absorbed (turn : Turn) : Prop := ∃ r ∈ Resolution.all, turn.Taken r

instance (turn : Turn) : Decidable turn.Absorbed := inferInstanceAs (Decidable (∃ r ∈ _, _))

/-- **A tick that no store adds leaves every bar as it is.** -/
theorem feedAll_of_not_absorbed {turn : Turn} (h : ¬ turn.Absorbed) :
    feedAll turn.stores turn.tick = turn.stores := by
  refine PerResolution.ext_get fun r => ?_
  have hr : ¬ turn.Taken r := fun htaken => h ⟨r, r.mem_all, htaken⟩
  unfold feedAll Store.feed
  rw [PerResolution.get_map]
  unfold Taken at hr
  cases hadd : (turn.stores.get r).add turn.tick with
  | error refusal => rfl
  | ok added => simp [hadd, Except.isOk, Except.toBool] at hr

/-- **Which stores take a valid tick**: the tick ends within the window it starts in, and the newest
bar does not start later than it does. The tick and the bar are within range. -/
theorem taken_iff (hrange : c.InRange) {turn : Turn}
    (hcalled : Called (ofConfig c : Board κ).stores turn.stores)
    (hvalid : turn.tick.validate = .ok ()) (r : Resolution) :
    let w : Window := ⟨c.resolutionsSecs.get r⟩
    let newest := ((turn.stores.get r).history turn.tick.ticker).head?
    turn.tick.Within w → (∀ bar ∈ newest, w.Holds bar.start) →
      (turn.Taken r ↔ turn.tick.stop ≤ w.edge (w.of turn.tick) ∧
        ∀ bar ∈ newest, bar.start ≤ turn.tick.start) := by
  intro w newest ht hholds
  obtain ⟨ticks, hsized, calls, rfl, hstores⟩ := hcalled
  have hstore : turn.stores.get r = calls.foldl Store.after (.fresh w c.historyLen) := by
    rw [hstores, get_foldl_callAll, ofConfig_get]
  have hstart : ∀ a, Call.add a ∈ calls → Signed a.start := fun a ha =>
    (hsized a (Call.mem_ticks_iff.2 ha)).start
  unfold Taken
  simp only [newest, hstore] at hholds ⊢
  exact Store.isOk_add_iff (hrange.window r).millis_pos hstart ht hvalid hholds

end Turn

/-- Ticks applied in turn, each with the stores that it comes upon. -/
def turns (react : Reaction κ σ ν) (told : List (String × κ)) : List Tick → World κ σ → List Turn
  | [], _ => []
  | t :: rest, w => ⟨w.board.stores, t⟩ :: turns react told rest (apply react told t w).1

theorem map_tick_turns (react : Reaction κ σ ν) (told : List (String × κ)) (ticks : List Tick)
    (w : World κ σ) : (turns react told ticks w).map Turn.tick = ticks := by
  induction ticks generalizing w with
  | nil => rfl
  | cons t rest ih => exact congrArg (t :: ·) (ih _)

/-- Ticks of 64 bits come upon stores that have only been called. -/
theorem OnlyCalls.turns (h : OnlyCalls react) (told : List (String × κ))
    (hsized : ∀ t ∈ ticks, t.Sized) (hproper : Proper w.board.stores) :
    ∀ turn ∈ turns react told ticks w, Called w.board.stores turn.stores := by
  induction ticks generalizing w with
  | nil => simp [Board.turns]
  | cons t rest ih =>
    have hfirst : Called w.board.stores (apply react told t w).1.board.stores := by
      refine apply_keeps (P := fun w' => Called w.board.stores w'.board.stores) ?_
        fun e _ ticker w' hw' => hw'.trans (h e.2 ticker w')
      rw [offer_all hproper]
      exact called_feedAll _ (hsized t List.mem_cons_self)
    intro turn hturn
    rcases List.mem_cons.1 hturn with rfl | hturn
    · exact .refl _
    · exact hfirst.trans (ih (fun a ha => hsized a (List.mem_cons_of_mem t ha))
        (hfirst.proper hproper) turn hturn)

/-! ## Announcements -/

/-- All watchers are told, when none gives up. -/
theorem notify_told {ticker : String} (h : (notify react ticker told w).2.2 = .ok ()) :
    (notify react ticker told w).2.1.map Notice.told = (told.map (·.1)).map (·, ticker) := by
  induction told generalizing w with
  | nil => rfl
  | cons entry rest ih =>
    obtain ⟨name, watcher⟩ := entry
    unfold notify at h ⊢
    cases hr : react watcher ticker w with
    | mk w' result =>
      rw [hr] at h
      cases result with
      | error a => simp at h
      | ok note => exact congrArg ((name, ticker) :: ·) (ih h)

theorem apply_told {t : Tick} (h : (apply react told t w).2.2 = .ok ()) :
    (apply react told t w).2.1.map Notice.told = (told.map (·.1)).map (·, t.ticker) := by
  unfold apply at h ⊢
  cases hoffer : offer t Resolution.all w.board.stores with
  | mk stores done =>
    rw [hoffer] at h
    cases done with
    | error a => simp at h
    | ok u => exact notify_told h

theorem applyAll_told (h : (applyAll react told ticks w).2.2 = .ok ()) :
    (applyAll react told ticks w).2.1.map Notice.told =
      ticks.flatMap fun t => (told.map (·.1)).map (·, t.ticker) := by
  induction ticks generalizing w with
  | nil => rfl
  | cons t rest ih =>
    have hfirst : (apply react told t w).2.2 = .ok () → _ := apply_told
    unfold applyAll at h ⊢
    cases hr : apply react told t w with
    | mk w' p =>
      obtain ⟨notices, done⟩ := p
      rw [hr] at h hfirst
      cases done with
      | error a => simp at h
      | ok u =>
        rw [List.flatMap_cons, ← hfirst rfl, ← ih h, ← List.map_append]

/-- A message that is counted has told everyone of every tick. -/
theorem receive_ok {n : ℕ} (h : (receive react raw w).2.2 = .ok n) :
    n = (ticksOf raw).length ∧ (receive react raw w).2.1.map Notice.told =
      (ticksOf raw).flatMap fun t => w.board.watchers.names.map (·, t.ticker) := by
  rw [receive_eq] at h ⊢
  dsimp only at h ⊢
  cases hdone : (applyAll react w.board.watchers.entries (ticksOf raw) w).2.2 with
  | error a => simp [hdone] at h
  | ok u =>
    rw [hdone] at h
    refine ⟨?_, applyAll_told hdone⟩
    rcases counted_cases raw with hcounted | ⟨-, hrefused | hrefused⟩
    · exact (Except.ok.inj (hcounted.symm.trans h)).symm
    · simp [hrefused] at h
    · simp [hrefused] at h

/-- What is announced to watchers of ticks, turn by turn. -/
def announced (names : List String) (turns : List Turn) : List (String × String) :=
  turns.flatMap fun turn => names.map (·, turn.tick.ticker)

theorem length_announced (names : List String) (turns : List Turn) :
    (announced names turns).length = turns.length * names.length := by
  unfold announced
  simp only [List.length_flatMap, List.length_map, List.map_const', List.sum_replicate,
    smul_eq_mul]

/-- What is announced is of ticks absorbed only just when all are, or there is no one to tell. -/
theorem announced_filter_iff (names : List String) (turns : List Turn) :
    announced names turns = announced names (turns.filter (·.Absorbed)) ↔
      turns.filter (¬ ·.Absorbed) = [] ∨ names = [] := by
  constructor
  · intro hsame
    have hlength := turns.length_eq_length_filter_add (·.Absorbed)
    have hequal := congrArg List.length hsame
    rw [length_announced, length_announced, hlength, add_mul, Nat.add_eq_left,
      mul_eq_zero, List.length_eq_zero_iff, List.length_eq_zero_iff] at hequal
    simpa only [decide_not] using hequal
  · rintro (hnone | rfl)
    · have hall : turns.filter (·.Absorbed) = turns := by
        simpa [List.filter_eq_self, List.filter_eq_nil_iff] using hnone
      rw [hall]
    · have hnone : ∀ turns, announced [] turns = [] := fun turns =>
        List.flatMap_eq_nil_iff.2 fun _ _ => rfl
      rw [hnone, hnone]

/-- **What a message counts and announces.** If a message is counted, then the count is of all its ticks,
those that some store takes and those that every store refuses, and everyone on the roster has been told
of all of them. So the count is that of the absorbed ticks just when none is refused, and the same goes
for what is announced, unless the roster is empty. A tick refused leaves every bar as it is. And where
watchers do no more to the stores than to call them, and the message comes into any world that the board
can come into, a store takes a tick that ends within the window it starts in, unless the newest bar of its
ticker starts later than it does; windows, tick and bar are within range for that. -/
theorem receive_counts (raw : String) (n : ℕ) (hn : (receive react raw w).2.2 = .ok n) :
    let names := w.board.watchers.names
    let turns := turns react w.board.watchers.entries (ticksOf raw) w
    let absorbed := turns.filter (·.Absorbed)
    let refused := turns.filter (¬ ·.Absorbed)
    let told := (receive react raw w).2.1.map Notice.told
    turns.map Turn.tick = ticksOf raw ∧
      n = absorbed.length + refused.length ∧ told = announced names turns ∧
      (n = absorbed.length ↔ refused = []) ∧
      (told = announced names absorbed ↔ refused = [] ∨ names = []) ∧
      (∀ turn ∈ refused, feedAll turn.stores turn.tick = turn.stores) ∧
      ∀ c : Config.Aggregation, c.InRange → OnlyCalls react → Reached react c w →
        ∀ turn ∈ turns, ∀ r,
          let window : Window := ⟨c.resolutionsSecs.get r⟩
          let newest := ((turn.stores.get r).history turn.tick.ticker).head?
          turn.tick.Within window → (∀ bar ∈ newest, window.Holds bar.start) →
            (turn.Taken r ↔ turn.tick.stop ≤ window.edge (window.of turn.tick) ∧
              ∀ bar ∈ newest, bar.start ≤ turn.tick.start) := by
  intro names turns absorbed refused told
  have hticks : turns.map Turn.tick = ticksOf raw := map_tick_turns _ _ _ _
  obtain ⟨hcount, htold⟩ := receive_ok hn
  have hannounced : told = announced names turns := by
    rw [show told = _ from htold, ← hticks, List.flatMap_map]
    rfl
  have hlength : n = absorbed.length + refused.length := by
    rw [hcount, ← hticks, List.length_map, turns.length_eq_length_filter_add (·.Absorbed)]
    simp only [absorbed, refused, decide_not]
  refine ⟨hticks, hlength, hannounced, ?_, ?_, ?_, ?_⟩
  · rw [hlength, ← List.length_eq_zero_iff]
    omega
  · rw [hannounced]
    exact announced_filter_iff names turns
  · intro turn hturn
    have hrefused : ¬ turn.Absorbed := by simpa using (List.mem_filter.1 hturn).2
    exact turn.feedAll_of_not_absorbed hrefused
  · intro c hrange hcalls hw turn hturn r
    have hreached := hw.called hrange.proper hcalls
    have hcalled := hcalls.turns w.board.watchers.entries (fun t ht => (of_mem_ticksOf ht).2)
      (hreached.proper (proper_ofConfig hrange.proper)) turn hturn
    have hvalid := (of_mem_ticksOf (hticks ▸ List.mem_map_of_mem hturn)).1
    exact turn.taken_iff hrange (hreached.trans hcalled) hvalid r

/-- The message of one tick that is longer than any window. -/
def overlong : String :=
  "[\x7b\"ev\":\"A\",\"sym\":\"SPCE\",\"v\":1,\"av\":9,\"op\":2,\"vw\":2," ++
    "\"o\":2,\"c\":2,\"h\":2,\"l\":2,\"s\":0,\"e\":400000\x7d]"

/-- A board that someone listens to. -/
def listened : World Watcher Unit := ⟨(ofConfig {}).act (.register "log" .observer), ()⟩

theorem reached_listened : Reached Watcher.react {} listened := .act (.fresh ()) _

theorem receive_overlong : (receive Watcher.react overlong listened).2.2 = .ok 1 := by
  decide +kernel

/-- The tick is longer than any window, and comes upon stores without bars. -/
theorem turns_overlong :
    ∀ turn ∈ turns Watcher.react listened.board.watchers.entries (ticksOf overlong) listened,
      ∀ r ∈ Resolution.all,
        let window : Window := ⟨({} : Config.Aggregation).resolutionsSecs.get r⟩
        turn.tick.Within window ∧ ¬ turn.tick.stop ≤ window.edge (window.of turn.tick) ∧
          ((turn.stores.get r).history turn.tick.ticker).head? = none := by
  decide +kernel

/-- A tick that every store refuses is counted, and the one who listens is told of it. -/
theorem receive_counts_overlong :
    let turns := turns Watcher.react listened.board.watchers.entries (ticksOf overlong) listened
    let told := (receive Watcher.react overlong listened).2.1.map Notice.told
    turns.filter (·.Absorbed) = [] ∧ (turns.filter (¬ ·.Absorbed)).length = 1 ∧
      told = announced ["log"] turns ∧ told ≠ announced ["log"] (turns.filter (·.Absorbed)) ∧
      ∀ turn ∈ turns, feedAll turn.stores turn.tick = turn.stores := by
  intro turns told
  obtain ⟨-, hcount, htold, -, hsame, hunchanged, htaken⟩ :=
    receive_counts overlong 1 receive_overlong
  have hnone : turns.filter (·.Absorbed) = [] := by
    simp only [List.filter_eq_nil_iff, decide_eq_true_eq]
    rintro turn hturn ⟨r, hr, habsorbed⟩
    obtain ⟨hwithin, hlong, hfresh⟩ := turns_overlong turn hturn r hr
    exact hlong ((htaken {} (by decide) Watcher.worksBy.onlyCalls reached_listened turn hturn r hwithin
      (by simp [hfresh])).1 habsorbed).1
  have hrefused : (turns.filter (¬ ·.Absorbed)).length = 1 := by
    rw [show turns.filter (·.Absorbed) = [] from hnone] at hcount
    simpa using hcount.symm
  refine ⟨hnone, hrefused, htold, fun heq => ?_, fun turn hturn => ?_⟩
  · rcases hsame.1 heq with hempty | hempty
    · rw [hempty] at hrefused
      exact absurd hrefused (by decide)
    · exact absurd hempty (by decide)
  · refine hunchanged turn (List.mem_filter.2 ⟨hturn, ?_⟩)
    simpa using List.filter_eq_nil_iff.1 hnone turn hturn

/-- The count is not that of the absorbed ticks, and what is announced is more than they. -/
theorem refused_counted : ¬ ∀ (c : Config.Aggregation) (w : World Watcher Unit) (raw : String)
    (n : ℕ), c.validate = .ok () → Reached Watcher.react c w →
    (receive Watcher.react raw w).2.2 = .ok n →
      let absorbed := (turns Watcher.react w.board.watchers.entries (ticksOf raw) w).filter
        (·.Absorbed)
      n = absorbed.length ∧
        (receive Watcher.react raw w).2.1.map Notice.told =
          announced w.board.watchers.names absorbed := by
  intro hclaim
  have hcount := (hclaim {} listened overlong 1 (by decide) reached_listened receive_overlong).1
  revert hcount
  decide +kernel

end Board

end TapeReader

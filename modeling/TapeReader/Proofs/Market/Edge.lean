import TapeReader.Proofs.Market.Log
import TapeReader.Proofs.Market.Acceptance

/-!
# Where a bar ends

A bar ends where the tick does that it absorbed last, and that need not be the latest end of those it
absorbed.

* `Window.EndsInOrder`: in each window, ticks that came in order of their ends.
* `Ledger.Edged`: every bar ends at the upper edge of what it has absorbed.
* `Ledger.newest_stop`: after a tick taken, the newest bar ends with the tick.
* `Ledger.stop_of_last`: **all bars end at the upper edge of what they have absorbed, at all times,
  just when the ticks of each window come in order of their ends.**
-/

namespace TapeReader

/-- The last of some values that do not go down is the greatest. -/
theorem isGreatest_of_getLast? {α : Type} {l : List α} {f : α → ℤ} {e : ℤ}
    (h : (l.map f).Pairwise (· ≤ ·)) (hlast : l.getLast?.map f = some e) :
    IsGreatest {x | ∃ a ∈ l, f a = x} e := by
  obtain ⟨last, hl, rfl⟩ := Option.map_eq_some_iff.1 hlast
  obtain ⟨before, rfl⟩ := List.getLast?_eq_some_iff.1 hl
  refine ⟨⟨last, by simp, rfl⟩, ?_⟩
  rintro _ ⟨a, ha, rfl⟩
  rw [List.map_append, List.pairwise_append] at h
  rcases List.mem_append.1 ha with ha | ha
  · exact h.2.2 _ (List.mem_map_of_mem ha) _ (by simp)
  · rw [List.mem_singleton.1 ha]

namespace Window

/-- In each window, the ticks came in order of their ends. -/
def EndsInOrder (w : Window) (ticks : List Tick) : Prop :=
  ∀ start, ((w.ticksIn ticks start).map Tick.stop).Pairwise (· ≤ ·)

variable {w : Window} {ticks more : List Tick} {t : Tick}

theorem EndsInOrder.of_isPrefix (h : w.EndsInOrder more) (hle : ticks <+: more) :
    w.EndsInOrder ticks := by
  intro start
  have hin : w.ticksIn ticks start <+: w.ticksIn more start := hle.filter _
  exact (h start).sublist (hin.map _).sublist

/-- One more tick in order is one that ends no earlier than those of its window. -/
theorem endsInOrder_concat : w.EndsInOrder (ticks ++ [t]) ↔
    w.EndsInOrder ticks ∧ ∀ a ∈ w.ticksIn ticks (w.of t), a.stop ≤ t.stop := by
  have hown : ((w.ticksIn (ticks ++ [t]) (w.of t)).map Tick.stop).Pairwise (· ≤ ·) ↔
      ((w.ticksIn ticks (w.of t)).map Tick.stop).Pairwise (· ≤ ·) ∧
        ∀ a ∈ w.ticksIn ticks (w.of t), a.stop ≤ t.stop := by
    rw [ticksIn_concat_self, List.map_append, List.pairwise_append]
    simp
  constructor
  · intro h
    exact ⟨h.of_isPrefix (List.prefix_append _ _), (hown.1 (h _)).2⟩
  · rintro ⟨h, hlast⟩ start
    by_cases hof : w.of t = start
    · exact hof ▸ hown.2 ⟨h _, hlast⟩
    · rw [ticksIn_concat_of_ne hof]
      exact h start

end Window

namespace History

variable {w : Window} {bound : ℕ} {h h' : History} {t : Tick} {closed : Bool} {ticks : List Tick}

/-- A history without room stays without bars. -/
theorem Grows.eq_nil (hg : Grows w 0 t [] h' closed) : h' = [] := by
  cases hg with
  | opened hlate hfit => rfl

/-- **The newest bar ends with the tick taken last**, whatever it absorbed before. -/
theorem Records.front_of_grows (hbound : 1 ≤ bound) (hr : Records w bound ticks h)
    (hg : Grows w bound t h h' closed) :
    ∃ front ∈ h'.head?, front.start = w.of t ∧ front.stop = t.stop := by
  cases hg with
  | merged hticker hstart hin hfit =>
    exact ⟨_, rfl, (hr.of_eq_front hstart hin).symm, rfl⟩
  | opened hlate hfit =>
    obtain ⟨k, rfl⟩ : ∃ k, bound = k + 1 := ⟨bound - 1, by omega⟩
    exact ⟨_, rfl, rfl, rfl⟩

end History

namespace Ledger

variable {l : Ledger} {w : Window} {bound : ℕ} {s : Store} {t : Tick} {closed : Bool}

/-- Every bar ends at the upper edge of what it has absorbed. -/
def Edged (w : Window) (l : Ledger) : Prop :=
  ∀ ticker, ∀ b ∈ l.store.history ticker,
    IsGreatest {e | ∃ a ∈ w.ticksIn (l.takenOf ticker) b.start, a.stop = e} b.stop

/-- The ticks taken first stay the first. -/
theorem takenOf_isPrefix (l : Ledger) (ticks : List Tick) (ticker : String) :
    l.takenOf ticker <+: (l.run (ticks.map .add)).takenOf ticker := by
  induction ticks using List.reverseRecOn with
  | nil => exact List.prefix_rfl
  | append_singleton ticks t ih =>
    rw [List.map_append, List.map_singleton, run_concat]
    cases hadd : (l.run (ticks.map .add)).store.add t with
    | error r => rw [step_of_error hadd]; exact ih
    | ok r =>
      rw [step_of_ok hadd]
      exact ih.trans ((List.prefix_append _ _).filter _)

/-- After a tick taken, the newest bar ends with the tick. -/
theorem newest_stop (hw : w.InRange) (hbound : 1 ≤ bound) (hl : l.Faithful w bound)
    (ht : t.Within w) (hadd : l.store.add t = .ok (s, closed)) :
    ∃ front ∈ (s.history t.ticker).head?, front.start = w.of t ∧ front.stop = t.stop := by
  exact (hl.records t.ticker).front_of_grows hbound (hl.grows hw.millis_pos ht hadd).2.1

/-- A store without room keeps no bars. -/
theorem history_of_no_room (hw : w.InRange) {calls : List Call} (hcalls : ∀ c ∈ calls, c.Within w)
    (ticker : String) : ((fresh w 0).run calls).store.history ticker = [] := by
  refine forall_history_run (P := fun _ h => h = []) hw hcalls (fun _ => rfl) ?_ ticker
  rintro t h h' closed - - hg rfl
  exact hg.eq_nil

/-- Bars that ended at the upper edge at all times have ticks that came in order of their ends. -/
theorem endsInOrder_of_edged (hw : w.InRange) (hbound : 1 ≤ bound) {ticks : List Tick}
    (hticks : ∀ t ∈ ticks, t.Within w)
    (h : ∀ before, before <+: ticks → Edged w ((fresh w bound).run (before.map .add)))
    (ticker : String) :
    w.EndsInOrder (((fresh w bound).run (ticks.map .add)).takenOf ticker) := by
  -- on the ticks from the last one back: the hypothesis is about every earlier time too
  induction ticks using List.reverseRecOn with
  | nil => intro start; exact List.Pairwise.nil
  | append_singleton ticks t ih =>
    obtain ⟨hticks, ht⟩ := List.forall_mem_append.1 hticks
    have ht : t.Within w := ht t (List.mem_singleton_self t)
    have ih := ih hticks fun before hle => h before (hle.trans (List.prefix_append _ _))
    have hedged := h _ List.prefix_rfl
    have hl : ((fresh w bound).run (ticks.map .add)).Faithful w bound :=
      faithful_run hw hbound (List.forall_mem_map.2 hticks)
    rw [List.map_append, List.map_singleton, run_concat] at hedged ⊢
    set l := (fresh w bound).run (ticks.map .add)
    cases hadd : l.store.add t with
    | error r => rw [step_of_error hadd]; exact ih
    | ok r =>
      obtain ⟨s, closed⟩ := r
      rw [step_of_ok hadd] at hedged ⊢
      by_cases hticker : t.ticker = ticker
      · subst hticker
        rw [takenOf_concat_self]
        refine Window.endsInOrder_concat.2 ⟨ih, fun a ha => ?_⟩
        -- the newest bar ends with the tick, and the bar's end is the greatest
        obtain ⟨front, hfront, hstart, hstop⟩ := newest_stop hw hbound hl ht hadd
        have hmax := (hedged t.ticker front (List.mem_of_mem_head? hfront)).2
        rw [takenOf_concat_self, hstart, Window.ticksIn_concat_self] at hmax
        exact hstop ▸ hmax ⟨a, List.mem_append_left _ ha, rfl⟩
      · rw [takenOf_concat_of_ne hticker]
        exact ih

/-- Bars made of ticks that came in order of their ends. -/
theorem edged_of_endsInOrder (hl : l.Faithful w bound)
    (h : ∀ ticker, w.EndsInOrder (l.takenOf ticker)) : Edged w l := by
  intro ticker b hb
  exact isGreatest_of_getLast? (h ticker b.start) ((hl.records ticker).sums b hb).stop

/-- **A bar ends where the tick ends that it absorbed last.** Every tick taken puts the end of the
newest bar where its own is, further back when it ends earlier. So all bars end at the upper edge of
what they have absorbed, at all times, just when the ticks taken of each window come in order of their
ends, or there are no bars. -/
theorem stop_of_last (hw : w.InRange) (bound : ℕ) (ticks : List Tick)
    (hticks : ∀ t ∈ ticks, t.Within w) :
    let l := (fresh w bound).run (ticks.map .add)
    (∀ ticker, ∀ b ∈ l.store.history ticker,
      (w.ticksIn (l.takenOf ticker) b.start).getLast?.map Tick.stop = some b.stop) ∧
      (∀ t s closed, t.Within w → l.store.add t = .ok (s, closed) →
        ∀ front ∈ (s.history t.ticker).head?, front.start = w.of t ∧ front.stop = t.stop) ∧
      ((∀ before, before <+: ticks → Edged w ((fresh w bound).run (before.map .add))) ↔
        bound = 0 ∨ ∀ ticker, w.EndsInOrder (l.takenOf ticker)) := by
  intro l
  rcases Nat.eq_zero_or_pos bound with rfl | hbound
  · -- no bars, at no time
    have hnone : ∀ before : List Tick, (∀ t ∈ before, t.Within w) → ∀ ticker,
        ((fresh w 0).run (before.map .add)).store.history ticker = [] := fun before hbefore =>
      history_of_no_room hw (List.forall_mem_map.2 hbefore)
    refine ⟨fun ticker b hb => ?_, fun t s closed ht hadd front hfront => ?_, ?_⟩
    · rw [hnone ticks hticks] at hb
      cases hb
    · have hs := hnone (ticks ++ [t]) (List.forall_mem_append.2 ⟨hticks, by simpa using ht⟩) t.ticker
      rw [List.map_append, List.map_singleton, run_concat, step_of_ok hadd] at hs
      rw [hs] at hfront
      cases hfront
    · refine iff_of_true (fun before hle ticker b hb => ?_) (Or.inl rfl)
      rw [hnone before fun t ht => hticks t (hle.subset ht)] at hb
      cases hb
  · have hfaithful : ∀ before : List Tick, (∀ t ∈ before, t.Within w) →
        ((fresh w bound).run (before.map .add)).Faithful w bound := fun before hbefore =>
      faithful_run hw hbound (List.forall_mem_map.2 hbefore)
    have hl : l.Faithful w bound := hfaithful ticks hticks
    refine ⟨fun ticker b hb => ((hl.records ticker).sums b hb).stop,
      fun t s closed ht hadd front hfront => ?_, ?_⟩
    · obtain ⟨front', hfront', hends⟩ := newest_stop hw hbound hl ht hadd
      exact Option.mem_unique hfront hfront' ▸ hends
    · rw [or_iff_right (by omega)]
      constructor
      · exact fun h ticker => endsInOrder_of_edged hw hbound hticks h ticker
      · rintro h before ⟨rest, rfl⟩
        -- the ticks taken by then are the first of those taken in all
        refine edged_of_endsInOrder
          (hfaithful before fun t ht => hticks t (List.mem_append_left _ ht)) fun ticker => ?_
        have hrun : l = ((fresh w bound).run (before.map .add)).run (rest.map .add) := by
          simp only [l, run, List.map_append, List.foldl_append]
        exact (h ticker).of_isPrefix (hrun ▸ takenOf_isPrefix _ rest ticker)

/-- A bar that has reached the edge of its window, and ends before it again after a tick that ends
earlier. -/
theorem stop_of_last_back :
    let ticks := [Tick.plain (-10000) 0, Tick.plain (-8000) (-7000)]
    let l := (fresh ⟨10⟩ 1).run (ticks.map .add)
    (Window.InRange ⟨10⟩ ∧ ∀ t ∈ ticks, t.Within ⟨10⟩) ∧
      (l.store.history "SPCE").map Bar.stop = [-7000] ∧
      (∀ b ∈ l.store.history "SPCE",
        (Window.ticksIn ⟨10⟩ (l.takenOf "SPCE") b.start).getLast?.map Tick.stop = some b.stop) ∧
      ¬ ∀ before, before <+: ticks → Edged ⟨10⟩ ((fresh ⟨10⟩ 1).run (before.map .add)) := by
  intro ticks l
  have hticks : ∀ t ∈ ticks, t.Within ⟨10⟩ := by decide +kernel
  obtain ⟨hlast, -, hedged⟩ := stop_of_last (w := ⟨10⟩) (by decide) 1 ticks hticks
  refine ⟨⟨by decide, hticks⟩, by decide +kernel, hlast "SPCE", fun h => ?_⟩
  rcases hedged.1 h with hroom | horder
  · cases hroom
  · have horder := horder "SPCE" (-10000)
    revert horder
    decide +kernel

/-- That every bar ends at the upper edge of what it has absorbed does not hold of every run: a tick
that ends earlier than one before it moves the end back. -/
theorem end_moved_back : ¬ ∀ (w : Window) (bound : ℕ) (ticks : List Tick), 0 < w.secs →
    Edged w ((fresh w bound).run (ticks.map .add)) := by
  intro h
  have hedged := h ⟨10⟩ 30 [Tick.plain 0 5000, Tick.plain 1000 2000] (by decide) "SPCE"
  set l := (fresh ⟨10⟩ 30).run ([Tick.plain 0 5000, Tick.plain 1000 2000].map .add)
  obtain ⟨b, hb, hstart, hstop⟩ :
      ∃ b ∈ l.store.history "SPCE", b.start = 0 ∧ b.stop = 2000 := by decide +kernel
  have hearlier : ∃ a ∈ Window.ticksIn ⟨10⟩ (l.takenOf "SPCE") 0, a.stop = 5000 := by
    decide +kernel
  have hle := (hedged b hb).2 (hstart ▸ hearlier)
  omega

end Ledger

end TapeReader

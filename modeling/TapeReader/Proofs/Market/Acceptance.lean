import TapeReader.Proofs.Market.Ledger

/-!
# What a store takes

* `Bar.Fits`: bars of a ticker, on windows within range.
* `History.takes_iff`: **a history takes a valid tick just when the tick fits in its window and the newest
  bar does not start later**; `Ledger.takes_iff`: just when no tick of a later window has been taken.
* `Window.Paced`: the ticks of one ticker, each inside one window, in order of their windows.
* `Ledger.taken_run`: a store takes all of them.
-/

namespace TapeReader

/-- A bar of a ticker, on a window within range. -/
structure Bar.Fits (w : Window) (ticker : String) (b : Bar) : Prop where
  ticker : b.ticker = ticker
  holds : w.Holds b.start
  aligned : w.millis ∣ b.start

namespace History

variable {w : Window} {bound : ℕ} {h : History} {t : Tick} {ticks : List Tick}

/-- **What a history takes**, by its newest bar. -/
theorem takes_iff (hw : 0 < w.millis) (hfront : ∀ front ∈ h.head?, front.Fits w t.ticker)
    (ht : t.Within w) : (∃ r, add w bound h t = .ok r) ↔
      t.validate = .ok () ∧ t.stop ≤ w.edge (w.of t) ∧ ∀ front ∈ h.head?, front.start ≤ t.start := by
  have hadd : ∀ h' closed, add w bound h t = .ok (h', closed) ↔
      t.validate = .ok () ∧ Grows w bound t h h' closed := fun h' closed =>
    add_eq_ok_iff hw (fun front hf => (hfront front hf).holds) ht
  constructor
  · rintro ⟨⟨h', closed⟩, hok⟩
    obtain ⟨hvalid, hg⟩ := (hadd h' closed).1 hok
    refine ⟨hvalid, ?_⟩
    cases hg with
    | merged hticker hstart hin hfit =>
      have hof : w.of t = _ := Window.align_eq (hfront _ rfl).aligned hstart hin
      rw [hof]
      exact ⟨hfit, by rintro _ ⟨⟩; exact hstart⟩
    | opened hlate hfit =>
      refine ⟨hfit, fun front hf => ?_⟩
      have hedge := hlate front hf
      unfold Window.edge at hedge
      omega
  · rintro ⟨hvalid, hfit, hlast⟩
    suffices hg : ∃ h' closed, Grows w bound t h h' closed by
      obtain ⟨h', closed, hg⟩ := hg
      exact ⟨(h', closed), (hadd h' closed).2 ⟨hvalid, hg⟩⟩
    cases h with
    | nil => exact ⟨_, _, .opened (by simp) hfit⟩
    | cons front older =>
      have hstart := hlast front rfl
      obtain ⟨hticker, -, haligned⟩ := hfront front rfl
      by_cases hin : t.start < w.edge front.start
      · have hof : w.of t = front.start := Window.align_eq haligned hstart hin
        rw [hof] at hfit
        exact ⟨_, _, .merged hticker hstart hin hfit⟩
      · refine ⟨_, _, .opened ?_ hfit⟩
        rintro x ⟨⟩
        omega

/-- No tick of a later window has been taken, as the newest bar shows. -/
theorem Records.of_le_iff (hw : 0 < w.millis) (hbound : 1 ≤ bound) (hr : Records w bound ticks h)
    {t : Tick} : (∀ a ∈ ticks, w.of a ≤ w.of t) ↔ ∀ front ∈ h.head?, front.start ≤ t.start := by
  have hfloor : w.of t ≤ t.start := Window.align_le hw t.start
  cases h with
  | nil => simp [hr.eq_nil hbound]
  | cons front older =>
    constructor
    · rintro hle _ ⟨⟩
      obtain ⟨a, ha, hof⟩ := hr.front_mem
      exact hof ▸ (hle a ha).trans hfloor
    · intro hle a ha
      exact (hr.of_le_front ha).trans (Window.le_align hw hr.dvd_front (hle front rfl))

end History

namespace Window

variable {w : Window} {ticker : String} {ticks : List Tick} {t : Tick}

/-- Valid ticks of one ticker, each of which lies inside one window, in order of their windows. -/
structure Paced (w : Window) (ticker : String) (ticks : List Tick) : Prop where
  valid : ∀ t ∈ ticks, t.validate = .ok ()
  named : ∀ t ∈ ticks, t.ticker = ticker
  inside : ∀ t ∈ ticks, t.stop ≤ w.edge (w.of t)
  inOrder : w.InOrder ticks

/-- The ticks that come first are paced like all of them. -/
theorem Paced.of_append {more : List Tick} (h : w.Paced ticker (ticks ++ more)) :
    w.Paced ticker ticks where
  valid a ha := h.valid a (List.mem_append_left _ ha)
  named a ha := h.named a (List.mem_append_left _ ha)
  inside a ha := h.inside a (List.mem_append_left _ ha)
  inOrder := by
    have hord := h.inOrder
    unfold InOrder at hord
    rw [List.map_append] at hord
    exact hord.sublist (List.sublist_append_left _ _)

end Window

namespace Store

variable {s : Store} {t : Tick}

/-- A store adds a tick when the history of its ticker does. -/
theorem exists_add_iff : (∃ r, s.add t = .ok r) ↔
    ∃ r, History.add s.window s.bound (s.history t.ticker) t = .ok r := by
  constructor
  · rintro ⟨⟨s', closed⟩, hadd⟩
    obtain ⟨h, hadd, -⟩ := add_eq_ok_iff.1 hadd
    exact ⟨_, hadd⟩
  · rintro ⟨⟨h, closed⟩, hadd⟩
    exact ⟨_, add_eq_ok_iff.2 ⟨h, hadd, rfl⟩⟩

end Store

namespace Ledger

variable {w : Window} {bound : ℕ} {ticker : String} {ticks : List Tick} {t : Tick}

/-- What a store takes, after any calls. -/
theorem takes_iff (hw : w.InRange) (hbound : 1 ≤ bound) {calls : List Call}
    (hcalls : ∀ c ∈ calls, c.Within w) (ht : t.Within w) :
    let l := (fresh w bound).run calls
    (∃ r, l.store.add t = .ok r) ↔ t.validate = .ok () ∧ t.stop ≤ w.edge (w.of t) ∧
      ∀ a ∈ l.takenOf t.ticker, w.of a ≤ w.of t := by
  intro l
  have hl : l.Faithful w bound := faithful_run hw hbound hcalls
  have hr := hl.records t.ticker
  have hfits : ∀ front ∈ (l.store.history t.ticker).head?, front.Fits w t.ticker := by
    intro front hfront
    have hmem := List.mem_of_mem_head? hfront
    obtain ⟨older, hh⟩ := List.head?_eq_some_iff.1 hfront
    exact ⟨named_run w bound calls t.ticker front hmem, hl.holds t.ticker front hmem, (hh ▸ hr).dvd_front⟩
  rw [hr.of_le_iff hw.millis_pos hbound, ← History.takes_iff hw.millis_pos hfits ht,
    Store.exists_add_iff, hl.window_eq, hl.bound_eq]

theorem takenOf_eq_self {l : Ledger} (h : ∀ t ∈ l.taken, t.ticker = ticker) :
    l.takenOf ticker = l.taken := by
  unfold takenOf
  rw [List.filter_eq_self]
  simpa using h

/-- A paced tick after others that were all taken is taken. -/
theorem takes_of_paced (hw : w.InRange) (hbound : 1 ≤ bound)
    (hticks : ∀ a ∈ ticks ++ [t], a.Within w) (hp : w.Paced ticker (ticks ++ [t]))
    (htaken : ((fresh w bound).run (ticks.map .add)).taken = ticks) :
    ∃ r, ((fresh w bound).run (ticks.map .add)).store.add t = .ok r := by
  have hlast : t ∈ ticks ++ [t] := by simp
  have hname := hp.of_append.named
  obtain ⟨hbefore, ht⟩ := List.forall_mem_append.1 hticks
  refine (takes_iff hw hbound (List.forall_mem_map.2 hbefore) (ht t (by simp))).2
    ⟨hp.valid t hlast, hp.inside t hlast, ?_⟩
  rw [hp.named t hlast, takenOf_eq_self (by rwa [htaken]), htaken]
  exact (Window.inOrder_concat.1 hp.inOrder).2

/-- **A store takes all of some paced ticks.** -/
theorem taken_run (hw : w.InRange) (hbound : 1 ≤ bound) (hticks : ∀ a ∈ ticks, a.Within w)
    (hp : w.Paced ticker ticks) :
    ((fresh w bound).run (ticks.map .add)).taken = ticks := by
  induction ticks using List.reverseRecOn with
  | nil => rfl
  | append_singleton ticks t ih =>
    have ih := ih (List.forall_mem_append.1 hticks).1 hp.of_append
    obtain ⟨⟨s, closed⟩, hadd⟩ := takes_of_paced hw hbound hticks hp ih
    rw [List.map_append, List.map_singleton, run_concat, step_of_ok hadd, ih]

end Ledger

end TapeReader

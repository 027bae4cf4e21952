import TapeReader.Proofs.Market.Acceptance

/-!
# What a store refuses

* `Window.Fits`: a tick that some bar of its window can absorb.
* `Window.Objection`: what is wrong with a tick, after the last one taken of its ticker.
* `History.Records.objection`: **a history that does not take a tick says what is wrong with it.**
* `Ledger.accepts_iff`: **a store takes a tick just when it fits in its window and is of no earlier
  window than the last one taken**, after any calls, and refuses it with an objection otherwise.
-/

namespace TapeReader

namespace Window

/-- An aggregate of a span that is not empty and ends within the window it starts in. -/
structure Fits (w : Window) (t : Tick) : Prop where
  event : t.event = "A"
  span : t.start < t.stop
  inside : t.stop ≤ w.edge (w.of t)

/-- What is wrong with a tick, the last tick of its ticker to be taken given. -/
inductive Objection (w : Window) (last : Option Tick) (t : Tick) : Violation → Prop
  /-- The record is not an aggregate. -/
  | event (hevent : t.event ≠ "A") : Objection w last t (.eventKind t.event t.ticker)
  /-- Its span is empty. -/
  | span (hevent : t.event = "A") (hspan : t.stop ≤ t.start) :
      Objection w last t (.emptySpan t.ticker t.start t.stop)
  /-- It is of an earlier window than the last one. -/
  | order {a : Tick} (ha : a ∈ last) (hvalid : t.validate = .ok ()) (hlt : w.of t < w.of a) :
      Objection w last t (.predates t.ticker t.start (w.of a))
  /-- It is of the same window, and ends after it. -/
  | overrunsOpen {a : Tick} (ha : a ∈ last) (hvalid : t.validate = .ok ()) (hsame : w.of t = w.of a)
      (hover : w.edge (w.of t) < t.stop) :
      Objection w last t (.overrunsOpen t.ticker t.stop (w.of a) (w.edge (w.of a)))
  /-- It is of a later window or the first of its ticker, and ends after its window. -/
  | overrunsFresh (hvalid : t.validate = .ok ()) (hlate : ∀ a ∈ last, w.of a < w.of t)
      (hover : w.edge (w.of t) < t.stop) :
      Objection w last t (.overrunsFresh t.ticker t.start t.stop w.secs (w.of t))

variable {w : Window} {last : Option Tick} {ticks : List Tick} {t : Tick} {v : Violation}

theorem fits_iff : w.Fits t ↔ t.validate = .ok () ∧ t.stop ≤ w.edge (w.of t) := by
  rw [Tick.validate_eq_ok_iff, and_assoc]
  exact ⟨fun ⟨hevent, hspan, hinside⟩ => ⟨hevent, hspan, hinside⟩,
    fun ⟨hevent, hspan, hinside⟩ => ⟨hevent, hspan, hinside⟩⟩

/-- An invalid tick is objected to for what makes it invalid. -/
theorem objection_of_validate (h : t.validate = .error v) : w.Objection last t v := by
  unfold Tick.validate at h
  split at h
  · rename_i hevent
    cases h
    exact .event hevent
  · rename_i hevent
    split at h
    · rename_i hspan
      cases h
      exact .span (not_not.1 hevent) hspan
    · cases h

/-- Of ticks in order, the last one is of the latest window. -/
theorem InOrder.forall_le_iff (h : w.InOrder ticks) {limit : ℤ} :
    (∀ a ∈ ticks, w.of a ≤ limit) ↔ ∀ last ∈ ticks.getLast?, w.of last ≤ limit := by
  cases ticks using List.reverseRecOn with
  | nil => simp
  | append_singleton before last =>
    obtain ⟨-, hmax⟩ := inOrder_concat.1 h
    simp only [List.getLast?_append, List.getLast?_singleton, Option.some_or, Option.mem_some_iff,
      forall_eq']
    refine ⟨fun hall => hall last (by simp), fun hlast a ha => ?_⟩
    rcases List.mem_append.1 ha with ha | ha
    · exact (hmax a ha).trans hlast
    · exact List.mem_singleton.1 ha ▸ hlast

end Window

namespace History

variable {w : Window} {bound : ℕ} {h : History} {t : Tick} {ticks : List Tick} {front : Bar}
  {older : History} {r : Refusal}

/-- The last tick taken is of the window of the newest bar. -/
theorem Records.getLast?_of (hr : Records w bound ticks (front :: older)) :
    ∃ last ∈ ticks.getLast?, w.of last = front.start := by
  obtain ⟨a, ha, hof⟩ := hr.front_mem
  have hlast := List.getLast?_eq_some_getLast (List.ne_nil_of_mem ha)
  refine ⟨_, hlast, le_antisymm (hr.of_le_front (List.getLast_mem _)) ?_⟩
  rw [← hof]
  exact hr.inOrder.forall_le_iff.2 (by simp [hlast]) a ha

/-- A bar is not opened for a tick that ends after its window. -/
theorem openBar_eq_error (hw : 0 < w.millis) (ht : t.Within w) (ho : openBar w t = .error r) :
    w.edge (w.of t) < t.stop ∧
      r = .violation (.overrunsFresh t.ticker t.start t.stop w.secs (w.of t)) := by
  have hfit : ¬ t.stop ≤ w.edge (w.of t) := fun hfit => by
    rw [(openBar_eq_ok_iff hw ht).2 ⟨hfit, rfl⟩] at ho
    cases ho
  unfold openBar at ho
  rw [if_neg hw.ne', ht.start.floor_eq hw] at ho
  dsimp only at ho
  split at ho
  · exact ⟨by omega, (Except.error.inj ho).symm⟩
  · cases ho

/-- A tick of a later window than the last one, for which no bar is opened. -/
theorem open_objection (hw : 0 < w.millis) (ht : t.Within w) (hvalid : t.validate = .ok ())
    (hlate : ∀ a ∈ ticks.getLast?, w.of a < w.of t)
    (hopen : (openBar w t).map (push bound h) = .error r) :
    ∃ v, r = .violation v ∧ w.Objection ticks.getLast? t v := by
  cases ho : openBar w t with
  | ok bar => rw [ho] at hopen; cases hopen
  | error r' =>
    rw [ho] at hopen
    obtain ⟨hover, hr'⟩ := openBar_eq_error hw ht ho
    exact ⟨_, (Except.error.inj hopen).symm.trans hr', .overrunsFresh hvalid hlate hover⟩

/-- A tick that starts before the end of the newest bar's window, and is not merged. -/
theorem Records.merge_objection (hw : 0 < w.millis) (hr : Records w bound ticks (front :: older))
    (hfront : w.Holds front.start) (ht : t.Within w) (hticker : front.ticker = t.ticker)
    (hvalid : t.validate = .ok ())
    (hin : t.start < w.edge front.start) {v : Violation} (hm : merge w front t = .error v) :
    w.Objection ticks.getLast? t v := by
  obtain ⟨last, hlast, hof⟩ := hr.getLast?_of
  unfold merge at hm
  rw [ht.stop.wrap_sub hw hfront, hfront.wrap_edge hw] at hm
  by_cases hstart : t.start < front.start
  · -- the tick is of an earlier window
    rw [if_pos hstart] at hm
    cases hm
    have hfloor := Window.align_le hw t.start
    have hlt : w.of t < w.of last := by unfold Window.of at hof ⊢; omega
    exact hof ▸ .order hlast hvalid hlt
  rw [if_neg hstart] at hm
  have hsame : w.of t = front.start := hr.of_eq_front (by omega) hin
  by_cases hover : w.millis < t.stop - front.start
  · -- it is of the window, and ends after it
    rw [if_pos hover] at hm
    cases hm
    have hafter : w.edge (w.of t) < t.stop := by rw [hsame]; unfold Window.edge; omega
    rw [← hof]
    exact .overrunsOpen hlast hvalid (hsame.trans hof.symm) hafter
  · rw [if_neg hover, Bar.absorb, if_pos hticker] at hm
    cases hm

/-- **A tick that is not taken is objected to.** -/
theorem Records.objection (hw : 0 < w.millis) (hbound : 1 ≤ bound) (hr : Records w bound ticks h)
    (hh : ∀ b ∈ h, w.Holds b.start) (ht : t.Within w) (hname : ∀ b ∈ h, b.ticker = t.ticker)
    (hadd : add w bound h t = .error r) :
    ∃ v, r = .violation v ∧ w.Objection ticks.getLast? t v := by
  unfold add at hadd
  cases hv : t.validate with
  | error v =>
    rw [hv] at hadd
    exact ⟨v, (Except.error.inj hadd).symm, Window.objection_of_validate hv⟩
  | ok u =>
    rw [hv] at hadd
    cases h with
    | nil => exact open_objection hw ht hv (by simp [hr.eq_nil hbound]) hadd
    | cons front older =>
      have hfront := hh front List.mem_cons_self
      dsimp only at hadd
      rw [ht.start.wrap_sub hw hfront] at hadd
      by_cases hin : t.start - front.start < w.millis
      · rw [if_pos hin] at hadd
        have hlt : t.start < w.edge front.start := by unfold Window.edge; omega
        cases hm : merge w front t with
        | error v =>
          rw [hm] at hadd
          exact ⟨v, (Except.error.inj hadd).symm,
            hr.merge_objection hw hfront ht (hname front (by simp)) hv hlt hm⟩
        | ok merged => rw [hm] at hadd; cases hadd
      · -- the tick starts after the window of the newest bar, which is that of the last tick
        rw [if_neg hin] at hadd
        have hlate : ∀ front' ∈ (front :: older).head?, w.edge front'.start ≤ t.start := by
          rintro _ ⟨⟩
          unfold Window.edge
          omega
        exact open_objection hw ht hv
          (fun a ha => hr.of_lt hw hbound hlate (List.mem_of_getLast? ha)) hadd

end History

namespace Ledger

variable {w : Window} {bound : ℕ} {calls : List Call} {t : Tick}

/-- A store that does not take a tick says what is wrong with it, after any calls. -/
theorem objection_run (hw : w.InRange) (hbound : 1 ≤ bound) (hcalls : ∀ c ∈ calls, c.Within w)
    (ht : t.Within w) {r : Refusal}
    (hadd : ((fresh w bound).run calls).store.add t = .error r) :
    ∃ v, r = .violation v ∧
      w.Objection (((fresh w bound).run calls).takenOf t.ticker).getLast? t v := by
  have hl : ((fresh w bound).run calls).Faithful w bound := faithful_run hw hbound hcalls
  have hname := named_run w bound calls t.ticker
  set l := (fresh w bound).run calls
  rw [Store.add_eq_error_iff, hl.window_eq, hl.bound_eq] at hadd
  exact (hl.records t.ticker).objection hw.millis_pos hbound (hl.holds t.ticker) ht hname hadd

/-- What a store takes, in terms of the last tick taken. -/
theorem takes_iff_last (hw : w.InRange) (hbound : 1 ≤ bound) (hcalls : ∀ c ∈ calls, c.Within w)
    (ht : t.Within w) :
    let l := (fresh w bound).run calls
    (∃ r, l.store.add t = .ok r) ↔
      w.Fits t ∧ ∀ last ∈ (l.takenOf t.ticker).getLast?, w.of last ≤ w.of t := by
  intro l
  have hl : l.Faithful w bound := faithful_run hw hbound hcalls
  have htakes : (∃ r, l.store.add t = .ok r) ↔ _ := takes_iff hw hbound hcalls ht
  rw [htakes, Window.fits_iff, and_assoc, (hl.records t.ticker).inOrder.forall_le_iff]

/-- **What a store takes and what it refuses**, after any calls, of ticks whose instants 64 bits hold.
It takes a tick just when the tick is an aggregate of a span that is not empty, ends at the upper edge
of the window it starts in at the latest, and is of no earlier window than the tick of its ticker that
was last taken since the last clear; otherwise it refuses the tick, with a violation that says which of
these fails. So of two ticks of a window that fit in it, the store takes both or neither, wherever in
the window they start; the ticks taken of a ticker never go back to an earlier window; and a tick that
ends on the edge of its window is taken when it is in order. -/
theorem accepts_iff (hw : w.InRange) (hbound : 1 ≤ bound) (calls : List Call)
    (hcalls : ∀ c ∈ calls, c.Within w) :
    let l := (fresh w bound).run calls
    (∀ t, t.Within w → ((∃ r, l.store.add t = .ok r) ↔
      t.event = "A" ∧ t.start < t.stop ∧ t.stop ≤ w.edge (w.of t) ∧
        ∀ last ∈ (l.takenOf t.ticker).getLast?, w.of last ≤ w.of t)) ∧
      (∀ t, t.Within w → (∃ r, l.store.add t = .ok r) ∨
        ∃ v, l.store.add t = .error (.violation v) ∧
          w.Objection (l.takenOf t.ticker).getLast? t v) ∧
      (∀ t u, t.Within w → u.Within w → t.ticker = u.ticker → w.of t = w.of u → w.Fits t → w.Fits u →
        ((∃ r, l.store.add t = .ok r) ↔ ∃ r, l.store.add u = .ok r)) ∧
      (∀ ticker, w.InOrder (l.takenOf ticker)) ∧
      ∀ t, t.Within w → t.event = "A" → t.stop = w.edge (w.of t) →
        (∀ last ∈ (l.takenOf t.ticker).getLast?, w.of last ≤ w.of t) →
          ∃ r, l.store.add t = .ok r := by
  intro l
  have htakes : ∀ t, t.Within w → ((∃ r, l.store.add t = .ok r) ↔ _) := fun t ht =>
    takes_iff_last hw hbound hcalls ht
  refine ⟨fun t ht => ?_, fun t ht => ?_, fun t u ht hu hticker hof hfits hfits' => ?_,
    fun ticker => ?_, fun t ht hevent hstop hlast => ?_⟩
  · rw [htakes t ht]
    exact ⟨fun ⟨hfits, hlast⟩ => ⟨hfits.event, hfits.span, hfits.inside, hlast⟩,
      fun ⟨hevent, hspan, hinside, hlast⟩ => ⟨⟨hevent, hspan, hinside⟩, hlast⟩⟩
  · cases hadd : l.store.add t with
    | ok r => exact Or.inl ⟨r, rfl⟩
    | error r =>
      obtain ⟨v, rfl, hv⟩ := objection_run hw hbound hcalls ht hadd
      exact Or.inr ⟨v, rfl, hv⟩
  · rw [htakes t ht, htakes u hu, hticker, hof, and_iff_right hfits, and_iff_right hfits']
  · have hl : l.Faithful w bound := faithful_run hw hbound hcalls
    exact (hl.records ticker).inOrder
  · have hlt := Window.lt_align_add hw.millis_pos t.start
    refine (htakes t ht).2 ⟨⟨hevent, ?_, hstop.le⟩, hlast⟩
    rw [hstop]
    exact hlt

/-- After a clear: a tick that starts before the last one taken, and ends on the edge of its window,
is taken; a tick of the window before is not, nor is one that overruns the window. -/
theorem accepts_iff_on_edge :
    let calls := [.add (Tick.plain 30000 31000), .clear, .add (Tick.plain 12000 13000),
      .add (Tick.plain 5000 6000)]
    let l := (fresh ⟨10⟩ 1).run calls
    (Window.InRange ⟨10⟩ ∧ 1 ≤ 1 ∧ ∀ c ∈ calls, c.Within ⟨10⟩) ∧
      (∃ r, l.store.add (Tick.plain 10000 20000) = .ok r) ∧
      (¬ ∃ r, l.store.add (Tick.plain 9999 10000) = .ok r) ∧
      ∃ v, l.store.add (Tick.plain 15000 20001) = .error (.violation v) ∧
        Window.Objection ⟨10⟩ (l.takenOf "SPCE").getLast? (Tick.plain 15000 20001) v := by
  intro calls l
  have hcalls : ∀ c ∈ calls, c.Within ⟨10⟩ := by decide +kernel
  obtain ⟨htakes, hrefuses, -, -, hedge⟩ := accepts_iff (w := ⟨10⟩) (by decide) le_rfl calls hcalls
  refine ⟨⟨by decide, le_rfl, hcalls⟩,
    hedge _ (by decide +kernel) rfl (by decide +kernel) (by decide +kernel), fun h => ?_, ?_⟩
  · have hlast := ((htakes _ (by decide +kernel)).1 h).2.2.2
    revert hlast
    decide +kernel
  · refine (hrefuses (Tick.plain 15000 20001) (by decide +kernel)).resolve_left fun h => ?_
    have hinside := ((htakes _ (by decide +kernel)).1 h).2.2.1
    revert hinside
    decide +kernel

end Ledger

end TapeReader

import TapeReader.Proofs.Market.RollUp
import TapeReader.Proofs.Market.Span

/-!
# Nested windows

Two stores are called alike, and the windows of the one are parts of the windows of the other. Of
ticks that come late they refuse different ones, so their bars are not of the same ticks.

* `Ledger.Abreast`: a coarse ledger has all that a fine one has, and has gone no further.
* `Ledger.abreast_run`: **ledgers called alike stay abreast**, in whatever order the ticks come.
* `Ledger.Abreast.newest_start`: the newest coarse bar is of the window that the newest fine bar
  begins in.
* `Store.coarse_takes_too`: **what a fine store adds, a coarse one adds too.**
-/

namespace TapeReader

namespace History

/-- A history has bars just when ticks have been taken. -/
theorem Records.eq_nil_iff {w : Window} {bound : ℕ} {ticks : List Tick} {h : History}
    (hr : Records w bound ticks h) (hbound : 1 ≤ bound) : h = [] ↔ ticks = [] := by
  constructor
  · rintro rfl
    exact hr.eq_nil hbound
  · rintro rfl
    simpa [Window.starts_nil] using hr.starts

end History

namespace Ledger

/-- **A coarse ledger is abreast of a fine one**: it has taken all that the fine one has, and nothing
of a later window of its own. It may have taken more in the windows that the fine one has gone
through. -/
structure Abreast (w₂ : Window) (fine coarse : Ledger) : Prop where
  sublist : fine.taken.Sublist coarse.taken
  reached : ∀ a ∈ coarse.taken, ∃ b ∈ fine.taken, b.ticker = a.ticker ∧ w₂.of a ≤ w₂.of b

variable {w₁ w₂ : Window} {k₁ k₂ : ℕ} {fine coarse : Ledger} {calls : List Call} {t a : Tick}
  {ticker : String}

theorem mem_takenOf {l : Ledger} : t ∈ l.takenOf ticker ↔ t ∈ l.taken ∧ t.ticker = ticker := by
  simp [takenOf]

theorem Abreast.takenOf_sublist (h : Abreast w₂ fine coarse) (ticker : String) :
    (fine.takenOf ticker).Sublist (coarse.takenOf ticker) := h.sublist.filter _

/-- The fine ledger has got as far as the coarse one in each ticker. -/
theorem Abreast.exists_takenOf (h : Abreast w₂ fine coarse) (ha : a ∈ coarse.takenOf ticker) :
    ∃ b ∈ fine.takenOf ticker, w₂.of a ≤ w₂.of b := by
  obtain ⟨htaken, rfl⟩ := mem_takenOf.1 ha
  obtain ⟨b, hb, hticker, hle⟩ := h.reached a htaken
  exact ⟨b, mem_takenOf.2 ⟨hb, hticker⟩, hle⟩

/-! ## One call -/

/-- A tick that both take. -/
theorem Abreast.both (h : Abreast w₂ fine coarse) (s₁ s₂ : Store) (t : Tick) :
    Abreast w₂ ⟨s₁, fine.taken ++ [t]⟩ ⟨s₂, coarse.taken ++ [t]⟩ where
  sublist := h.sublist.append_right [t]
  reached a ha := by
    rcases List.mem_append.1 ha with ha | ha
    · obtain ⟨b, hb, hreached⟩ := h.reached a ha
      exact ⟨b, List.mem_append_left _ hb, hreached⟩
    · rw [List.mem_singleton.1 ha]
      exact ⟨t, by simp, rfl, le_rfl⟩

/-- A tick that only the coarse one takes, of a window that the fine one has got to. -/
theorem Abreast.coarser (h : Abreast w₂ fine coarse) (s₂ : Store)
    (ht : ∃ b ∈ fine.takenOf t.ticker, w₂.of t ≤ w₂.of b) :
    Abreast w₂ fine ⟨s₂, coarse.taken ++ [t]⟩ where
  sublist := h.sublist.trans (List.sublist_append_left _ _)
  reached a ha := by
    rcases List.mem_append.1 ha with ha | ha
    · exact h.reached a ha
    · obtain ⟨b, hb, hle⟩ := ht
      obtain ⟨hb, hticker⟩ := mem_takenOf.1 hb
      rw [List.mem_singleton.1 ha]
      exact ⟨b, hb, hticker, hle⟩

section Alike

variable (hw₁ : 0 < w₁.secs) (hw₂ : w₂.InRange) (hdvd : w₁.secs ∣ w₂.secs) (hk₁ : 1 ≤ k₁)
  (hk₂ : 1 ≤ k₂) (hcalls : ∀ c ∈ calls, c.Within w₂)

include hw₁ hw₂ hdvd

omit hcalls in
/-- What is within the range of the coarse windows is within that of the fine ones. -/
theorem within_fine {calls : List Call} (h : ∀ c ∈ calls, c.Within w₂) : ∀ c ∈ calls, c.Within w₁ :=
  fun c hc => (h c hc).of_le (Window.tiles_of_dvd hw₁ hw₂ hdvd).millis_le

include hk₁ hk₂ hcalls

/-- **What the fine ledger takes, the coarse one takes**, while it is abreast. -/
theorem Abreast.takes (ht : t.Within w₂)
    (h : Abreast w₂ ((fresh w₁ k₁).run calls) ((fresh w₂ k₂).run calls))
    (htakes : ∃ r, ((fresh w₁ k₁).run calls).store.add t = .ok r) :
    ∃ r, ((fresh w₂ k₂).run calls).store.add t = .ok r := by
  have htiles := Window.tiles_of_dvd hw₁ hw₂ hdvd
  obtain ⟨hvalid, hfit, hlast⟩ := (takes_iff (hw₂.of_dvd hw₁ hdvd) hk₁
    (within_fine hw₁ hw₂ hdvd hcalls) (ht.of_le htiles.millis_le)).1 htakes
  refine (takes_iff hw₂ hk₂ hcalls ht).2
    ⟨hvalid, hfit.trans (htiles.edge_le_edge t.start), fun a ha => ?_⟩
  obtain ⟨b, hb, hle⟩ := h.exists_takenOf ha
  exact hle.trans (htiles.of_le_of (hlast b hb))

/-- **Two ledgers called alike stay abreast.** -/
theorem abreast_run (hinside : ∀ t, Call.add t ∈ calls → t.stop ≤ w₁.edge (w₁.of t)) :
    Abreast w₂ ((fresh w₁ k₁).run calls) ((fresh w₂ k₂).run calls) := by
  induction calls using List.reverseRecOn with
  | nil => exact ⟨.slnil, by simp [run, fresh]⟩
  | append_singleton calls c ih =>
    obtain ⟨hbefore, hc⟩ := List.forall_mem_append.1 hcalls
    have ih := ih hbefore fun t ht => hinside t (List.mem_append_left _ ht)
    rw [run_concat, run_concat]
    cases c with
    | clear => exact ⟨.slnil, by simp [step]⟩
    | add t =>
      have ht : t.Within w₂ := hc _ (List.mem_singleton_self _)
      cases hfine : ((fresh w₁ k₁).run calls).store.add t with
      | ok r =>
        obtain ⟨r', hcoarse⟩ := ih.takes hw₁ hw₂ hdvd hk₁ hk₂ hbefore ht ⟨r, hfine⟩
        rw [step_of_ok hfine, step_of_ok hcoarse]
        exact ih.both r.1 r'.1 t
      | error e =>
        rw [step_of_error hfine]
        cases hcoarse : ((fresh w₂ k₂).run calls).store.add t with
        | error e' =>
          rw [step_of_error hcoarse]
          exact ih
        | ok r =>
          -- the tick is valid and fits, so the fine ledger has refused it for coming late
          have htiles := Window.tiles_of_dvd hw₁ hw₂ hdvd
          have hvalid := ((takes_iff hw₂ hk₂ hbefore ht).1 ⟨r, hcoarse⟩).1
          have hrefused := mt (takes_iff (hw₂.of_dvd hw₁ hdvd) hk₁ (within_fine hw₁ hw₂ hdvd hbefore)
            (ht.of_le htiles.millis_le)).2 (by simp [hfine])
          push Not at hrefused
          obtain ⟨b, hb, hlater⟩ := hrefused hvalid (hinside t (by simp))
          rw [step_of_ok hcoarse]
          exact ih.coarser r.1 ⟨b, hb, htiles.of_le_of hlater.le⟩

end Alike

/-! ## The newest bars -/

/-- Ledgers that are abreast know the same tickers. -/
theorem Abreast.history_eq_nil_iff (h : Abreast w₂ fine coarse) (hfine : fine.Faithful w₁ k₁)
    (hcoarse : coarse.Faithful w₂ k₂) (hk₁ : 1 ≤ k₁) (hk₂ : 1 ≤ k₂) (ticker : String) :
    fine.store.history ticker = [] ↔ coarse.store.history ticker = [] := by
  rw [(hfine.records ticker).eq_nil_iff hk₁, (hcoarse.records ticker).eq_nil_iff hk₂]
  constructor
  · intro hnone
    refine List.eq_nil_iff_forall_not_mem.2 fun a ha => ?_
    obtain ⟨b, hb, -⟩ := h.exists_takenOf ha
    rw [hnone] at hb
    cases hb
  · intro hnone
    exact List.sublist_nil.1 (hnone ▸ h.takenOf_sublist ticker)

/-- **The newest coarse bar is of the window that the newest fine bar begins in.** -/
theorem Abreast.newest_start (htiles : w₁.Tiles w₂) (h : Abreast w₂ fine coarse)
    (hfine : fine.Faithful w₁ k₁) (hcoarse : coarse.Faithful w₂ k₂) {p b : Bar}
    (hp : p ∈ (fine.store.history ticker).head?) (hb : b ∈ (coarse.store.history ticker).head?) :
    b.start = w₂.align p.start := by
  have hrp := hfine.records ticker
  have hrb := hcoarse.records ticker
  obtain ⟨older₁, hp⟩ := List.head?_eq_some_iff.1 hp
  obtain ⟨older₂, hb⟩ := List.head?_eq_some_iff.1 hb
  rw [hp] at hrp
  rw [hb] at hrb
  refine le_antisymm ?_ ?_
  · -- the last window of the coarse ledger is one that the fine one has got to
    obtain ⟨a, ha, hof⟩ := hrb.front_mem
    obtain ⟨b', hb', hle⟩ := h.exists_takenOf ha
    calc b.start = w₂.of a := hof.symm
      _ ≤ w₂.of b' := hle
      _ = w₂.align (w₁.of b') := (htiles.align_align b'.start).symm
      _ ≤ w₂.align p.start := Window.align_mono htiles.pos₂ (hrp.of_le_front hb')
  · -- and the tick that opened the newest fine bar is in the coarse ledger too
    obtain ⟨a, ha, hof⟩ := hrp.front_mem
    calc w₂.align p.start = w₂.align (w₁.of a) := by rw [hof]
      _ = w₂.of a := htiles.align_align a.start
      _ ≤ b.start := hrb.of_le_front ((h.takenOf_sublist ticker).subset ha)

/-- The ticks of the newest fine bar are among those of the newest coarse one. -/
theorem Abreast.ticksIn_sublist (htiles : w₁.Tiles w₂) (h : Abreast w₂ fine coarse)
    (hfine : fine.Faithful w₁ k₁) (hcoarse : coarse.Faithful w₂ k₂) {p b : Bar}
    (hp : p ∈ (fine.store.history ticker).head?) (hb : b ∈ (coarse.store.history ticker).head?) :
    (w₁.ticksIn (fine.takenOf ticker) p.start).Sublist
      (w₂.ticksIn (coarse.takenOf ticker) b.start) := by
  have hstart := h.newest_start htiles hfine hcoarse hp hb
  refine (List.monotone_filter_right _ fun a ha => ?_).trans ((h.takenOf_sublist ticker).filter _)
  have hof : w₁.of a = p.start := by simpa using ha
  have hcoarser : w₂.of a = b.start := by
    rw [hstart, ← hof]
    exact (htiles.align_align a.start).symm
  simpa using hcoarser

end Ledger

namespace Store

variable {w w₁ w₂ : Window} {k k₁ k₂ : ℕ} {calls : List Call} {ticker : String}

/-! ## Volumes -/

section Volumes

variable {since : ℤ} {b : Bar} (hw : w.InRange) (hk : 1 ≤ k) (hcalls : ∀ c ∈ calls, c.Within w)
  (hvolume : ∀ t ∈ calls.filterMap Call.tick?, 0 ≤ t.volume)
  (htotal : ((ticksSince ticker since (calls.filterMap Call.tick?)).map Tick.volume).sum < 2 ^ 63)

/-- The ticks taken of a window are some of those that came. -/
theorem mem_ticks_of_mem_ticksIn {start : ℤ} {t : Tick}
    (ht : t ∈ w.ticksIn (((Ledger.fresh w k).run calls).takenOf ticker) start) :
    t ∈ calls.filterMap Call.tick? :=
  (Ledger.taken_sublist w k calls).subset (Ledger.mem_takenOf.1 (Window.mem_ticksIn.1 ht).1).1

/-- The ticks of windows from an instant on are among those that came since. -/
theorem sublist_since (hpos : 0 < w.millis) {part : List Tick}
    (hpart : part.Sublist (((Ledger.fresh w k).run calls).takenOf ticker))
    (hsince : ∀ t ∈ part, since ≤ w.of t) :
    part.Sublist (ticksSince ticker since (calls.filterMap Call.tick?)) :=
  sublist_ticksSince ((hpart.trans List.filter_sublist).trans (Ledger.taken_sublist w k calls))
    fun t ht => ⟨(Ledger.mem_takenOf.1 (hpart.subset ht)).2,
      (hsince t ht).trans (Window.align_le hpos t.start)⟩

include hvolume in
/-- Some of the ticks that came since then have no more volume than all of them. -/
theorem sum_volume_le {part : List Tick}
    (hpart : part.Sublist (ticksSince ticker since (calls.filterMap Call.tick?))) :
    0 ≤ (part.map Tick.volume).sum ∧ (part.map Tick.volume).sum ≤
      ((ticksSince ticker since (calls.filterMap Call.tick?)).map Tick.volume).sum := by
  have hnonneg : ∀ v ∈ (ticksSince ticker since (calls.filterMap Call.tick?)).map Tick.volume, 0 ≤ v :=
    List.forall_mem_map.2 fun t ht => hvolume t (mem_ticksSince.1 ht).1
  have hsub := hpart.map Tick.volume
  exact ⟨List.sum_nonneg fun v hv => hnonneg v (hsub.subset hv), hsub.sum_le_sum hnonneg⟩

include hw hk hcalls hvolume htotal

/-- Bars show the volume of their ticks as it is, where all that came since they began has room. -/
theorem volume_eq (hb : b ∈ (calls.foldl after (fresh w k)).history ticker)
    (hsince : since ≤ b.start) :
    b.volume = ((w.ticksIn (((Ledger.fresh w k).run calls).takenOf ticker) b.start).map
      Tick.volume).sum := by
  refine ((records_foldl hw hk hcalls ticker).sums b hb).volume_eq ?_
  set l := (Ledger.fresh w k).run calls
  have hpart : (w.ticksIn (l.takenOf ticker) b.start).Sublist (ticksSince ticker since _) :=
    sublist_since hw.millis_pos (w.ticksIn_sublist _ b.start) fun t ht =>
      hsince.trans (Window.mem_ticksIn.1 ht).2.ge
  obtain ⟨hnonneg, hle⟩ := sum_volume_le hvolume hpart
  exact ⟨by omega, by omega⟩

/-- Bars of ticks that take no volume away. -/
theorem volume_nonneg (hb : b ∈ (calls.foldl after (fresh w k)).history ticker)
    (hsince : since ≤ b.start) : 0 ≤ b.volume := by
  rw [volume_eq hw hk hcalls hvolume htotal hb hsince]
  exact List.sum_nonneg (List.forall_mem_map.2 fun t ht => hvolume t (mem_ticks_of_mem_ticksIn ht))

/-- **The bars since an instant have no more volume than came since.** -/
theorem sum_volume_lt {bars : List Bar}
    (hbars : bars.Sublist ((calls.foldl after (fresh w k)).history ticker))
    (hsince : ∀ b ∈ bars, since ≤ b.start) : (bars.map Bar.volume).sum < 2 ^ 63 := by
  set l := (Ledger.fresh w k).run calls
  set ticksOf : Bar → List Tick := fun b => w.ticksIn (l.takenOf ticker) b.start
  obtain ⟨evicted, hticks, -⟩ := (records_foldl hw hk hcalls ticker).ticks_eq
  -- bar by bar the ticks are all there, and no tick stands in two bars
  have hpart : (bars.reverse.flatMap ticksOf).Sublist (l.takenOf ticker) := by
    rw [hticks]
    exact (hbars.reverse.flatMap ticksOf).trans (List.sublist_append_right _ _)
  have hsum : ∀ some : List Bar, some ⊆ bars → (some.map Bar.volume).sum =
      ((some.flatMap ticksOf).map Tick.volume).sum := by
    intro some hsome
    induction some with
    | nil => rfl
    | cons b rest ih =>
      obtain ⟨hb, hrest⟩ := List.cons_subset.1 hsome
      rw [List.map_cons, List.sum_cons, List.flatMap_cons, List.map_append, List.sum_append, ih hrest,
        volume_eq hw hk hcalls hvolume htotal (hbars.subset hb) (hsince b hb)]
  calc (bars.map Bar.volume).sum
      = (bars.reverse.map Bar.volume).sum := by rw [List.map_reverse, List.sum_reverse]
    _ = _ := hsum bars.reverse (List.reverse_subset.2 (List.Subset.refl bars))
    _ ≤ _ := (sum_volume_le hvolume (sublist_since hw.millis_pos hpart fun t ht => by
        obtain ⟨b, hb, ht⟩ := List.mem_flatMap.1 ht
        rw [(Window.mem_ticksIn.1 ht).2]
        exact hsince b (List.mem_reverse.1 hb))).2
    _ < 2 ^ 63 := htotal

end Volumes

/-- **The newest fine bar shows no more volume than the newest coarse one**: the ticks of the one are
among those of the other, and none takes volume away. -/
theorem newest_volume_le {since : ℤ} (hw₁ : 0 < w₁.secs) (hw₂ : w₂.InRange) (hdvd : w₁.secs ∣ w₂.secs)
    (hk₁ : 1 ≤ k₁) (hk₂ : 1 ≤ k₂) (hcalls : ∀ c ∈ calls, c.Within w₂)
    (hinside : ∀ t, Call.add t ∈ calls → t.stop ≤ w₁.edge (w₁.of t))
    (hvolume : ∀ t ∈ calls.filterMap Call.tick?, 0 ≤ t.volume)
    (htotal : ((ticksSince ticker since (calls.filterMap Call.tick?)).map Tick.volume).sum < 2 ^ 63)
    {p b : Bar} (hp : p ∈ ((calls.foldl after (fresh w₁ k₁)).history ticker).head?)
    (hb : b ∈ ((calls.foldl after (fresh w₂ k₂)).history ticker).head?) (hsince : since ≤ b.start) :
    0 ≤ p.volume ∧ p.volume ≤ b.volume := by
  have hw₁' := hw₂.of_dvd hw₁ hdvd
  have htiles := Window.tiles_of_dvd hw₁ hw₂ hdvd
  have hcalls₁ := Ledger.within_fine hw₁ hw₂ hdvd hcalls
  have habreast := Ledger.abreast_run hw₁ hw₂ hdvd hk₁ hk₂ hcalls hinside
  have hfine := Ledger.faithful_run hw₁' hk₁ hcalls₁
  have hcoarse := Ledger.faithful_run hw₂ hk₂ hcalls
  have hpmem := List.mem_of_mem_head? hp
  have hbmem := List.mem_of_mem_head? hb
  rw [← run_fresh] at hp hb
  have hpsince : since ≤ p.start := by
    have hstart := habreast.newest_start htiles hfine hcoarse hp hb
    have hle := Window.align_le htiles.pos₂ p.start
    omega
  refine ⟨volume_nonneg hw₁' hk₁ hcalls₁ hvolume htotal hpmem hpsince, ?_⟩
  rw [volume_eq hw₁' hk₁ hcalls₁ hvolume htotal hpmem hpsince,
    volume_eq hw₂ hk₂ hcalls hvolume htotal hbmem hsince]
  have hpart := habreast.ticksIn_sublist htiles hfine hcoarse hp hb
  exact (hpart.map Tick.volume).sum_le_sum
    (List.forall_mem_map.2 fun t ht => hvolume t (mem_ticks_of_mem_ticksIn ht))

/-! ## Acceptance -/

/-- **Coarse windows never miss what fine ones have.** The length of the fine windows divides that of
the coarse ones, and two stores, with room for a bar each at least, get the same calls: ticks of any
tickers in any order, late ones and doubled ones among them, each of which lies inside one fine window.
Every tick that the fine store adds, the coarse one adds. They know the same tickers, and the newest
fine bar of a ticker lies with its whole window inside the window of the newest coarse bar. -/
theorem coarse_takes_too (hw₁ : 0 < w₁.secs) (hw₂ : w₂.InRange) (hdvd : w₁.secs ∣ w₂.secs)
    (hk₁ : 1 ≤ k₁) (hk₂ : 1 ≤ k₂) (calls : List Call) (hcalls : ∀ c ∈ calls, c.Within w₂)
    (hinside : ∀ t, Call.add t ∈ calls → t.stop ≤ w₁.edge (w₁.of t)) :
    (∀ before t later, calls = before ++ .add t :: later →
      (∃ r, (before.foldl after (fresh w₁ k₁)).add t = .ok r) →
        ∃ r, (before.foldl after (fresh w₂ k₂)).add t = .ok r) ∧
    ∀ ticker,
      let fine := (calls.foldl after (fresh w₁ k₁)).history ticker
      let coarse := (calls.foldl after (fresh w₂ k₂)).history ticker
      (fine = [] ↔ coarse = []) ∧
      ∀ p ∈ fine.head?, ∀ b ∈ coarse.head?, b.start ≤ p.start ∧ p.start < p.stop ∧
        p.stop ≤ w₁.edge p.start ∧ w₁.edge p.start ≤ w₂.edge b.start := by
  have htiles := Window.tiles_of_dvd hw₁ hw₂ hdvd
  refine ⟨fun before t later hsplit htakes => ?_, fun ticker => ?_⟩
  · have hbefore : ∀ c ∈ before, c.Within w₂ := fun c hc => hcalls c (by simp [hsplit, hc])
    have ht : t.Within w₂ := hcalls (.add t) (by simp [hsplit])
    have hinside : ∀ t, Call.add t ∈ before → t.stop ≤ w₁.edge (w₁.of t) := fun t ht =>
      hinside t (by simp [hsplit, ht])
    rw [← run_fresh] at htakes ⊢
    exact (Ledger.abreast_run hw₁ hw₂ hdvd hk₁ hk₂ hbefore hinside).takes hw₁ hw₂ hdvd hk₁ hk₂ hbefore
      ht htakes
  · intro fine coarse
    have hw₁' := hw₂.of_dvd hw₁ hdvd
    have hcalls₁ := Ledger.within_fine hw₁ hw₂ hdvd hcalls
    have habreast := Ledger.abreast_run hw₁ hw₂ hdvd hk₁ hk₂ hcalls hinside
    have hfine := Ledger.faithful_run hw₁' hk₁ hcalls₁
    have hcoarse := Ledger.faithful_run hw₂ hk₂ hcalls
    refine ⟨?_, fun p hp b hb => ?_⟩
    · simp only [fine, coarse, ← run_fresh]
      exact habreast.history_eq_nil_iff hfine hcoarse hk₁ hk₂ ticker
    · have hlaid : History.Tidy w₁ fine := tidy_foldl hw₁' k₁ hcalls₁ ticker
      have hmem : p ∈ fine := List.mem_of_mem_head? hp
      simp only [fine, coarse, ← run_fresh] at hp hb
      have hstart := habreast.newest_start htiles hfine hcoarse hp hb
      have hself : w₁.align p.start = p.start :=
        Window.align_eq (hlaid.aligned p hmem) le_rfl (by have := htiles.pos₁; omega)
      have hedge := htiles.edge_le_edge p.start
      rw [hself] at hedge
      obtain ⟨hspan, hstop⟩ := hlaid.span p hmem
      exact ⟨hstart ▸ Window.align_le htiles.pos₂ p.start, hspan, hstop, hstart ▸ hedge⟩

/-- Windows of five and of ten seconds. The second tick comes late for the fine store and not for the
coarse one, and so does the same tick again after a newer one; the last is late for both. -/
theorem coarse_takes_too_apart :
    let calls := [(5000, 6000), (0, 1000), (16000, 17000), (12000, 13000), (12000, 13000),
      (5000, 6000)].map fun (start, stop) => Call.add (Tick.plain start stop)
    let fine := (calls.foldl after (fresh ⟨5⟩ 2)).history "SPCE"
    let coarse := (calls.foldl after (fresh ⟨10⟩ 1)).history "SPCE"
    (0 < (⟨5⟩ : Window).secs ∧ Window.InRange ⟨10⟩ ∧ (⟨5⟩ : Window).secs ∣ (⟨10⟩ : Window).secs ∧
      ∀ c ∈ calls, c.Within ⟨10⟩) ∧
      (∀ t, Call.add t ∈ calls → t.stop ≤ Window.edge ⟨5⟩ (Window.of ⟨5⟩ t)) ∧
      fine.map (fun b => (b.start, b.volume)) = [(15000, 100), (5000, 100)] ∧
      coarse.map (fun b => (b.start, b.volume)) = [(10000, 300)] ∧
      ∀ p ∈ fine.head?, ∀ b ∈ coarse.head?, b.start ≤ p.start ∧ p.start < p.stop ∧
        p.stop ≤ Window.edge ⟨5⟩ p.start ∧ Window.edge ⟨5⟩ p.start ≤ Window.edge ⟨10⟩ b.start := by
  intro calls fine coarse
  have hinside : ∀ t, Call.add t ∈ calls → t.stop ≤ Window.edge ⟨5⟩ (Window.of ⟨5⟩ t) := by
    intro t ht
    obtain ⟨span, hspan, heq⟩ := List.mem_map.1 ht
    cases heq
    revert span
    decide +kernel
  have hcalls : ∀ c ∈ calls, c.Within ⟨10⟩ := by decide +kernel
  refine ⟨⟨by decide, by decide, by decide, hcalls⟩, hinside, by decide +kernel, by decide +kernel, ?_⟩
  exact ((coarse_takes_too (by decide) (by decide) (by decide) (by decide) (by decide) calls
    hcalls hinside).2 "SPCE").2

end Store

end TapeReader

import TapeReader.Proofs.Market.Acceptance

/-!
# Coarse bars out of fine ones

Windows of one length tile those of another, when the one length divides the other.

* `Window.Tiles`: the windows of the one are parts of the windows of the other.
* `Window.Tiles.ticksIn_eq`: the ticks of a coarse window are those of the fine windows in it, one
  window after the other.
* `Bar.RollsUp`: a bar that shows what some bars show together.
* `Store.bars_rollUp`: **ticks that keep to fine windows make coarse bars that are the fine bars
  rolled up.**
-/

namespace TapeReader

/-! ## Parts of lists -/

/-- Elements that stand in blocks, each of which a filter keeps or drops as a whole. -/
theorem filter_flatMap_of_uniform {α β : Type} {l : List α} {f : α → List β} {p : β → Bool}
    {q : α → Bool} (h : ∀ a ∈ l, ∀ x ∈ f a, p x = q a) :
    (l.flatMap f).filter p = (l.filter q).flatMap f := by
  induction l with
  | nil => rfl
  | cons a l ih =>
    have ha : ∀ x ∈ f a, p x = q a := h a (by simp)
    rw [List.flatMap_cons, List.filter_append, ih fun b hb => h b (by simp [hb])]
    cases hq : q a with
    | true =>
      rw [List.filter_cons_of_pos hq, List.flatMap_cons]
      congr 1
      exact List.filter_eq_self.2 fun x hx => (ha x hx).trans hq
    | false =>
      rw [List.filter_cons_of_neg (by simp [hq])]
      have hnil : (f a).filter p = [] := List.filter_eq_nil_iff.2 fun x hx => by
        simp [ha x hx, hq]
      rw [hnil, List.nil_append]

/-- What is left of a list that goes down, all of it below an end, by cutting it at another comes
first. -/
theorem filter_interval_first {α : Type} {l : List α} {g : α → ℤ} {lo hi : ℤ}
    (h : (l.map g).Pairwise (· > ·)) (hbelow : ∀ x ∈ l, g x < hi) :
    l.filter (fun a => lo ≤ g a ∧ g a < hi) <+: l := by
  induction l with
  | nil => simp
  | cons a l ih =>
    obtain ⟨hfirst, hrest⟩ := List.pairwise_cons.1 h
    have ha := hbelow a (by simp)
    by_cases hlo : lo ≤ g a
    · rw [List.filter_cons_of_pos (by simp [hlo, ha])]
      exact (List.prefix_cons_inj a).2 (ih hrest fun x hx => hbelow x (by simp [hx]))
    · -- the list has gone below the interval
      have hnil : (a :: l).filter (fun a => lo ≤ g a ∧ g a < hi) = [] := by
        refine List.filter_eq_nil_iff.2 fun x hx => ?_
        rcases List.mem_cons.1 hx with rfl | hx
        · simp [hlo]
        · have := hfirst (g x) (List.mem_map_of_mem hx)
          simp only [decide_eq_true_eq, not_and]
          omega
      rw [hnil]
      exact List.nil_prefix

/-- What lies in an interval of a list that goes down is a run of it. -/
theorem filter_interval_run {α : Type} {l : List α} {g : α → ℤ} {lo hi : ℤ}
    (h : (l.map g).Pairwise (· > ·)) : l.filter (fun a => lo ≤ g a ∧ g a < hi) <:+: l := by
  induction l with
  | nil => simp
  | cons a l ih =>
    obtain ⟨hfirst, hrest⟩ := List.pairwise_cons.1 h
    by_cases ha : g a < hi
    · -- from here on all is below the upper end
      refine (filter_interval_first h fun x hx => ?_).isInfix
      rcases List.mem_cons.1 hx with rfl | hx
      · exact ha
      · have := hfirst (g x) (List.mem_map_of_mem hx)
        omega
    · rw [List.filter_cons_of_neg (by simp [ha])]
      exact List.infix_cons (ih hrest)

namespace Window

/-- The windows of `w₁` are parts of the windows of `w₂`. -/
structure Tiles (w₁ w₂ : Window) : Prop where
  pos₁ : 0 < w₁.millis
  pos₂ : 0 < w₂.millis
  dvd : w₁.millis ∣ w₂.millis

variable {w₁ w₂ : Window} {ticker : String} {ticks : List Tick} {t : Tick} {start instant : ℤ}

/-- A part of a window in range is in range. -/
theorem InRange.of_dvd (h₂ : w₂.InRange) (h₁ : 0 < w₁.secs) (hdvd : w₁.secs ∣ w₂.secs) :
    w₁.InRange where
  pos := h₁
  fits := by
    have hle := Int.le_of_dvd h₂.pos hdvd
    have := h₂.fits
    omega

theorem tiles_of_dvd (h₁ : 0 < w₁.secs) (h₂ : w₂.InRange) (hdvd : w₁.secs ∣ w₂.secs) :
    Tiles w₁ w₂ where
  pos₁ := (h₂.of_dvd h₁ hdvd).millis_pos
  pos₂ := h₂.millis_pos
  dvd := by
    rw [(h₂.of_dvd h₁ hdvd).millis_eq, h₂.millis_eq]
    exact mul_dvd_mul_right hdvd 1000

theorem Tiles.millis_le (h : Tiles w₁ w₂) : w₁.millis ≤ w₂.millis := Int.le_of_dvd h.pos₂ h.dvd

/-- A coarse window begins where a fine one does. -/
theorem Tiles.align_le_align (h : Tiles w₁ w₂) (instant : ℤ) :
    w₂.align instant ≤ w₁.align instant :=
  le_align h.pos₁ (h.dvd.trans (dvd_align w₂ instant)) (align_le h.pos₂ instant)

/-- A fine window lies in the coarse window that it begins in. -/
theorem Tiles.align_align (h : Tiles w₁ w₂) (instant : ℤ) :
    w₂.align (w₁.align instant) = w₂.align instant := by
  have hle := align_le h.pos₁ instant
  have hlt := lt_align_add h.pos₂ instant
  exact align_eq (dvd_align w₂ instant) (h.align_le_align instant) (by omega)

/-- A coarse window ends where a fine one does. -/
theorem Tiles.edge_le_edge (h : Tiles w₁ w₂) (instant : ℤ) :
    w₁.edge (w₁.align instant) ≤ w₂.edge (w₂.align instant) := by
  by_contra hlt
  push Not at hlt
  have hin := lt_align_add h.pos₂ instant
  have hle := align_le h.pos₁ instant
  unfold edge at hlt
  -- the edge of the coarse window would lie inside a fine one, and begin it
  have hdvd : w₁.millis ∣ w₂.align instant + w₂.millis :=
    h.dvd.trans (dvd_edge (dvd_align w₂ instant))
  have hfine := align_eq (dvd_align w₁ instant) (by omega) hlt
  have hself := le_align h.pos₁ hdvd le_rfl
  omega

theorem align_mono {w : Window} (hw : 0 < w.millis) {i j : ℤ} (h : i ≤ j) :
    w.align i ≤ w.align j :=
  le_align hw (dvd_align w i) ((align_le hw i).trans h)

/-- The instants of a window are those between its start and its edge. -/
theorem align_eq_iff {w : Window} (hw : 0 < w.millis) (hstart : w.millis ∣ start) :
    w.align instant = start ↔ start ≤ instant ∧ instant < w.edge start := by
  constructor
  · rintro rfl
    exact ⟨align_le hw instant, lt_align_add hw instant⟩
  · rintro ⟨hle, hlt⟩
    exact align_eq hstart hle hlt

/-- Ticks that do not go back over fine windows do not go back over coarse ones. -/
theorem Tiles.of_le_of (h : Tiles w₁ w₂) {a b : Tick} (hle : w₁.of a ≤ w₁.of b) :
    w₂.of a ≤ w₂.of b := by
  have hmono := align_mono h.pos₂ hle
  unfold of at hmono ⊢
  rwa [h.align_align, h.align_align] at hmono

/-- Ticks in order of fine windows are in order of coarse ones. -/
theorem Tiles.inOrder (h : Tiles w₁ w₂) (hord : w₁.InOrder ticks) : w₂.InOrder ticks := by
  unfold InOrder at hord ⊢
  rw [List.pairwise_map] at hord ⊢
  exact hord.imp h.of_le_of

/-- Ticks that keep to fine windows keep to coarse ones. -/
theorem Tiles.paced (h : Tiles w₁ w₂) (hp : w₁.Paced ticker ticks) : w₂.Paced ticker ticks where
  valid := hp.valid
  named := hp.named
  inside t ht := (hp.inside t ht).trans (h.edge_le_edge t.start)
  inOrder := h.inOrder hp.inOrder

/-- **The ticks of a coarse window are those of the fine windows in it**, one after the other. -/
theorem Tiles.ticksIn_eq (h : Tiles w₁ w₂) (hord : w₁.InOrder ticks) (start : ℤ) :
    w₂.ticksIn ticks start =
      ((w₁.starts ticks).filter (w₂.align · = start)).reverse.flatMap (w₁.ticksIn ticks) := by
  have hblocks : ∀ s ∈ (w₁.starts ticks).reverse, ∀ a ∈ w₁.ticksIn ticks s,
      decide (w₂.of a = start) = decide (w₂.align s = start) := by
    intro s _ a ha
    have hs : w₁.of a = s := by simpa using (List.mem_filter.1 ha).2
    subst hs
    unfold of
    rw [h.align_align]
  calc w₂.ticksIn ticks start
      = ((w₁.starts ticks).reverse.flatMap (w₁.ticksIn ticks)).filter (w₂.of · = start) := by
        rw [flatMap_ticksIn hord]; rfl
    _ = _ := by rw [filter_flatMap_of_uniform hblocks, List.filter_reverse]

end Window

namespace Bar

/-- A bar shows what some bars, newest first, show together: the sum of their volumes in 64 bits, the oldest
one's opens, the newest one's close, vwap, day's volume and edge, and the extremes of their highs
and lows, in value. -/
structure RollsUp (b : Bar) (parts : List Bar) : Prop where
  volume : b.volume = wrap (parts.map Bar.volume).sum
  openPrice : parts.getLast?.map Bar.openPrice = some b.openPrice
  dayOpen : parts.getLast?.map Bar.dayOpen = some b.dayOpen
  closePrice : parts.head?.map Bar.closePrice = some b.closePrice
  vwap : parts.head?.map Bar.vwap = some b.vwap
  accumulatedVolume : parts.head?.map Bar.accumulatedVolume = some b.accumulatedVolume
  stop : parts.head?.map Bar.stop = some b.stop
  high : IsGreatest {v | ∃ p ∈ parts, p.high.value = v} b.high.value
  low : IsLeast {v | ∃ p ∈ parts, p.low.value = v} b.low.value

variable {b : Bar} {parts : List Bar} {f : Bar → List Tick}

theorem Sums.ne_nil {ticks : List Tick} (h : b.Sums ticks) : ticks ≠ [] := by
  rintro rfl
  simpa using h.openPrice

/-- The ticks of several bars begin with those of the oldest. -/
theorem head?_flatMap (hparts : ∀ p ∈ parts, p.Sums (f p)) {oldest : Bar}
    (h : parts.getLast? = some oldest) : (parts.reverse.flatMap f).head? = (f oldest).head? := by
  obtain ⟨newer, rfl⟩ := List.getLast?_eq_some_iff.1 h
  have hne : f oldest ≠ [] := (hparts oldest (by simp)).ne_nil
  rw [List.reverse_concat, List.flatMap_cons, List.head?_append_of_ne_nil _ hne]

/-- The ticks of several bars end with those of the newest. -/
theorem getLast?_flatMap (hparts : ∀ p ∈ parts, p.Sums (f p)) {newest : Bar}
    (h : parts.head? = some newest) :
    (parts.reverse.flatMap f).getLast? = (f newest).getLast? := by
  obtain ⟨older, rfl⟩ := List.head?_eq_some_iff.1 h
  have hne : f newest ≠ [] := (hparts newest (by simp)).ne_nil
  rw [List.reverse_cons, List.flatMap_append, List.flatMap_singleton,
    List.getLast?_append_of_ne_nil _ hne]

/-- What several bars show of their ticks, together. -/
theorem sum_volume_flatMap (hparts : ∀ p ∈ parts, p.Sums (f p)) :
    wrap ((parts.reverse.flatMap f).map Tick.volume).sum = wrap (parts.map Bar.volume).sum := by
  induction parts with
  | nil => rfl
  | cons p parts ih =>
    have hp := (hparts p (by simp)).volume
    rw [List.reverse_cons, List.flatMap_append, List.flatMap_singleton, List.map_append,
      List.sum_append, ← wrap_wrap_add, ih fun q hq => hparts q (by simp [hq]), wrap_wrap_add,
      ← wrap_add_wrap, ← hp, List.map_cons, List.sum_cons, add_comm]

/-- Volumes that 64 bits hold are summed exactly. -/
theorem RollsUp.volume_eq (h : b.RollsUp parts) (hfits : Signed (parts.map Bar.volume).sum) :
    b.volume = (parts.map Bar.volume).sum :=
  h.volume.trans (wrap_of_signed hfits)

/-- **A bar that shows the ticks of several bars shows what the bars show.** -/
theorem Sums.rollsUp (hne : parts ≠ []) (hparts : ∀ p ∈ parts, p.Sums (f p))
    (hb : b.Sums (parts.reverse.flatMap f)) : b.RollsUp parts := by
  have holdest := List.getLast?_eq_some_getLast hne
  have hnewest := List.head?_eq_some_head hne
  set oldest := parts.getLast hne
  set newest := parts.head hne
  have hfirst := head?_flatMap hparts holdest
  have hlast := getLast?_flatMap hparts hnewest
  have ho := hparts oldest (List.mem_of_getLast? holdest)
  have hn := hparts newest (List.mem_of_head? hnewest)
  constructor
  case volume => rw [hb.volume, sum_volume_flatMap hparts]
  case openPrice => rw [holdest, ← hb.openPrice, hfirst, ho.openPrice]; rfl
  case dayOpen => rw [holdest, ← hb.dayOpen, hfirst, ho.dayOpen]; rfl
  case closePrice => rw [hnewest, ← hb.closePrice, hlast, hn.closePrice]; rfl
  case vwap => rw [hnewest, ← hb.vwap, hlast, hn.vwap]; rfl
  case accumulatedVolume =>
    rw [hnewest, ← hb.accumulatedVolume, hlast, hn.accumulatedVolume]; rfl
  case stop => rw [hnewest, ← hb.stop, hlast, hn.stop]; rfl
  case high =>
    have hmax := hb.high
    rw [List.map_flatMap] at hmax
    simpa using hmax.of_flatMap fun p hp => (hparts p (List.mem_reverse.1 hp)).high
  case low =>
    have hmin := hb.low
    rw [List.map_flatMap] at hmin
    simpa using hmin.of_flatMap fun p hp => (hparts p (List.mem_reverse.1 hp)).low

end Bar

namespace History

variable {w w₁ w₂ : Window} {bound₁ bound₂ : ℕ} {ticks : List Tick} {fine coarse : History}

theorem Records.dvd_start {bound : ℕ} {h : History} (hr : Records w bound ticks h) {b : Bar}
    (hb : b ∈ h) : w.millis ∣ b.start := by
  have hmem : b.start ∈ h.map Bar.start := List.mem_map_of_mem hb
  rw [hr.starts] at hmem
  obtain ⟨a, -, ha⟩ := Window.mem_starts.1 (List.mem_of_mem_take hmem)
  exact ha ▸ Window.dvd_align w a.start

/-- **Two histories of the same ticks**, none of them evicted: a coarse bar is the fine bars of its
window rolled up, and every fine bar is part of one. -/
theorem Records.rollUp (h : w₁.Tiles w₂) (hfine : Records w₁ bound₁ ticks fine)
    (hcoarse : Records w₂ bound₂ ticks coarse) (hbound₁ : (w₁.starts ticks).length ≤ bound₁)
    (hbound₂ : (w₂.starts ticks).length ≤ bound₂) :
    (∀ b ∈ coarse,
      let parts := fine.filter fun p => b.start ≤ p.start ∧ p.start < w₂.edge b.start
      parts ≠ [] ∧ parts <:+: fine ∧ b.RollsUp parts) ∧
    ∀ p ∈ fine, ∃ b ∈ coarse, b.start ≤ p.start ∧ p.start < w₂.edge b.start := by
  have hstarts₁ : fine.map Bar.start = w₁.starts ticks := by
    rw [hfine.starts, List.take_of_length_le hbound₁]
  have hstarts₂ : coarse.map Bar.start = w₂.starts ticks := by
    rw [hcoarse.starts, List.take_of_length_le hbound₂]
  have hsorted := Window.starts_sorted hfine.inOrder
  rw [← hstarts₁] at hsorted
  refine ⟨fun b hb => ?_, fun p hp => ?_⟩
  · intro parts
    have hdvd := hcoarse.dvd_start hb
    have hsum := hcoarse.sums b hb
    -- the parts are the fine bars whose window lies in that of the coarse bar
    have hparts : (w₁.starts ticks).filter (w₂.align · = b.start) = parts.map Bar.start := by
      rw [← hstarts₁, List.filter_map]
      congr 1
      refine List.filter_congr fun p _ => ?_
      simp only [Function.comp_apply, Window.align_eq_iff h.pos₂ hdvd]
    rw [h.ticksIn_eq hfine.inOrder, hparts, ← List.map_reverse, List.flatMap_map] at hsum
    have hne : parts ≠ [] := by
      intro hnil
      rw [hnil] at hsum
      exact hsum.ne_nil rfl
    refine ⟨hne, filter_interval_run hsorted, ?_⟩
    exact hsum.rollsUp hne fun p hp => hfine.sums p (List.mem_filter.1 hp).1
  · have hmem : p.start ∈ fine.map Bar.start := List.mem_map_of_mem hp
    rw [hstarts₁] at hmem
    obtain ⟨a, ha, hof⟩ := Window.mem_starts.1 hmem
    have hcover : w₂.of a ∈ coarse.map Bar.start := by
      rw [hstarts₂]
      exact Window.mem_starts.2 ⟨a, ha, rfl⟩
    obtain ⟨b, hb, hbstart⟩ := List.mem_map.1 hcover
    refine ⟨b, hb, (Window.align_eq_iff h.pos₂ (hcoarse.dvd_start hb)).1 ?_⟩
    rw [← hof, hbstart]
    exact h.align_align a.start

end History

namespace Ledger

variable {w : Window} {bound : ℕ} {ticker : String} {ticks : List Tick}

/-- A store fed paced ticks of which it has room for every window takes each of them, and its
history records them all. -/
theorem records_of_paced (hw : w.InRange) (hticks : ∀ t ∈ ticks, t.Within w)
    (hp : w.Paced ticker ticks) (hbound : (w.starts ticks).length ≤ bound) :
    (∀ before t after, ticks = before ++ t :: after →
      ∃ r, (before.foldl Store.feed (.fresh w bound)).add t = .ok r) ∧
    History.Records w bound ticks
      ((ticks.foldl Store.feed (.fresh w bound)).history ticker) := by
  rcases List.eq_nil_or_concat ticks with rfl | ⟨first, last, hlast⟩
  · exact ⟨by simp, History.records_nil w bound⟩
  have hpos : 1 ≤ bound := by
    refine le_trans (List.length_pos_iff_exists_mem.2 ⟨w.of last, ?_⟩) hbound
    exact Window.mem_starts.2 ⟨last, by simp [hlast], rfl⟩
  have hstore : ∀ l : List Tick, ((fresh w bound).run (l.map .add)).store =
      l.foldl Store.feed (.fresh w bound) := run_store (fresh w bound)
  refine ⟨fun before t after hsplit => ?_, ?_⟩
  · rw [hsplit, ← List.singleton_append, ← List.append_assoc] at hp hticks
    have hp := hp.of_append
    have hticks := (List.forall_mem_append.1 hticks).1
    rw [← hstore]
    exact takes_of_paced hw hpos hticks hp
      (taken_run hw hpos (List.forall_mem_append.1 hticks).1 hp.of_append)
  · have hcalls : ∀ c ∈ ticks.map Call.add, c.Within w := List.forall_mem_map.2 hticks
    have hrec := (faithful_run hw hpos hcalls).records ticker
    have htaken := taken_run hw hpos hticks hp
    rwa [takenOf_eq_self (by rw [htaken]; exact hp.named), htaken, hstore] at hrec

end Ledger

namespace Store

variable {w₁ w₂ : Window} {bound₁ bound₂ : ℕ} {ticker : String} {ticks : List Tick}

/-- **Coarse bars are fine bars rolled up.** The lengths of the fine windows divide those of the
coarse ones, and two stores with room for every window are fed the same ticks of one ticker, each
inside one fine window and in order of these. Both stores take every tick, and a coarse bar shows
what the fine bars of its window show, which are some and stand next to each other; the sum of their
volumes as it is where 64 bits hold it. Every fine bar is part of a coarse one. -/
theorem bars_rollUp (hw₁ : 0 < w₁.secs) (hw₂ : w₂.InRange) (hdvd : w₁.secs ∣ w₂.secs)
    (hticks : ∀ t ∈ ticks, t.Within w₂) (hp : w₁.Paced ticker ticks)
    (hbound₁ : (w₁.starts ticks).length ≤ bound₁) (hbound₂ : (w₂.starts ticks).length ≤ bound₂) :
    let fine := (ticks.foldl feed (fresh w₁ bound₁)).history ticker
    let coarse := (ticks.foldl feed (fresh w₂ bound₂)).history ticker
    (∀ before t after, ticks = before ++ t :: after →
      (∃ r, (before.foldl feed (fresh w₁ bound₁)).add t = .ok r) ∧
        ∃ r, (before.foldl feed (fresh w₂ bound₂)).add t = .ok r) ∧
    (∀ b ∈ coarse,
      let parts := fine.filter fun p => b.start ≤ p.start ∧ p.start < w₂.edge b.start
      parts ≠ [] ∧ parts <:+: fine ∧ b.RollsUp parts ∧
        (Signed (parts.map Bar.volume).sum → b.volume = (parts.map Bar.volume).sum)) ∧
    ∀ p ∈ fine, ∃ b ∈ coarse, b.start ≤ p.start ∧ p.start < w₂.edge b.start := by
  intro fine coarse
  have htiles := Window.tiles_of_dvd hw₁ hw₂ hdvd
  obtain ⟨htakes₁, hfine⟩ := Ledger.records_of_paced (hw₂.of_dvd hw₁ hdvd)
    (fun t ht => (hticks t ht).of_le htiles.millis_le) hp hbound₁
  obtain ⟨htakes₂, hcoarse⟩ := Ledger.records_of_paced hw₂ hticks (htiles.paced hp) hbound₂
  obtain ⟨hparts, hcover⟩ := hfine.rollUp htiles hcoarse hbound₁ hbound₂
  refine ⟨fun before t after hsplit => ?_, fun b hb => ?_, hcover⟩
  · exact ⟨htakes₁ before t after hsplit, htakes₂ before t after hsplit⟩
  · obtain ⟨hne, hrun, hrolls⟩ := hparts b hb
    exact ⟨hne, hrun, hrolls, hrolls.volume_eq⟩

/-- Ticks of five seconds, before and after the epoch: three fine bars make two coarse ones. -/
theorem bars_rollUp_three :
    let ticks := [(-9000, -7000), (-7000, -5000), (1000, 2000), (2000, 5000), (6000, 7000)].map
      fun (start, stop) => Tick.plain start stop
    let fine := (ticks.foldl feed (fresh ⟨5⟩ 3)).history "SPCE"
    let coarse := (ticks.foldl feed (fresh ⟨10⟩ 2)).history "SPCE"
    (Window.InRange ⟨10⟩ ∧ (∀ t ∈ ticks, t.Within ⟨10⟩) ∧ Window.Paced ⟨5⟩ "SPCE" ticks) ∧
      fine.map Bar.volume = [100, 200, 200] ∧ coarse.map Bar.volume = [300, 200] ∧
      ∀ b ∈ coarse, b.RollsUp (fine.filter fun p => b.start ≤ p.start ∧ p.start < b.start + 10000) := by
  intro ticks fine coarse
  have hp : Window.Paced ⟨5⟩ "SPCE" ticks :=
    ⟨by decide, by decide, by decide +kernel, by unfold Window.InOrder; decide +kernel⟩
  have hticks : ∀ t ∈ ticks, t.Within ⟨10⟩ := by decide +kernel
  refine ⟨⟨by decide, hticks, hp⟩, by decide +kernel, by decide +kernel, fun b hb => ?_⟩
  exact ((bars_rollUp (by decide) (by decide) (by decide) hticks hp (by decide +kernel)
    (by decide +kernel)).2.1 b hb).2.2.1

end Store

end TapeReader

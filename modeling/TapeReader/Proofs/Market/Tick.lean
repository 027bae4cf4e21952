import TapeReader.Market.Tick
import TapeReader.Proofs.Json.Record

/-!
# Ticks

* `Tick.validate_eq_ok_iff`: the ticks that bars can absorb.
* `Tick.Sized`: the integers of a tick have 64 bits.
* `Tick.ofJson?_eq_some_iff`: **a tick is read field by field**, from a record with all of them.
* `Tick.sized_of_ofJson?`: so the integers of a tick that is read have 64 bits.
-/

namespace TapeReader.Tick

open Json

variable {t : Tick} {j : Json}

/-- A valid tick is an aggregate of a span that is not empty. -/
theorem validate_eq_ok_iff :
    t.validate = .ok () ↔ t.event = aggregateEvent ∧ t.start < t.stop := by
  unfold validate
  split
  · rename_i hevent
    simp [hevent]
  · rename_i hevent
    rw [not_not] at hevent
    split
    · simp only [reduceCtorEq, hevent, true_and, false_iff]
      omega
    · simp only [hevent, true_and, true_iff]
      omega

/-- The integers of a tick have 64 bits. -/
structure Sized (t : Tick) : Prop where
  volume : Signed t.volume
  accumulatedVolume : Signed t.accumulatedVolume
  start : Signed t.start
  stop : Signed t.stop

/-- What the fields of a record say is what a tick has. -/
structure Reads (t : Tick) (ev sym v av op vw o c h l s e : Option Json) : Prop where
  event : ev.bind string? = some t.event
  ticker : sym.bind string? = some t.ticker
  volume : v.bind int64? = some t.volume
  accumulatedVolume : av.bind int64? = some t.accumulatedVolume
  dayOpen : op.bind Decimal.ofJson? = some t.dayOpen
  vwap : vw.bind Decimal.ofJson? = some t.vwap
  openPrice : o.bind Decimal.ofJson? = some t.openPrice
  closePrice : c.bind Decimal.ofJson? = some t.closePrice
  high : h.bind Decimal.ofJson? = some t.high
  low : l.bind Decimal.ofJson? = some t.low
  start : s.bind int64? = some t.start
  stop : e.bind int64? = some t.stop

/-- A field is there and is read, or the record is not. -/
theorem bind_read_eq_some_iff {α β : Type} {field : Option Json} {read : Json → Option α}
    {rest : α → Option β} {b : β} : (field.bind fun j => (read j).bind rest) = some b ↔
      ∃ a, field.bind read = some a ∧ rest a = some b := by
  rw [← Option.bind_assoc, Option.bind_eq_some_iff]

/-- **A tick is read field by field.** -/
theorem ofJson?_eq_some_iff : ofJson? j = some t ↔ ∃ ev sym v av op vw o c h l s e,
    j.record? fieldNames = some [ev, sym, v, av, op, vw, o, c, h, l, s, e] ∧
      t.Reads ev sym v av op vw o c h l s e := by
  unfold ofJson?
  constructor
  · intro hread
    split at hread
    · rename_i ev sym v av op vw o c h l s e hrecord
      obtain ⟨event, hevent, hread⟩ := bind_read_eq_some_iff.1 hread
      obtain ⟨ticker, hticker, hread⟩ := bind_read_eq_some_iff.1 hread
      obtain ⟨volume, hvolume, hread⟩ := bind_read_eq_some_iff.1 hread
      obtain ⟨accumulated, haccumulated, hread⟩ := bind_read_eq_some_iff.1 hread
      obtain ⟨dayOpen, hdayOpen, hread⟩ := bind_read_eq_some_iff.1 hread
      obtain ⟨vwap, hvwap, hread⟩ := bind_read_eq_some_iff.1 hread
      obtain ⟨openPrice, hopen, hread⟩ := bind_read_eq_some_iff.1 hread
      obtain ⟨closePrice, hclose, hread⟩ := bind_read_eq_some_iff.1 hread
      obtain ⟨high, hhigh, hread⟩ := bind_read_eq_some_iff.1 hread
      obtain ⟨low, hlow, hread⟩ := bind_read_eq_some_iff.1 hread
      obtain ⟨start, hstart, hread⟩ := bind_read_eq_some_iff.1 hread
      obtain ⟨stop, hstop, hread⟩ := bind_read_eq_some_iff.1 hread
      cases hread
      exact ⟨ev, sym, v, av, op, vw, o, c, h, l, s, e, hrecord, hevent, hticker, hvolume,
        haccumulated, hdayOpen, hvwap, hopen, hclose, hhigh, hlow, hstart, hstop⟩
    · cases hread
  · rintro ⟨ev, sym, v, av, op, vw, o, c, h, l, s, e, hrecord, hreads⟩
    rw [hrecord]
    refine bind_read_eq_some_iff.2 ⟨_, hreads.event, ?_⟩
    refine bind_read_eq_some_iff.2 ⟨_, hreads.ticker, ?_⟩
    refine bind_read_eq_some_iff.2 ⟨_, hreads.volume, ?_⟩
    refine bind_read_eq_some_iff.2 ⟨_, hreads.accumulatedVolume, ?_⟩
    refine bind_read_eq_some_iff.2 ⟨_, hreads.dayOpen, ?_⟩
    refine bind_read_eq_some_iff.2 ⟨_, hreads.vwap, ?_⟩
    refine bind_read_eq_some_iff.2 ⟨_, hreads.openPrice, ?_⟩
    refine bind_read_eq_some_iff.2 ⟨_, hreads.closePrice, ?_⟩
    refine bind_read_eq_some_iff.2 ⟨_, hreads.high, ?_⟩
    refine bind_read_eq_some_iff.2 ⟨_, hreads.low, ?_⟩
    refine bind_read_eq_some_iff.2 ⟨_, hreads.start, ?_⟩
    exact bind_read_eq_some_iff.2 ⟨_, hreads.stop, rfl⟩

theorem signed_of_read {field : Option Json} {i : ℤ} (h : field.bind int64? = some i) : Signed i := by
  obtain ⟨_, -, hi⟩ := Option.bind_eq_some_iff.1 h
  exact signed_of_int64? hi

/-- **The integers of a tick that is read have 64 bits.** -/
theorem sized_of_ofJson? (h : ofJson? j = some t) : t.Sized := by
  obtain ⟨_, _, v, av, _, _, _, _, _, _, s, e, -, hreads⟩ := ofJson?_eq_some_iff.1 h
  exact ⟨signed_of_read hreads.volume, signed_of_read hreads.accumulatedVolume,
    signed_of_read hreads.start, signed_of_read hreads.stop⟩

end TapeReader.Tick

import TapeReader.Proofs.Board.Batches
import TapeReader.Proofs.Decimal.Text
import TapeReader.Proofs.Json.Equality
import TapeReader.Proofs.Json.Items
import TapeReader.Proofs.Json.Record

/-!
# Records on the wire

* `Bar.Sized`: the integers of a bar have 64 bits.
* `Tick.ofJson?_toJson`, `Bar.ofJson?_toJson`: **a record written is the record read**, decimals with
  their scale.
* `Board.ticksOf_among`: the text of a tick, among any others in a batch, brings this tick.
* `Board.wire_faithful`: so ticks and bars outlive their text, by themselves and in a message.
-/

namespace TapeReader

open Json

namespace Tick

variable {t : Tick} {text : String}

/-- **A tick is read back from its value.** -/
theorem ofJson?_toJson (h : t.Sized) : ofJson? t.toJson = some t := by
  have hrecord : t.toJson.record? fieldNames = some [some (.string t.event), some (.string t.ticker),
      some (.int t.volume), some (.int t.accumulatedVolume), some t.dayOpen.toJson, some t.vwap.toJson,
      some t.openPrice.toJson, some t.closePrice.toJson, some t.high.toJson, some t.low.toJson,
      some (.int t.start), some (.int t.stop)] := record?_object (show fieldNames.Nodup by decide)
  simp only [ofJson?, hrecord, string?, int64?_int h.volume, int64?_int h.accumulatedVolume,
    int64?_int h.start, int64?_int h.stop, Decimal.ofJson?_toJson, Option.bind_eq_bind, Option.bind_some]

theorem settled_toJson (t : Tick) : settled t.toJson = t.toJson :=
  settled_object (show fieldNames.Nodup by decide) (by simp [Decimal.toJson, int, settled])

theorem plain_toJson (h : t.Sized) : Plain t.toJson :=
  ⟨trivial, trivial, h.volume.fits, h.accumulatedVolume.fits, trivial, trivial, trivial, trivial, trivial,
    trivial, h.start.fits, h.stop.fits, trivial⟩

theorem isItem (h : t.Sized) (htext : text ∈ [t.toJson.compress, t.toJson.pretty]) :
    IsItem text t.toJson where
  reads := parse?_written (plain_toJson h) htext
  readable := rfl
  nests := by
    show 1 < maxDepth
    decide

/-- The record of a tick brings this tick, when bars can absorb it. -/
theorem ofRecord?_toJson (h : t.Sized) :
    ofRecord? t.toJson = if t.validate.isOk then some t else none := by
  have hread := ofJson?_toJson h
  have hevent : t.toJson.get? "ev" = some (.string t.event) := event_of_ofJson? hread
  unfold ofRecord?
  rw [hevent, hread]
  by_cases hA : t.event = aggregateEvent
  · simp only [Option.bind_some, string?, if_pos hA]
  · have hrefused : ¬ t.validate.isOk = true := fun hvalid => hA (validate_isOk_iff.1 hvalid).1
    simp only [Option.bind_some, string?, if_neg hA, if_neg hrefused]

end Tick

namespace Bar

/-- The integers of a bar have 64 bits. -/
structure Sized (b : Bar) : Prop where
  volume : Signed b.volume
  accumulatedVolume : Signed b.accumulatedVolume
  start : Signed b.start
  stop : Signed b.stop

variable {b : Bar}

/-- **A bar is read back from its value**, but for the mark of a reported closure. -/
theorem ofJson?_toJson (h : b.Sized) : ofJson? b.toJson = some { b with closureReported := false } := by
  have hrecord : b.toJson.record? fieldNames = some [some (.string b.ticker), some (.int b.volume),
      some (.int b.accumulatedVolume), some b.dayOpen.toJson, some b.vwap.toJson,
      some b.openPrice.toJson, some b.closePrice.toJson, some b.high.toJson, some b.low.toJson,
      some (.int b.start), some (.int b.stop)] := record?_object (show fieldNames.Nodup by decide)
  simp only [ofJson?, hrecord, string?, int64?_int h.volume, int64?_int h.accumulatedVolume,
    int64?_int h.start, int64?_int h.stop, Decimal.ofJson?_toJson, Option.bind_eq_bind, Option.bind_some]

theorem plain_toJson (h : b.Sized) : Plain b.toJson :=
  ⟨trivial, h.volume.fits, h.accumulatedVolume.fits, trivial, trivial, trivial, trivial, trivial,
    trivial, h.start.fits, h.stop.fits, trivial⟩

/-- A bar shows the same, whether its closure has been reported or not. -/
theorem same_unreported (b : Bar) : same { b with closureReported := false } b = true := by
  simp [same, Decimal.sameValue]

end Bar

namespace Board

variable {κ σ ν : Type} {before after : List String} {js ks : List Json} {text : String} {t : Tick}

theorem records?_arrayText {texts : List String} (h : List.Forall₂ IsItem texts js) :
    records? (arrayText texts) = some (js.map settled) := by
  rw [records?, ofText?_arrayText h]
  rfl

/-- **The text of a tick in a batch** is one record of it, and that record is the tick. -/
theorem records?_among (ht : t.Sized) (htext : text ∈ [t.toJson.compress, t.toJson.pretty])
    (hbefore : List.Forall₂ IsItem before js) (hafter : List.Forall₂ IsItem after ks) :
    records? (arrayText (before ++ text :: after)) =
      some (js.map settled ++ t.toJson :: ks.map settled) := by
  have hitems : List.Forall₂ IsItem (before ++ text :: after) (js ++ t.toJson :: ks) :=
    List.rel_append hbefore (.cons (Tick.isItem ht htext) hafter)
  rw [records?_arrayText hitems, List.map_append, List.map_cons, Tick.settled_toJson]

/-- **The text of a tick in a batch brings this tick**, when bars can absorb it, between the ticks that the
texts around it bring. -/
theorem ticksOf_among (ht : t.Sized) (htext : text ∈ [t.toJson.compress, t.toJson.pretty])
    (hbefore : List.Forall₂ IsItem before js) (hafter : List.Forall₂ IsItem after ks) :
    ticksOf (arrayText (before ++ text :: after)) =
      ticksOf (arrayText before) ++ (if t.validate.isOk then [t] else []) ++
        ticksOf (arrayText after) := by
  have htick : [t.toJson].filterMap Tick.ofRecord? = if t.validate.isOk then [t] else [] := by
    rw [List.filterMap_cons, Tick.ofRecord?_toJson ht]
    by_cases hvalid : t.validate.isOk = true
    · simp only [hvalid, if_true, List.filterMap_nil]
    · simp only [hvalid, if_false, List.filterMap_nil, Bool.false_eq_true]
  simp only [ticksOf, ← ofRecord?_eq, records?_among ht htext hbefore hafter, records?_arrayText hbefore,
    records?_arrayText hafter, Option.getD_some]
  rw [← htick, ← List.filterMap_append, ← List.filterMap_append, List.append_assoc, List.singleton_append]

/-- **Ticks and bars outlive their text.** A tick of any strings, integers and decimals, written on one line
or over several, is read as the same tick, digit by digit: from its text, from the value of the text, and
from a message that has it among any other records. Such a message takes the tick where it stands, when
bars can absorb it, and counts it. A bar is read as a bar that shows the same. -/
theorem wire_faithful :
    (∀ t : Tick, t.Sized → ∀ text ∈ [t.toJson.compress, t.toJson.pretty],
      (parse? text).bind Tick.ofJson? = some t ∧ (ofText? text).bind Tick.ofJson? = some t ∧
      ∀ before after js ks, List.Forall₂ IsItem before js → List.Forall₂ IsItem after ks →
        let batch := arrayText (before ++ text :: after)
        let ticks := ticksOf (arrayText before) ++ (if t.validate.isOk then [t] else []) ++
          ticksOf (arrayText after)
        records? batch = some (js.map settled ++ t.toJson :: ks.map settled) ∧
        Tick.ofJson? t.toJson = some t ∧
        ∀ (κ σ ν : Type) (react : Reaction κ σ ν) (w : World κ σ),
          let applied := applyAll react w.board.watchers.entries ticks w
          receive react batch w = (applied.1, applied.2.1, match applied.2.2 with
            | .ok () => .ok ticks.length
            | .error a => .error (.abort a))) ∧
    ∀ b : Bar, b.Sized → ∀ text ∈ [b.toJson.compress, b.toJson.pretty],
      ∃ read, (parse? text).bind Bar.ofJson? = some read ∧ read.same b = true := by
  refine ⟨fun t ht text htext => ?_, fun b hb text htext => ?_⟩
  · -- the text is read as the value, and the value is what both ways of decoding start from
    have hparse : parse? text = some t.toJson := parse?_written (Tick.plain_toJson ht) htext
    have hvalue : ofText? text = some t.toJson := by
      have hitem := Tick.isItem ht htext
      have hdenotes : t.toJson.readable = true ∧ t.toJson.depth ≤ maxDepth :=
        ⟨hitem.readable, hitem.nests.le⟩
      simp only [ofText?, hparse, Option.bind_eq_bind, Option.bind_some, if_pos hdenotes,
        Tick.settled_toJson]
    refine ⟨by rw [hparse]; exact Tick.ofJson?_toJson ht, by rw [hvalue]; exact Tick.ofJson?_toJson ht,
      fun before after js ks hbefore hafter => ?_⟩
    have hrecords := records?_among ht htext hbefore hafter
    refine ⟨hrecords, Tick.ofJson?_toJson ht, fun κ σ ν react w => ?_⟩
    have hcounted := counted_eq_ok hrecords (by simp)
    have hreceive := receive_eq react (arrayText (before ++ text :: after)) w
    rw [hcounted, ticksOf_among ht htext hbefore hafter] at hreceive
    exact hreceive
  · refine ⟨{ b with closureReported := false }, ?_, Bar.same_unreported b⟩
    rw [parse?_written (Bar.plain_toJson hb) htext]
    exact Bar.ofJson?_toJson hb

/-- A tick at the limits: every kind of escape in its ticker, integers and coefficients as great as they
get, all the decimals there are. -/
def extremeTick : Tick where
  event := "A"
  ticker := "\"\\\x00\n\x1f/é😀"
  volume := 2 ^ 63 - 1
  accumulatedVolume := -2 ^ 63
  dayOpen := (Decimal.ofParts? (2 ^ 96 - 1) 28).getD .zero
  vwap := (Decimal.ofParts? (-(2 ^ 96 - 1)) 28).getD .zero
  openPrice := (Decimal.ofParts? 0 28).getD .zero
  closePrice := (Decimal.ofParts? (2 ^ 96 - 1) 0).getD .zero
  high := (Decimal.ofParts? 1 28).getD .zero
  low := (Decimal.ofParts? (-10) 1).getD .zero
  start := -2 ^ 63
  stop := 2 ^ 63 - 1

/-- Such a tick is taken from between a record that is no object and one of another event. -/
theorem wire_faithful_extreme :
    let react : Reaction Unit Unit Unit := fun _ _ w => (w, .ok ())
    let batch := arrayText [" null ", extremeTick.toJson.pretty, "\x7b\"ev\": \"T\"\x7d"]
    extremeTick.Sized ∧ (Bar.ofTick extremeTick).Sized ∧ extremeTick.vwap.scale = 28 ∧
      (parse? extremeTick.toJson.compress).bind Tick.ofJson? = some extremeTick ∧
      records? batch = some [.null, extremeTick.toJson, .object [("ev", .string "T")]] ∧
      (receive react batch ⟨ofConfig {}, ()⟩).2.2 = .ok 1 ∧
      ∃ read, (parse? (Bar.ofTick extremeTick).toJson.pretty).bind Bar.ofJson? = some read ∧
        read.same (Bar.ofTick extremeTick) = true := by
  intro react batch
  have hsized : extremeTick.Sized := by constructor <;> unfold Signed <;> decide
  have hbar : (Bar.ofTick extremeTick).Sized := ⟨hsized.1, hsized.2, hsized.3, hsized.4⟩
  have hbefore : List.Forall₂ IsItem [" null "] [.null] :=
    .cons ⟨by decide +kernel, rfl, by decide⟩ .nil
  have hafter : List.Forall₂ IsItem ["\x7b\"ev\": \"T\"\x7d"] [.object [("ev", .string "T")]] :=
    .cons ⟨by decide +kernel, rfl, by decide⟩ .nil
  obtain ⟨htext, -, -⟩ := wire_faithful.1 extremeTick hsized extremeTick.toJson.compress (by simp)
  obtain ⟨-, -, hbatch⟩ := wire_faithful.1 extremeTick hsized extremeTick.toJson.pretty (by simp)
  obtain ⟨hrecords, -, hreceive⟩ := hbatch _ _ _ _ hbefore hafter
  have hcount : (receive react batch ⟨ofConfig {}, ()⟩).2.2 = .ok 1 := by
    have hbatch : batch = arrayText ([" null "] ++
        extremeTick.toJson.pretty :: ["\x7b\"ev\": \"T\"\x7d"]) := rfl
    rw [hbatch, hreceive Unit Unit Unit react ⟨ofConfig {}, ()⟩]
    decide +kernel
  exact ⟨hsized, hbar, by decide +kernel, htext, hrecords, hcount, wire_faithful.2 _ hbar _ (by simp)⟩

end Board

end TapeReader

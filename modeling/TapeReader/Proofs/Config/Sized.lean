import TapeReader.Config.Json
import TapeReader.Config.Settings
import TapeReader.Proofs.Config.Decoder
import TapeReader.Proofs.Json.Record

/-!
# The numbers of a configuration

* `Decoder.Bounded`: what is decoded as an integer of 64 bits is one; `Json.bounded_decoder`,
  `Setting.bounded_decoder`.
* `Config.Sized`: the numbers of a configuration have 64 bits, those that count things without a sign.
* `sized_of_decode?`, `sized_default`: **whatever a configuration is decoded from, its numbers do**, and so
  do those of the defaults.
-/

namespace TapeReader

open Json

/-! ## Numbers that are read -/

namespace Setting

variable {low high i : ℤ} {v : Setting}

theorem bounds_of_within? {k : ℤ} (h : within? low high k = some i) : low ≤ i ∧ i ≤ high := by
  unfold within? at h
  split_ifs at h with hbounds
  cases h
  exact hbounds

/-- **The integer that a value is taken for** lies in the range that was asked for: one that does not is
refused, or brought into the range. -/
theorem bounds_of_integerWithin? (hlow : low ≤ 0) (hhigh : 1 ≤ high)
    (h : integerWithin? low high v = some i) : low ≤ i ∧ i ≤ high := by
  have hbool : ∀ b : Bool, low ≤ (if b then 1 else 0) ∧ (if b then 1 else 0) ≤ high := by
    rintro ⟨⟩ <;> exact ⟨by simp; omega, by simp; omega⟩
  unfold integerWithin? at h
  split at h
  case h_1 b => cases h; exact hbool b
  case h_2 k => exact bounds_of_within? h
  case h_3 negative magnitude =>
    cases h
    unfold clamp
    omega
  case h_4 negative =>
    cases h
    cases negative <;> simp <;> omega
  case h_5 => cases h; omega
  case h_6 s =>
    split at h
    · rename_i b _
      cases h
      exact hbool b
    · split_ifs at h
      obtain ⟨k, -, hk⟩ := Option.bind_eq_some_iff.1 h
      exact bounds_of_within? hk
  case h_7 => cases h

theorem signed_of_int64? (h : v.int64? = some i) : Signed i := by
  have hbounds := bounds_of_integerWithin? (by norm_num) (by norm_num) h
  exact ⟨hbounds.1, by omega⟩

theorem lt_of_nat64? {n : ℕ} (h : v.nat64? = some n) : n < 2 ^ 64 := by
  obtain ⟨i, hi, rfl⟩ := Option.map_eq_some_iff.1 h
  have hbounds := bounds_of_integerWithin? (by norm_num) (by norm_num) hi
  omega

end Setting

/-- What is decoded as an integer of 64 bits is one. -/
structure Decoder.Bounded {β : Type} (d : Decoder β) : Prop where
  signed : ∀ v i, d.int64? v = some i → Signed i
  lt : ∀ v n, d.nat64? v = some n → n < 2 ^ 64

theorem Json.bounded_decoder : Json.decoder.Bounded := ⟨fun _ _ => signed_of_int64?, fun _ _ => lt_of_nat64?⟩

theorem Setting.bounded_decoder : Setting.decoder.Bounded :=
  ⟨fun _ _ => signed_of_int64?, fun _ _ => lt_of_nat64?⟩

namespace Config

open Decoder

variable {β : Type} {d : Decoder β} {v : β}

/-! ## The sections -/

namespace Feed

variable {c : Feed}

/-- The time limit has 64 bits. -/
structure Sized (c : Feed) : Prop where
  connectTimeoutSecs : c.connectTimeoutSecs < 2 ^ 64

theorem sized_default : Sized {} := ⟨by decide⟩

theorem sized_of_decode? (hd : d.Bounded) (h : decode? d v = some c) : c.Sized := by
  obtain ⟨_, _, _, _, -, hreads⟩ := decode?_eq_some_iff.1 h
  exact ⟨fieldOr_holds (P := (· < 2 ^ 64)) (by decide) hd.lt hreads.connectTimeoutSecs⟩

end Feed

namespace Aggregation

variable {c : Aggregation}

/-- The lengths of windows have 64 bits, and so has the length of histories. -/
structure Sized (c : Aggregation) : Prop where
  resolutionsSecs : ∀ r, Signed (c.resolutionsSecs.get r)
  historyLen : c.historyLen < 2 ^ 64

theorem sized_default : Sized {} where
  resolutionsSecs r := by cases r <;> exact ⟨by decide, by decide⟩
  historyLen := by decide

theorem signed_of_resolutions? (hd : d.Bounded) {p : PerResolution ℤ} (h : d.resolutions? v = some p)
    (r : Resolution) : Signed (p.get r) := by
  obtain ⟨_, _, _, _, -, hfirst, hsecond, hthird, hfourth⟩ := resolutions?_eq_some_iff.1 h
  cases r
  · exact hd.signed _ _ hfirst
  · exact hd.signed _ _ hsecond
  · exact hd.signed _ _ hthird
  · exact hd.signed _ _ hfourth

theorem sized_of_decode? (hd : d.Bounded) (h : decode? d v = some c) : c.Sized := by
  obtain ⟨_, _, -, hreads⟩ := decode?_eq_some_iff.1 h
  exact ⟨fieldOr_holds (P := fun p => ∀ r, Signed (p.get r)) sized_default.resolutionsSecs
      (fun _ _ => signed_of_resolutions? hd) hreads.resolutionsSecs,
    fieldOr_holds (P := (· < 2 ^ 64)) (by decide) hd.lt hreads.historyLen⟩

end Aggregation

variable [TimeZones]

namespace Momentum

variable {c : Momentum}

/-- The least volume has 64 bits. -/
structure Sized (c : Momentum) : Prop where
  minMinuteVolume : Signed c.minMinuteVolume

theorem sized_default : Sized default := ⟨show Signed 3000 from ⟨by decide, by decide⟩⟩

theorem sized_of_decode? (hd : d.Bounded) (h : decode? d v = some c) : c.Sized := by
  obtain ⟨_, _, _, _, _, _, _, _, -, hreads⟩ := decode?_eq_some_iff.1 h
  exact ⟨fieldOr_holds sized_default.minMinuteVolume hd.signed hreads.minMinuteVolume⟩

end Momentum

/-! ## The whole -/

/-- **The numbers of a configuration have 64 bits.** -/
structure Sized (c : Config) : Prop where
  feed : c.feed.Sized
  aggregation : c.aggregation.Sized
  strategy : c.strategy.Sized

theorem sized_default : Sized default :=
  ⟨Feed.sized_default, Aggregation.sized_default, Momentum.sized_default⟩

/-- **Whatever is decoded has numbers of 64 bits.** -/
theorem sized_of_decode? (hd : d.Bounded) {c : Config} (h : decode? d v = some c) : c.Sized := by
  obtain ⟨_, _, _, -, hreads⟩ := decode?_eq_some_iff.1 h
  exact ⟨fieldOr_holds Feed.sized_default (fun _ _ => Feed.sized_of_decode? hd) hreads.feed,
    fieldOr_holds Aggregation.sized_default (fun _ _ => Aggregation.sized_of_decode? hd)
      hreads.aggregation,
    fieldOr_holds Momentum.sized_default (fun _ _ => Momentum.sized_of_decode? hd) hreads.strategy⟩

end Config

end TapeReader

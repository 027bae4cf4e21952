import TapeReader.Config.Decoder

/-!
# Sections are decoded field by field

`Feed.decode?_eq_some_iff`, `Aggregation.decode?_eq_some_iff`, `Momentum.decode?_eq_some_iff` and
`Config.decode?_eq_some_iff`: **what is decoded has in each field what is said there**, or its default.
-/

namespace TapeReader

variable {α β : Type} {d : Decoder β} {v : β}

namespace Decoder

-- by rewriting: as a definitional equality it would be checked by evaluating what is read
theorem fieldOr_some (fallback : α) (read : β → Option α) (v : β) :
    fieldOr fallback read (some v) = read v := by
  rw [fieldOr]

/-- What holds of a default and of all that can be read holds of a field. -/
theorem fieldOr_holds {P : α → Prop} {fallback a : α} {read : β → Option α} {field : Option β}
    (hfallback : P fallback) (hread : ∀ v a, read v = some a → P a)
    (h : fieldOr fallback read field = some a) : P a := by
  cases field with
  | none =>
    cases h
    exact hfallback
  | some v => exact hread v a h

theorem resolutions?_eq_some_iff {p : PerResolution Int} :
    d.resolutions? v = some p ↔ ∃ first second third fourth,
      d.four? v = some (first, second, third, fourth) ∧ d.int64? first = some p.oneSecond ∧
        d.int64? second = some p.tenSeconds ∧ d.int64? third = some p.oneMinute ∧
          d.int64? fourth = some p.fiveMinutes := by
  unfold resolutions?
  constructor
  · intro h
    obtain ⟨⟨first, second, third, fourth⟩, hfour, h⟩ := Option.bind_eq_some_iff.1 h
    obtain ⟨_, hfirst, h⟩ := Option.bind_eq_some_iff.1 h
    obtain ⟨_, hsecond, h⟩ := Option.bind_eq_some_iff.1 h
    obtain ⟨_, hthird, h⟩ := Option.bind_eq_some_iff.1 h
    obtain ⟨_, hfourth, h⟩ := Option.bind_eq_some_iff.1 h
    cases h
    exact ⟨first, second, third, fourth, hfour, hfirst, hsecond, hthird, hfourth⟩
  · rintro ⟨first, second, third, fourth, hfour, hfirst, hsecond, hthird, hfourth⟩
    simp only [hfour, hfirst, hsecond, hthird, hfourth, Option.bind_eq_bind, Option.bind_some]

end Decoder

namespace Config

open Decoder

/-! ## The sections -/

namespace Feed

/-- What the fields say is what a section has. -/
structure Reads (d : Decoder β) (c : Feed) (url apiKey timeout close : Option β) : Prop where
  url : fieldOr ({} : Feed).url d.text? url = some c.url
  apiKey : fieldOr ({} : Feed).apiKey d.optionalText? apiKey = some c.apiKey
  connectTimeoutSecs :
    fieldOr ({} : Feed).connectTimeoutSecs d.nat64? timeout = some c.connectTimeoutSecs
  closeAfterSubscribe :
    fieldOr ({} : Feed).closeAfterSubscribe d.bool? close = some c.closeAfterSubscribe

theorem decode?_eq_some_iff {c : Feed} : decode? d v = some c ↔ ∃ url apiKey timeout close,
    d.record? fieldNames v = some [url, apiKey, timeout, close] ∧
      c.Reads d url apiKey timeout close := by
  unfold decode?
  constructor
  · intro h
    split at h
    · rename_i url apiKey timeout close hrecord
      obtain ⟨_, hurl, h⟩ := Option.bind_eq_some_iff.1 h
      obtain ⟨_, hkey, h⟩ := Option.bind_eq_some_iff.1 h
      obtain ⟨_, htimeout, h⟩ := Option.bind_eq_some_iff.1 h
      obtain ⟨_, hclose, h⟩ := Option.bind_eq_some_iff.1 h
      cases h
      exact ⟨url, apiKey, timeout, close, hrecord, hurl, hkey, htimeout, hclose⟩
    · cases h
  · rintro ⟨url, apiKey, timeout, close, hrecord, hreads⟩
    simp only [hrecord, hreads.url, hreads.apiKey, hreads.connectTimeoutSecs,
      hreads.closeAfterSubscribe, Option.bind_eq_bind, Option.bind_some]

end Feed

namespace Aggregation

/-- What the fields say is what a section has. -/
structure Reads (d : Decoder β) (c : Aggregation) (resolutions historyLen : Option β) : Prop where
  resolutionsSecs : fieldOr ({} : Aggregation).resolutionsSecs d.resolutions? resolutions =
    some c.resolutionsSecs
  historyLen : fieldOr ({} : Aggregation).historyLen d.nat64? historyLen = some c.historyLen

theorem decode?_eq_some_iff {c : Aggregation} : decode? d v = some c ↔ ∃ resolutions historyLen,
    d.record? fieldNames v = some [resolutions, historyLen] ∧ c.Reads d resolutions historyLen := by
  unfold decode?
  constructor
  · intro h
    split at h
    · rename_i resolutions historyLen hrecord
      obtain ⟨_, hresolutions, h⟩ := Option.bind_eq_some_iff.1 h
      obtain ⟨_, hhistory, h⟩ := Option.bind_eq_some_iff.1 h
      cases h
      exact ⟨resolutions, historyLen, hrecord, hresolutions, hhistory⟩
    · cases h
  · rintro ⟨resolutions, historyLen, hrecord, hreads⟩
    simp only [hrecord, hreads.resolutionsSecs, hreads.historyLen, Option.bind_eq_bind,
      Option.bind_some]

end Aggregation

variable [TimeZones]

namespace Momentum

/-- What the fields say is what a section has. -/
structure Reads (d : Decoder β) (c : Momentum)
    (start stop zone gain least most minute volume : Option β) : Prop where
  sessionStart : fieldOr (default : Momentum).sessionStart d.time? start = some c.sessionStart
  sessionEnd : fieldOr (default : Momentum).sessionEnd d.time? stop = some c.sessionEnd
  timezone : fieldOr (default : Momentum).timezone d.zone? zone = some c.timezone
  gainRatio : fieldOr (default : Momentum).gainRatio d.decimal? gain = some c.gainRatio
  minPrice : fieldOr (default : Momentum).minPrice d.decimal? least = some c.minPrice
  maxPrice : fieldOr (default : Momentum).maxPrice d.decimal? most = some c.maxPrice
  minMinuteVolume :
    fieldOr (default : Momentum).minMinuteVolume d.int64? minute = some c.minMinuteVolume
  volumeRatio : fieldOr (default : Momentum).volumeRatio d.decimal? volume = some c.volumeRatio

theorem decode?_eq_some_iff {c : Momentum} : decode? d v = some c ↔
    ∃ start stop zone gain least most minute volume,
      d.record? fieldNames v = some [start, stop, zone, gain, least, most, minute, volume] ∧
        c.Reads d start stop zone gain least most minute volume := by
  unfold decode?
  constructor
  · intro h
    split at h
    · rename_i start stop zone gain least most minute volume hrecord
      obtain ⟨_, hstart, h⟩ := Option.bind_eq_some_iff.1 h
      obtain ⟨_, hstop, h⟩ := Option.bind_eq_some_iff.1 h
      obtain ⟨_, hzone, h⟩ := Option.bind_eq_some_iff.1 h
      obtain ⟨_, hgain, h⟩ := Option.bind_eq_some_iff.1 h
      obtain ⟨_, hleast, h⟩ := Option.bind_eq_some_iff.1 h
      obtain ⟨_, hmost, h⟩ := Option.bind_eq_some_iff.1 h
      obtain ⟨_, hminute, h⟩ := Option.bind_eq_some_iff.1 h
      obtain ⟨_, hvolume, h⟩ := Option.bind_eq_some_iff.1 h
      cases h
      exact ⟨start, stop, zone, gain, least, most, minute, volume, hrecord, hstart, hstop, hzone,
        hgain, hleast, hmost, hminute, hvolume⟩
    · cases h
  · rintro ⟨start, stop, zone, gain, least, most, minute, volume, hrecord, hreads⟩
    simp only [hrecord, hreads.sessionStart, hreads.sessionEnd, hreads.timezone, hreads.gainRatio,
      hreads.minPrice, hreads.maxPrice, hreads.minMinuteVolume, hreads.volumeRatio,
      Option.bind_eq_bind, Option.bind_some]

end Momentum

/-! ## The whole -/

/-- What the fields say is what a configuration has. -/
structure Reads (d : Decoder β) (c : Config) (feed aggregation strategy : Option β) : Prop where
  feed : fieldOr {} (Feed.decode? d) feed = some c.feed
  aggregation : fieldOr {} (Aggregation.decode? d) aggregation = some c.aggregation
  strategy : fieldOr default (Momentum.decode? d) strategy = some c.strategy

theorem decode?_eq_some_iff {c : Config} : decode? d v = some c ↔ ∃ feed aggregation strategy,
    d.record? fieldNames v = some [feed, aggregation, strategy] ∧
      c.Reads d feed aggregation strategy := by
  unfold decode?
  constructor
  · intro h
    split at h
    · rename_i feed aggregation strategy hrecord
      obtain ⟨_, hfeed, h⟩ := Option.bind_eq_some_iff.1 h
      obtain ⟨_, haggregation, h⟩ := Option.bind_eq_some_iff.1 h
      obtain ⟨_, hstrategy, h⟩ := Option.bind_eq_some_iff.1 h
      cases h
      exact ⟨feed, aggregation, strategy, hrecord, hfeed, haggregation, hstrategy⟩
    · cases h
  · rintro ⟨feed, aggregation, strategy, hrecord, hreads⟩
    simp only [hrecord, hreads.feed, hreads.aggregation, hreads.strategy, Option.bind_eq_bind,
      Option.bind_some]

end Config

end TapeReader

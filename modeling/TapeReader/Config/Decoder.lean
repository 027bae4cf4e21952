import TapeReader.Config.Basic

/-!
# Decoding a configuration

* `Decoder`: what the values of a format are taken for where a field wants something.
* `Config.decode?`: a configuration or a section of one; fields that are missing have their defaults.
-/

namespace TapeReader

/-- What the values of a format are taken for where a field wants something. -/
structure Decoder (β : Type) where
  /-- The declared fields of a record, in order. -/
  record? : List String → β → Option (List (Option β))
  text? : β → Option String
  /-- A text, or nothing. -/
  optionalText? : β → Option (Option String)
  bool? : β → Option Bool
  /-- An integer of 64 bits, without sign and with one. -/
  nat64? : β → Option Nat
  int64? : β → Option Int
  decimal? : β → Option Decimal
  four? : β → Option (β × β × β × β)

variable [TimeZones] {α β : Type}

namespace Decoder

/-- A field that may be missing. -/
def fieldOr (fallback : α) (read : β → Option α) : Option β → Option α
  | none => some fallback
  | some v => read v

/-- A time of day is a text. -/
def time? (d : Decoder β) (v : β) : Option TimeOfDay := (d.text? v).bind TimeOfDay.ofText?

/-- A zone is the text of its name. -/
def zone? (d : Decoder β) (v : β) : Option Zone := (d.text? v).bind Zone.ofName?

/-- Four integers, finest resolution first. -/
def resolutions? (d : Decoder β) (v : β) : Option (PerResolution Int) := do
  let (first, second, third, fourth) ← d.four? v
  some ⟨← d.int64? first, ← d.int64? second, ← d.int64? third, ← d.int64? fourth⟩

end Decoder

namespace Config

open Decoder

namespace Feed

def fieldNames : List String :=
  ["url", "api_key", "connect_timeout_secs", "close_after_subscribe"]

def decode? (d : Decoder β) (v : β) : Option Feed :=
  match d.record? fieldNames v with
  | some [url, apiKey, timeout, close] => do
    let usual : Feed := {}
    some {
      url := ← fieldOr usual.url d.text? url
      apiKey := ← fieldOr usual.apiKey d.optionalText? apiKey
      connectTimeoutSecs := ← fieldOr usual.connectTimeoutSecs d.nat64? timeout
      closeAfterSubscribe := ← fieldOr usual.closeAfterSubscribe d.bool? close }
  | _ => none

end Feed

namespace Aggregation

def fieldNames : List String := ["resolutions_secs", "history_len"]

def decode? (d : Decoder β) (v : β) : Option Aggregation :=
  match d.record? fieldNames v with
  | some [resolutions, historyLen] => do
    let usual : Aggregation := {}
    some {
      resolutionsSecs := ← fieldOr usual.resolutionsSecs d.resolutions? resolutions
      historyLen := ← fieldOr usual.historyLen d.nat64? historyLen }
  | _ => none

end Aggregation

namespace Momentum

def fieldNames : List String :=
  ["session_start", "session_end", "timezone", "gain_ratio", "min_price", "max_price",
    "min_minute_volume", "volume_ratio"]

def decode? (d : Decoder β) (v : β) : Option Momentum :=
  match d.record? fieldNames v with
  | some [start, stop, zone, gain, least, most, minute, volume] => do
    let usual : Momentum := default
    some {
      sessionStart := ← fieldOr usual.sessionStart d.time? start
      sessionEnd := ← fieldOr usual.sessionEnd d.time? stop
      timezone := ← fieldOr usual.timezone d.zone? zone
      gainRatio := ← fieldOr usual.gainRatio d.decimal? gain
      minPrice := ← fieldOr usual.minPrice d.decimal? least
      maxPrice := ← fieldOr usual.maxPrice d.decimal? most
      minMinuteVolume := ← fieldOr usual.minMinuteVolume d.int64? minute
      volumeRatio := ← fieldOr usual.volumeRatio d.decimal? volume }
  | _ => none

end Momentum

def fieldNames : List String := ["feed", "aggregation", "strategy"]

/-- **The configuration that a value says.** -/
def decode? (d : Decoder β) (v : β) : Option Config :=
  match d.record? fieldNames v with
  | some [feed, aggregation, strategy] => do
    some {
      feed := ← fieldOr {} (Feed.decode? d) feed
      aggregation := ← fieldOr {} (Aggregation.decode? d) aggregation
      strategy := ← fieldOr default (Momentum.decode? d) strategy }
  | _ => none

end Config

end TapeReader

import TapeReader.Config.Decoder
import TapeReader.Decimal.Json
import TapeReader.Json.Parser

/-!
# Configuration in JSON

* `ofJson?`: a configuration or a section of one; a value is taken for what it is.
* `toJson`: every field written, in order.
-/

namespace TapeReader

namespace Json

/-- A string, or null for none. -/
def optionalString? : Json → Option (Option String)
  | .null => some none
  | .string s => some (some s)
  | _ => none

/-- The items of an array of four. -/
def four? : Json → Option (Json × Json × Json × Json)
  | .array [a, b, c, d] => some (a, b, c, d)
  | _ => none

/-- What JSON values are taken for. -/
def decoder : Decoder Json where
  record? names j := j.record? names
  text? := string?
  optionalText? := optionalString?
  bool? := bool?
  nat64? := nat64?
  int64? := int64?
  decimal? := Decimal.ofJson?
  four? := four?

end Json

namespace Config

variable [TimeZones]

namespace Feed

def ofJson? : Json → Option Feed := decode? Json.decoder

def toJson (c : Feed) : Json :=
  .object [("url", .string c.url), ("api_key", c.apiKey.elim .null .string),
    ("connect_timeout_secs", .nat c.connectTimeoutSecs),
    ("close_after_subscribe", .bool c.closeAfterSubscribe)]

end Feed

namespace Aggregation

def ofJson? : Json → Option Aggregation := decode? Json.decoder

def toJson (c : Aggregation) : Json :=
  .object [("resolutions_secs", .array (c.resolutionsSecs.toList.map .int)),
    ("history_len", .nat c.historyLen)]

end Aggregation

namespace Momentum

def ofJson? : Json → Option Momentum := decode? Json.decoder

def toJson (c : Momentum) : Json :=
  .object [("session_start", .string c.sessionStart.text),
    ("session_end", .string c.sessionEnd.text), ("timezone", .string c.timezone.name),
    ("gain_ratio", c.gainRatio.toJson), ("min_price", c.minPrice.toJson),
    ("max_price", c.maxPrice.toJson), ("min_minute_volume", .int c.minMinuteVolume),
    ("volume_ratio", c.volumeRatio.toJson)]

end Momentum

def ofJson? : Json → Option Config := decode? Json.decoder

def toJson (c : Config) : Json :=
  .object [("feed", c.feed.toJson), ("aggregation", c.aggregation.toJson),
    ("strategy", c.strategy.toJson)]

/-- A configuration from JSON text. A field written twice is refused. -/
def ofText? (text : String) : Option Config := (Json.parse? text).bind ofJson?

end Config

end TapeReader

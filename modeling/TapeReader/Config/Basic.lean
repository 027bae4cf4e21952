import TapeReader.Clock.Zone
import TapeReader.Decimal.Basic
import TapeReader.Resolution

/-!
# Configuration

* `Config.Feed`, `Config.Aggregation`, `Config.Momentum`: the sections, with their defaults.
* `Config.validate`: what a configuration must keep to.
-/

namespace TapeReader

variable [TimeZones]

/-- What is wrong with a configuration. -/
inductive ConfigFault where
  | url (url : String)
  | window (secs : Int)
  | history
  | session (start stop : TimeOfDay)
  /-- There is no board to watch any more. -/
  | noBoard
deriving DecidableEq, Repr

namespace Config

/-- The connection to the feed. -/
structure Feed where
  url : String := "wss://socket.polygon.io/stocks"
  apiKey : Option String := none
  connectTimeoutSecs : Nat := 10
  closeAfterSubscribe : Bool := false
deriving DecidableEq, Repr

/-- The windows that bars are kept for, and how many of them. -/
structure Aggregation where
  resolutionsSecs : PerResolution Int := ⟨1, 10, 60, 300⟩
  historyLen : Nat := 30
deriving DecidableEq, Repr

/-- The entry rule: a session of the day, and bounds on prices and volumes. -/
structure Momentum where
  sessionStart : TimeOfDay := ⟨9 * 3600, 0, by decide, by decide⟩
  /-- The session ends before this time. -/
  sessionEnd : TimeOfDay := ⟨9 * 3600 + 25 * 60, 0, by decide, by decide⟩
  timezone : Zone := .newYork
  /-- What the close must exceed, as a multiple of the reference open. -/
  gainRatio : Decimal := ⟨12, 1, by decide, by decide⟩
  minPrice : Decimal := ⟨2, 0, by decide, by decide⟩
  maxPrice : Decimal := ⟨50, 0, by decide, by decide⟩
  minMinuteVolume : Int := 3000
  /-- What the volume must stay below, as a multiple of the recent volume. -/
  volumeRatio : Decimal := ⟨15, 1, by decide, by decide⟩
deriving DecidableEq, Repr

instance : Inhabited Momentum := ⟨{}⟩

end Config

structure Config where
  feed : Config.Feed := {}
  aggregation : Config.Aggregation := {}
  strategy : Config.Momentum := {}
deriving DecidableEq, Repr

namespace Config

instance : Inhabited Config := ⟨{}⟩

/-- Windows have a length and histories a place. -/
def Aggregation.validate (a : Aggregation) : Except ConfigFault Unit :=
  match a.resolutionsSecs.toList.find? (· ≤ 0) with
  | some secs => .error (.window secs)
  | none => if a.historyLen = 0 then .error .history else .ok ()

/-- The feed is reached over a web socket, windows have a length and histories a place. -/
def validate (c : Config) : Except ConfigFault Unit :=
  if c.feed.url.startsWith "wss://" ∨ c.feed.url.startsWith "ws://" then c.aggregation.validate
  else .error (.url c.feed.url)

end Config

namespace ConfigFault

/-- The words for a fault. -/
def message : ConfigFault → String
  | .url address => s!"feed url must be a websocket url, got {address}"
  | .window secs =>
    let secs := Text.int secs
    s!"window duration must be positive, got {secs}"
  | .history => "history_len must be at least 1"
  | .session start stop =>
    let start := start.text
    let stop := stop.text
    s!"empty session window {start} - {stop}"
  | .noBoard => "data handler already dropped"

end ConfigFault

end TapeReader

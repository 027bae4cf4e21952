import TapeReader.Config.Basic
import TapeReader.Error
import TapeReader.Market.History

/-!
# The entry rule

A ticker is an entry when, in the session, its price jumps by a ratio over the last ten seconds
on a burst of volume.

* `referenceOpen`: the open that the close is compared with.
* `recentVolume`: the volume of the last minutes.
* `isEntryPoint`: the rule.
-/

namespace TapeReader.Momentum

-- Sums mean the same whichever libraries are in scope.
attribute [local instance (2000)] Zero.ofOfNat0

variable [TimeZones]

/-- How far back the recent volume reaches, in milliseconds. -/
def lookbackMillis : Int := 5 * 60 * 1000

/-- The open of the ten-second bar before the newest one, where the one runs straight into the
other, and the newest one's own open otherwise. -/
def referenceOpen : History → Decimal
  | [] => .zero
  | [bar] => bar.openPrice
  | bar :: previous :: _ =>
    if previous.stop = bar.start then previous.openPrice else bar.openPrice

/-- The volume of the newest minute bars, back to a start five minutes before the newest one's. -/
def recentVolume (newest : Bar) (minutes : History) : Int :=
  let earliest := wrap (newest.start - lookbackMillis)
  wrap ((minutes.takeWhile (earliest ≤ ·.start)).map (·.volume)).sum

/-- Whether the edge of a bar is in the session, in local time. -/
def inSession (c : Config.Momentum) (bar : Bar) : Bool :=
  match bar.endTime? with
  | none => false
  | some instant =>
    let time := c.timezone.localTime instant
    !(time < c.sessionStart) && time < c.sessionEnd

/-- A product of decimals. -/
def product (a b : Decimal) : Except Abort Decimal :=
  (a.mul? b).elim (.error .multiplication) .ok

/-- A multiple of a volume. -/
def multiple (ratio : Decimal) (volume : Int) : Except Abort Decimal :=
  match Decimal.ofInt? volume with
  | some d => product ratio d
  | none => .error .multiplication

/-- **The entry rule**, on the ten-second bars and the minute bars of a ticker. The second product
is formed only where all else holds. -/
def isEntryPoint (c : Config.Momentum) (tens minutes : History) : Except Abort Bool :=
  match tens, minutes with
  | bar :: _, minute :: _ =>
    if inSession c bar then do
      let threshold ← product c.gainRatio (referenceOpen tens)
      if threshold < bar.closePrice ∧ c.minPrice < bar.closePrice ∧ bar.closePrice < c.maxPrice
          ∧ c.minMinuteVolume < minute.volume then do
        let ceiling ← multiple c.volumeRatio (recentVolume minute minutes)
        match Decimal.ofInt? bar.volume with
        | some volume => .ok (volume < ceiling)
        | none => .error .multiplication
      else .ok false
    else .ok false
  | _, _ => .ok false

end TapeReader.Momentum

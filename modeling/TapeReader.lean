import TapeReader.Main
import TapeReader.Proofs.Decimal.Value
import TapeReader.Proofs.Market.History
import TapeReader.Proofs.Market.Ledger
import TapeReader.Proofs.Market.Bars
import TapeReader.Proofs.Market.Closure
import TapeReader.Proofs.Market.Signals
import TapeReader.Proofs.Board.Fanout
import TapeReader.Proofs.Feed.Handshake
import TapeReader.Proofs.Feed.Run
import TapeReader.Proofs.Feed.Stream
import TapeReader.Proofs.Market.Acceptance
import TapeReader.Proofs.Market.RollUp
import TapeReader.Proofs.Decimal.Rounding
import TapeReader.Proofs.Feed.Outcome
import TapeReader.Proofs.Feed.Events
import TapeReader.Proofs.Momentum.Aborts
import TapeReader.Proofs.Feed.Control
import TapeReader.Proofs.Feed.Audience
import TapeReader.Proofs.Feed.Delivery
import TapeReader.Proofs.Feed.Shutdown
import TapeReader.Proofs.Board.Acts
import TapeReader.Proofs.Board.Dispatch
import TapeReader.Proofs.Market.Span
import TapeReader.Proofs.Momentum.Lookback
import TapeReader.Proofs.Board.Calls
import TapeReader.Proofs.Momentum.Histories
import TapeReader.Proofs.Board.Batches
import TapeReader.Proofs.Json.Equality
import TapeReader.Proofs.Momentum.Batches
import TapeReader.Proofs.Board.Absorbed
import TapeReader.Proofs.Market.Log
import TapeReader.Proofs.Market.Tickers
import TapeReader.Proofs.Market.InPlace
import TapeReader.Proofs.Market.Refusal
import TapeReader.Proofs.Market.Edge
import TapeReader.Proofs.Market.Disjoint
import TapeReader.Proofs.Market.Nested
import TapeReader.Proofs.Board.Arrivals
import TapeReader.Proofs.Momentum.VolumeGuard
import TapeReader.Proofs.Feed.Language
import TapeReader.Proofs.Text.Digits
import TapeReader.Proofs.Decimal.Text
import TapeReader.Proofs.Clock.TimeOfDay
import TapeReader.Proofs.Json.Quoted
import TapeReader.Proofs.Json.Numeral
import TapeReader.Proofs.Json.Step
import TapeReader.Proofs.Json.Layout
import TapeReader.Proofs.Json.Items
import TapeReader.Proofs.Json.Record
import TapeReader.Proofs.Feed.Secret
import TapeReader.Proofs.Board.Wire
import TapeReader.Proofs.Config.Sized
import TapeReader.Proofs.Config.Printed
import TapeReader.Proofs.Config.Fallback
import TapeReader.Proofs.Roster
import TapeReader.Proofs.Momentum.Opening

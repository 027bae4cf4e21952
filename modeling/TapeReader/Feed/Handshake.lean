import TapeReader.Json.Printer
import TapeReader.Text.Basic

/-!
# The control exchange

The feed acknowledges the connection, the credential and the subscription, in this order; each
acknowledgement but the last is answered by a control message.

* `AckMatcher`: what counts as an acknowledgement.
* `authMessage`, `subscribeMessage`: the control messages.
* `Handshake.advance`: one payload consumed.
-/

namespace TapeReader

inductive ConnectionState where
  | init
  | connected
  | authenticated
  | subscribed
  | failed
deriving DecidableEq, Repr

def ConnectionState.name : ConnectionState → String
  | .init => "init"
  | .connected => "connected"
  | .authenticated => "authenticated"
  | .subscribed => "subscribed"
  | .failed => "failed"

/-- Which payloads acknowledge what. -/
structure AckMatcher where
  isConnected : String → Bool
  isAuthenticated : String → Bool
  isSubscribed : String → Bool

namespace AckMatcher

/-- A payload acknowledges when a marker stands somewhere in it. -/
def substring : AckMatcher where
  isConnected payload := Text.contains "Connected Successfully".toList payload.toList
  isAuthenticated payload := Text.contains "authenticated".toList payload.toList
  isSubscribed payload := Text.contains "subscribed to".toList payload.toList

/-- Just these payloads acknowledge. -/
def exact (connected authenticated subscribed : String) : AckMatcher where
  isConnected payload := payload == connected
  isAuthenticated payload := payload == authenticated
  isSubscribed payload := payload == subscribed

end AckMatcher

/-- A control message. -/
def controlMessage (action params : String) : String :=
  Json.compress (.object [("action", .string action), ("params", .string params)])

/-- The message that carries the credential. -/
def authMessage (secret : String) : String := controlMessage "auth" secret

/-- The message that asks for every per-second aggregate. -/
def subscribeMessage : String := controlMessage "subscribe" "A.*"

/-- What is to be done after a payload was consumed. -/
inductive Step where
  | reply (message : String)
  | subscribed
  | forward
deriving DecidableEq, Repr

/-- Why a payload was rejected. -/
inductive Rejection where
  /-- It does not acknowledge the connection or the subscription. -/
  | unexpected (payload : String)
  /-- It does not acknowledge the credential. -/
  | unauthenticated (payload : String)
  /-- The exchange had failed before. -/
  | afterFailure
deriving DecidableEq, Repr

/-- The exchange as far as it has come. -/
structure Handshake where
  secret : String
  matcher : AckMatcher
  state : ConnectionState := .init

namespace Handshake

/-- The exchange given up. -/
def fail (h : Handshake) : Handshake := { h with state := .failed }

/-- Consumes a payload. One that does not acknowledge what is due fails the exchange. -/
def advance (h : Handshake) (payload : String) : Handshake × Except Rejection Step :=
  match h.state with
  | .init =>
    if h.matcher.isConnected payload then
      ({ h with state := .connected }, .ok (.reply (authMessage h.secret)))
    else (h.fail, .error (.unexpected payload))
  | .connected =>
    if h.matcher.isAuthenticated payload then
      ({ h with state := .authenticated }, .ok (.reply subscribeMessage))
    else (h.fail, .error (.unauthenticated payload))
  | .authenticated =>
    if h.matcher.isSubscribed payload then
      ({ h with state := .subscribed }, .ok .subscribed)
    else (h.fail, .error (.unexpected payload))
  | .subscribed => (h, .ok .forward)
  | .failed => (h, .error .afterFailure)

end Handshake

end TapeReader

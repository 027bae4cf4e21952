import TapeReader.Config.Basic
import TapeReader.Feed.Handshake
import TapeReader.Market.Violation
import TapeReader.Roster

/-!
# Errors

* `ErrorKind`: the kinds of error, the words in front of each, and which of them end a run.
* `FeedError`: an error with its cause.
* `Abort`: what no caller handles: the work under way is given up.
-/

namespace TapeReader

inductive ErrorKind where
  | connection
  | authentication
  | protocol
  | alreadyRegistered
  | notRegistered
  | preconditionViolation
  | decode
  | emptyBatch
  | config
deriving DecidableEq, Repr

namespace ErrorKind

/-- An error of a kind in words, around the words for its cause. -/
def display (k : ErrorKind) (detail : String) : String :=
  match k with
  | .connection => s!"Connection error: {detail}"
  | .authentication => s!"Authentication error: {detail}"
  | .protocol => s!"Protocol error: {detail}"
  | .alreadyRegistered => s!"Name <{detail}> is already registered"
  | .notRegistered => s!"Name <{detail}> is not registered"
  | .preconditionViolation => s!"Precondition violated: {detail}"
  | .decode => s!"JSON parsing error: {detail}"
  | .emptyBatch => "Received an empty batch"
  | .config => s!"Configuration error: {detail}"

/-- Whether an error of this kind ends a run. -/
def isTerminal : ErrorKind → Bool
  | .connection | .authentication | .protocol => true
  | _ => false

end ErrorKind

/-- What went wrong on the line. -/
inductive LineFault where
  /-- The line says so itself. -/
  | reported (text : String)
  /-- The stream ended before the subscription. -/
  | closedIn (state : ConnectionState)
  /-- The address is of no web socket. -/
  | unsupportedScheme
  /-- There is no way to the address. -/
  | unreachable
deriving DecidableEq, Repr

def LineFault.message : LineFault → String
  | .reported text => text
  | .closedIn state => s!"connection closed in state {state.name}"
  | .unsupportedScheme => "Could not create connection: URL error: URL scheme not supported"
  | .unreachable => "Could not create connection"

inductive FeedError where
  | line (fault : LineFault)
  | noCredential
  | rejected (rejection : Rejection)
  | name (fault : NameFault)
  | violation (v : Violation)
  | decode
  | emptyBatch
  | config (fault : ConfigFault)
deriving DecidableEq, Repr

namespace FeedError

def kind : FeedError → ErrorKind
  | .line _ => .connection
  | .noCredential => .authentication
  | .rejected (.unexpected _) => .protocol
  | .rejected (.unauthenticated _) => .authentication
  | .rejected .afterFailure => .protocol
  | .name (.taken _) => .alreadyRegistered
  | .name (.unknown _) => .notRegistered
  | .violation _ => .preconditionViolation
  | .decode => .decode
  | .emptyBatch => .emptyBatch
  | .config _ => .config

/-- The words for the cause. -/
def detail : FeedError → String
  | .line fault => fault.message
  | .noCredential => "Authentication information not provided"
  | .rejected (.unexpected payload) => s!"Unexpected message: {payload}"
  | .rejected (.unauthenticated payload) => s!"Unexpected message: {payload}"
  | .rejected .afterFailure => "payload received after the handshake failed"
  | .name (.taken entry) => entry
  | .name (.unknown entry) => entry
  | .violation v => v.message
  | .decode => ""
  | .emptyBatch => ""
  | .config fault => fault.message

def message (e : FeedError) : String := e.kind.display e.detail

end FeedError

/-- Arithmetic without a result. -/
inductive Abort where
  | zeroWindow
  | multiplication
  | addition
deriving DecidableEq, Repr

def Abort.message : Abort → String
  | .zeroWindow => "attempt to calculate the remainder with a divisor of zero"
  | .multiplication => "Multiplication overflowed"
  | .addition => "Addition overflowed"

end TapeReader

import TapeReader.Config.Basic
import TapeReader.Error

/-!
# Clients

A client keeps a credential and a roster of listeners, and runs one connection at a time.

* `Script`: a line that plays frames.
* `Client.dispatch`: a payload given to every listener.
* `Client.runOn`: the exchange and then the stream, over a line, until the run ends. The report
  tells what was read, sent and delivered, in order.
* `Client.run`: a line dialled first.
-/

namespace TapeReader.Feed

/-- What a line plays when it is read. -/
inductive Frame where
  | text (payload : String)
  | failure (error : FeedError)
  /-- The peer has closed the stream. -/
  | ending
  /-- Shutdown is requested while the line is being read. The reading goes on with the next frame,
  or waits. -/
  | shutdown (wait : Bool)
deriving DecidableEq, Repr

/-- How a line takes texts: how many of them, and what it fails with when there is one more. -/
structure Outlet where
  limit : Option Nat := none
  refusal : FeedError := .line (.reported "broken pipe")
deriving DecidableEq, Repr

/-- A line: its frames, how it takes texts, whether it stays open after the last frame, and what
closing it fails with, if it does. -/
structure Script where
  frames : List Frame
  outlet : Outlet := {}
  holdOpen : Bool := false
  closeError : Option FeedError := none
deriving DecidableEq, Repr

/-- How a listener takes a payload: it may change, with the world around it, ask for shutdown, and
give up; it leaves a note. -/
structure Heard (η σ ν : Type) where
  listener : η
  around : σ
  note : ν
  shutdown : Bool := false
  done : Except Abort Unit := .ok ()

/-- What listeners do with payloads. -/
abbrev Listening (η σ ν : Type) := η → String → σ → Heard η σ ν

/-- What happens in a run. -/
inductive Event (ν : Type) where
  | read (payload : String)
  | sent (message : String)
  /-- A message that the line did not take. -/
  | unsent (message : String)
  | delivered (listener payload : String) (note : ν)
  | closed (error : Option FeedError)
deriving Repr

structure Client (η : Type) where
  config : Config.Feed
  credential : Option String := config.apiKey
  matcher : AckMatcher := .substring
  listeners : Roster η := {}
  state : ConnectionState := .init
  /-- A request stays: it ends every later run as well. -/
  shutdownRequested : Bool := false

/-- How a run ends. -/
inductive Ending where
  | finished
  | failed (error : FeedError)
  | aborted (abort : Abort)
  /-- The line is silent for ever. -/
  | waiting
deriving DecidableEq, Repr

/-- A run, done or under way. -/
structure Run (η σ ν : Type) where
  client : Client η
  around : σ
  handshake : Handshake
  /-- What has happened, in order. -/
  events : List (Event ν) := []

namespace Client

variable {η σ ν : Type}

def setCredential (c : Client η) (secret : String) : Client η :=
  { c with credential := some secret }

def requestShutdown (c : Client η) : Client η := { c with shutdownRequested := true }

def register (c : Client η) (name : String) (listener : η) : Except NameFault (Client η) :=
  (c.listeners.register name listener).map fun listeners => { c with listeners }

def unregister (c : Client η) (name : String) : Except NameFault (Client η) :=
  (c.listeners.unregister name).map fun (_, listeners) => { c with listeners }

/-- The credential, when there is one that is not empty. -/
def requireCredential (c : Client η) : Except FeedError String :=
  match c.credential with
  | some secret => if secret = "" then .error .noCredential else .ok secret
  | none => .error .noCredential

/-- What listeners have done so far with the payload being dispatched. -/
structure Dispatching (σ ν : Type) where
  around : σ
  events : List (Event ν)
  shutdown : Bool
  done : Except Abort Unit

/-- Gives the payload to one listener, unless one before it has given up. -/
def deliver (listen : Listening η σ ν) (payload : String) (name : String) (listener : η)
    (d : Dispatching σ ν) : η × Dispatching σ ν :=
  match d.done with
  | .error _ => (listener, d)
  | .ok () =>
    let heard := listen listener payload d.around
    (heard.listener,
      { around := heard.around
        events := d.events ++ [.delivered name payload heard.note]
        shutdown := d.shutdown || heard.shutdown
        done := heard.done })

/-- Gives a payload to every listener, in turn. -/
def dispatch (listen : Listening η σ ν) (payload : String) (r : Run η σ ν) :
    Run η σ ν × Except Abort Unit :=
  let start : Dispatching σ ν := ⟨r.around, r.events, r.client.shutdownRequested, .ok ()⟩
  let (listeners, d) := r.client.listeners.walk (deliver listen payload) start
  ({ r with
      client := { r.client with listeners, shutdownRequested := d.shutdown }
      around := d.around
      events := d.events },
    d.done)

/-- The run with the client's state as the exchange has it. -/
def follow (r : Run η σ ν) : Run η σ ν :=
  { r with client := { r.client with state := r.handshake.state } }

def note (r : Run η σ ν) (e : Event ν) : Run η σ ν := { r with events := r.events ++ [e] }

/-- How many texts the line has taken. -/
def sentCount (r : Run η σ ν) : Nat :=
  r.events.countP fun
    | .sent _ => true
    | _ => false

/-- Sends a message, if the line takes it. -/
def send (outlet : Outlet) (message : String) (r : Run η σ ν) :
    Run η σ ν × Option Ending :=
  if outlet.limit.all (sentCount r < ·) then (note r (.sent message), none)
  else (note r (.unsent message), some (.failed outlet.refusal))

/-- Consumes a payload, and says how the run ends if it does. -/
def consume (listen : Listening η σ ν) (outlet : Outlet) (payload : String)
    (r : Run η σ ν) : Run η σ ν × Option Ending :=
  let (handshake, step) := r.handshake.advance payload
  let r := note { r with handshake } (.read payload)
  match step with
  | .error rejection => (r, some (.failed (.rejected rejection)))
  | .ok (.reply message) =>
    match send outlet message r with
    | (r, none) => (follow r, none)
    | (r, some ending) => (r, some ending)
  | .ok .subscribed =>
    (follow r, if r.client.config.closeAfterSubscribe then some .finished else none)
  | .ok .forward =>
    match dispatch listen payload r with
    | (r, .ok ()) => (follow r, none)
    | (r, .error abort) => (r, some (.aborted abort))

/-- The loop of a run: the request for shutdown is looked at before each reading of the line, and
while the line waits. `reading` says that a reading is under way already. The frames not played
come back. -/
def loop (listen : Listening η σ ν) (outlet : Outlet) (holdOpen : Bool) :
    Bool → List Frame → Run η σ ν → Run η σ ν × Ending × List Frame
  | reading, frames, r =>
    if ¬ reading ∧ r.client.shutdownRequested then (r, .finished, frames)
    else match frames with
      | [] =>
        if holdOpen then (r, if r.client.shutdownRequested then .finished else .waiting, [])
        else if r.handshake.state = .subscribed then (r, .finished, [])
        else (r, .failed (.line (.closedIn r.handshake.state)), [])
      | .text payload :: rest =>
        match consume listen outlet payload r with
        | (r, none) => loop listen outlet holdOpen false rest r
        | (r, some ending) => (r, ending, rest)
      | .failure error :: rest => (r, .failed error, rest)
      | .ending :: rest =>
        if r.handshake.state = .subscribed then (r, .finished, rest)
        else (r, .failed (.line (.closedIn r.handshake.state)), rest)
      | .shutdown wait :: rest =>
        let r := { r with client := r.client.requestShutdown }
        if wait then (r, .finished, rest) else loop listen outlet holdOpen true rest r

/-- What a run leaves behind. -/
structure Report (η σ ν : Type) where
  client : Client η
  around : σ
  events : List (Event ν)
  ending : Ending
  framesLeft : List Frame

/-- **A run over a line.** It starts the exchange anew, and closes the line once when it finishes
or fails. -/
def runOn (c : Client η) (listen : Listening η σ ν) (script : Script) (around : σ) :
    Report η σ ν :=
  match c.requireCredential with
  | .error e => ⟨c, around, [], .failed e, script.frames⟩
  | .ok secret =>
    let start : Run η σ ν :=
      { client := { c with state := .init }, around
        handshake := { secret, matcher := c.matcher } }
    let (r, ending, left) :=
      loop listen script.outlet script.holdOpen false script.frames start
    let r := match ending with
      | .failed _ => follow { r with handshake := r.handshake.fail }
      | _ => r
    let r := match ending with
      | .finished | .failed _ => note r (.closed script.closeError)
      | .aborted _ | .waiting => r
    ⟨r.client, r.around, r.events, ending, left⟩

/-- A run over the line that dialling gives. -/
def run (c : Client η) (listen : Listening η σ ν) (dial : Config.Feed → Except LineFault Script)
    (around : σ) : Report η σ ν :=
  match c.requireCredential with
  | .error e => ⟨c, around, [], .failed e, []⟩
  | .ok _ =>
    if c.shutdownRequested then ⟨c, around, [], .finished, []⟩
    else match dial c.config with
      | .error fault =>
        ⟨{ c with state := .failed }, around, [], .failed (.line fault), []⟩
      | .ok script => c.runOn listen script around

/-- Dialling where there is no network: an address of a web socket is not reached, and any other
is refused. -/
def dialNowhere (config : Config.Feed) : Except LineFault Script :=
  if config.url.startsWith "wss://" ∨ config.url.startsWith "ws://" then .error .unreachable
  else .error .unsupportedScheme

end Client

namespace Event

variable {ν : Type}

/-- The message that an event sent. -/
def sentMessage? : Event ν → Option String
  | .sent message => some message
  | _ => none

def isClosed : Event ν → Bool
  | .closed _ => true
  | _ => false

end Event

end TapeReader.Feed

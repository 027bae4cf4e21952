import TapeReader.Feed.Listener
import TapeReader.Proofs.Board.Fanout
import TapeReader.Proofs.Feed.Run
import TapeReader.Proofs.Market.Ledger
import TapeReader.Proofs.Roster

/-!
# From the line to the bars

A board is the only listener of a client, and its watchers only look.

* `Hears`: a listener that gives payloads to a board, as messages.
* `Client.Streaming`: the stores hold the ticks of the payloads streamed so far, and nothing else.
* `Client.consume_streaming`: a payload consumed keeps it.
* `Client.run_bars`: **after a run, every history is that of a store of its own, fed the ticks that
  came after the subscription.**
-/

namespace TapeReader

open Board

namespace Feed

variable {η κ σ ν τ μ : Type} {react : Reaction κ σ ν} {listen : Listening η τ μ} {l : η}
  {view : τ → World κ σ}

/-- A listener gives every payload to the board in view, as a message. It stays what it is, asks for
no shutdown, and gives up only when the message does. -/
structure Hears (react : Reaction κ σ ν) (listen : Listening η τ μ) (l : η)
    (view : τ → World κ σ) : Prop where
  stays : ∀ payload s, (listen l payload s).listener = l
  goesOn : ∀ payload s, (listen l payload s).shutdown = false
  around : ∀ payload s, view (listen l payload s).around = (receive react payload (view s)).1
  done : ∀ payload s a, (listen l payload s).done = .error a ↔
    (receive react payload (view s)).2.2 = .error (.abort a)

/-- A board on a line hears what comes, whatever its watchers do. -/
theorem hearBoard_hears (react : Reaction κ σ ν) (l : η) : Hears react (hearBoard react) l id where
  stays _ _ := rfl
  goesOn _ _ := rfl
  around _ _ := rfl
  done payload w a := by
    unfold hearBoard
    dsimp only [id]
    rcases (receive react payload w).2.2 with e | n
    · cases e <;> simp
    · simp

theorem Listener.listen_hears :
    Hears Watcher.react Listener.listen .board (fun board => ⟨board, ()⟩) where
  stays _ _ := rfl
  goesOn _ _ := rfl
  around _ _ := rfl
  done payload board := (hearBoard_hears Watcher.react Listener.board).done payload ⟨board, ()⟩

namespace Client

variable {kind : κ → Prop} {name payload secret : String} {outlet : Outlet} {c : Client η}
  {r : Run η τ μ} {stores : PerResolution Store}

/-- The first listener that a client registers is its only one. -/
theorem register_alone {c₀ : Client η} (hempty : c₀.listeners.isEmpty = true)
    (h : c₀.register name l = .ok c) : c.listeners.entries = [(name, l)] := by
  have hnil : c₀.listeners.entries = [] := List.isEmpty_iff.1 hempty
  have hfree : name ∉ c₀.listeners.names := by simp [Roster.names, hnil]
  obtain ⟨listeners, hregister, hentries⟩ := Roster.register_of_not_mem hfree l
  unfold Client.register at h
  rw [hregister] at h
  cases h
  simpa [hnil] using hentries

/-! ## One payload -/

/-- A payload dispatched to a board that is the only listener is one message to it. -/
theorem dispatch_alone (hears : Hears react listen l view)
    (halone : r.client.listeners.entries = [(name, l)]) (payload : String) :
    dispatch listen payload r =
      ({ r with
          around := (listen l payload r.around).around
          events := r.events ++ [.delivered name payload (listen l payload r.around).note] },
        (listen l payload r.around).done) := by
  obtain ⟨client, around, handshake, events⟩ := r
  obtain ⟨config, credential, matcher, ⟨entries, nodup⟩, state, shutdown⟩ := client
  dsimp only at halone
  subst halone
  simp [dispatch, Roster.walk, Roster.walkEntries, deliver, hears.stays, hears.goesOn]

/-- Before the exchange is done, a payload changes at most the client's state, and nothing around
it. It ends the run only when the exchange stays undone, or the client closes after subscribing. -/
theorem consume_exchange (listen : Listening η τ μ) (outlet : Outlet) (payload : String)
    (hs : r.handshake.state ≠ .subscribed) :
    let result := consume listen outlet payload r
    result.1.client = { r.client with state := result.1.client.state } ∧
      result.1.around = r.around ∧ (∀ a, result.2 ≠ some (.aborted a)) ∧
      (result.1.handshake.state = .subscribed → r.client.config.closeAfterSubscribe = false →
        result.2 = none) := by
  intro result
  have hresult := consume_eq listen outlet payload r
  change result = _ at hresult
  have hshake : result.1.handshake = _ := (consume_spec listen outlet payload r).2
  rcases Handshake.advance_cases hs payload with hstep | ⟨hundone, ⟨message, hstep⟩ | ⟨_, hstep⟩⟩
  · rw [hresult, hstep]
    refine ⟨rfl, rfl, fun a => ?_, fun _ hclose => by simp [hclose]⟩
    dsimp only
    split <;> simp
  · obtain ⟨e, ending, hsend, -, hending⟩ := send_spec outlet message (taken r payload)
    rw [← hshake] at hundone
    rw [hstep] at hresult
    dsimp only at hresult
    rw [hsend] at hresult
    rw [hresult] at hundone ⊢
    cases ending with
    | none => exact ⟨rfl, rfl, hending, fun h => absurd h hundone⟩
    | some ending => exact ⟨rfl, rfl, hending, fun h => absurd h hundone⟩
  · rw [← hshake] at hundone
    rw [hstep] at hresult
    rw [hresult] at hundone ⊢
    exact ⟨rfl, rfl, by simp, fun h => absurd h hundone⟩

/-- After the exchange, a payload consumed is one message to a board that is the only listener. -/
theorem consume_alone (hears : Hears react listen l view)
    (halone : r.client.listeners.entries = [(name, l)]) (hs : r.handshake.state = .subscribed)
    (outlet : Outlet) (payload : String) :
    let result := consume listen outlet payload r
    result.1.client = { r.client with state := result.1.client.state } ∧
      result.1.around = (listen l payload r.around).around ∧
      result.2 = match (listen l payload r.around).done with
        | .ok () => none
        | .error a => some (.aborted a) := by
  have hadvance := Handshake.advance_of_subscribed hs payload
  have htaken : (taken r payload).client.listeners.entries = [(name, l)] := halone
  rw [consume_eq, hadvance]
  dsimp only
  rw [dispatch_alone hears htaken]
  have haround : (taken r payload).around = r.around := rfl
  rw [haround]
  cases (listen l payload r.around).done <;> exact ⟨rfl, rfl, rfl⟩

/-! ## A run -/

/-- A run, under way, of a client whose only listener is a board. The exchange is where the payloads
read have brought it, and the stores have been fed the ticks of those that came after it. -/
structure Streaming (kind : κ → Prop) (view : τ → World κ σ) (c : Client η) (secret : String)
    (stores : PerResolution Store) (r : Run η τ μ) : Prop where
  client : r.client = { c with
    state := r.client.state
    shutdownRequested := r.client.shutdownRequested }
  exchange : r.handshake = Handshake.after { secret, matcher := c.matcher } (reads r.events)
  watched : Watched kind (view r.around)
  stores : (view r.around).board.stores =
    ((c.matcher.streamed (reads r.events)).flatMap ticksOf).foldl feedAll stores

theorem Streaming.subscribed_iff (h : Streaming kind view c secret stores r) :
    r.handshake.state = .subscribed ↔ c.matcher.Subscribes (reads r.events) := by
  rw [h.exchange]
  exact Handshake.after_state_eq_subscribed_iff secret c.matcher _

/-- A payload of the exchange leaves the stores as they are. -/
theorem Streaming.exchanged (h : Streaming kind view c secret stores r) {r' : Run η τ μ}
    (hsub : ¬ c.matcher.Subscribes (reads r.events))
    (hclient : r'.client = { r.client with state := r'.client.state })
    (haround : r'.around = r.around) (hreads : reads r'.events = reads r.events ++ [payload])
    (hshake : r'.handshake = (r.handshake.advance payload).1) :
    Streaming kind view c secret stores r' where
  client := by rw [hclient, h.client]
  exchange := by rw [hshake, hreads, Handshake.after_concat, ← h.exchange]
  watched := by
    rw [haround]
    exact h.watched
  stores := by
    have hnil : c.matcher.streamed (reads r.events) = [] := if_neg hsub
    rw [haround, h.stores, hreads, AckMatcher.streamed_concat_of_not_subscribes hsub, hnil]

/-- A payload that comes after the exchange, as a message to the board, feeds the stores its
ticks. -/
theorem Streaming.heard (h : Streaming kind view c secret stores r) (hlook : OnlyLooks react kind)
    {r' : Run η τ μ} (hsub : c.matcher.Subscribes (reads r.events))
    (hclient : r'.client = { r.client with state := r'.client.state })
    (hview : view r'.around = (receive react payload (view r.around)).1)
    (hgo : ∀ a, (receive react payload (view r.around)).2.2 ≠ .error (.abort a))
    (hreads : reads r'.events = reads r.events ++ [payload])
    (hshake : r'.handshake = (r.handshake.advance payload).1) :
    Streaming kind view c secret stores r' where
  client := by rw [hclient, h.client]
  exchange := by rw [hshake, hreads, Handshake.after_concat, ← h.exchange]
  watched := by
    rw [hview]
    exact (receive_spec hlook payload _ h.watched).1
  stores := by
    have hfed := (receive_spec hlook payload _ h.watched).2.1 hgo
    rw [hview, hfed, h.stores, hreads, AckMatcher.streamed_concat_of_subscribes hsub,
      List.flatMap_append, List.flatMap_singleton, List.foldl_append]

/-- **A payload consumed keeps to the stream**, unless a watcher gives up on it. One that comes
after the exchange does not end the run. -/
theorem consume_streaming (hears : Hears react listen l view) (hlook : OnlyLooks react kind)
    (halone : c.listeners.entries = [(name, l)]) (h : Streaming kind view c secret stores r)
    (outlet : Outlet) (payload : String) :
    let result := consume listen outlet payload r
    result.1.client.shutdownRequested = r.client.shutdownRequested ∧
      ((∀ a, result.2 ≠ some (.aborted a)) → Streaming kind view c secret stores result.1) ∧
      (∀ a, result.2 = some (.aborted a) → GivesUp react kind a) ∧
      ((∀ a, result.2 ≠ some (.aborted a)) → c.config.closeAfterSubscribe = false →
        c.matcher.Subscribes (reads result.1.events) → result.2 = none) := by
  intro result
  obtain ⟨hreads, hshake⟩ := consume_spec listen outlet payload r
  by_cases hs : r.handshake.state = .subscribed
  · have halone' : r.client.listeners.entries = [(name, l)] := by rw [h.client]; exact halone
    obtain ⟨hclient, haround, hend⟩ := consume_alone hears halone' hs outlet payload
    change result.2 = _ at hend
    -- the run is given up just when the message is
    have hdone : ∀ a, result.2 = some (.aborted a) ↔
        (receive react payload (view r.around)).2.2 = .error (.abort a) := by
      intro a
      rw [← hears.done, hend]
      cases (listen l payload r.around).done <;> simp
    have hview : view result.1.around = (receive react payload (view r.around)).1 := by
      rw [← hears.around, ← haround]
    refine ⟨by rw [hclient], fun hgo => ?_, fun a ha => ?_, fun hgo _ _ => ?_⟩
    · exact h.heard hlook (h.subscribed_iff.1 hs) hclient hview
        (fun a ha => hgo a ((hdone a).2 ha)) hreads hshake
    · exact (receive_spec hlook payload _ h.watched).2.2 a ((hdone a).1 ha)
    · cases hd : (listen l payload r.around).done with
      | ok u => rw [hend, hd]
      | error a => rw [hend, hd] at hgo; exact absurd rfl (hgo a)
  · obtain ⟨hclient, haround, hgo, hnone⟩ := consume_exchange listen outlet payload hs
    have hsub : ¬ c.matcher.Subscribes (reads r.events) := fun h' => hs (h.subscribed_iff.2 h')
    have hnext := h.exchanged hsub hclient haround hreads hshake
    refine ⟨by rw [hclient], fun _ => hnext, fun a ha => absurd ha (hgo a),
      fun _ hclose hnow => hnone (hnext.subscribed_iff.2 hnow) ?_⟩
    rw [h.client]
    exact hclose

theorem streaming_started (c : Client η) (secret : String) {around : τ}
    (h : Watched kind (view around)) :
    Streaming kind view c secret (view around).board.stores
      (started c secret around : Run η τ μ) :=
  ⟨rfl, rfl, h, rfl⟩

/-- A run under way over a script: no payload has been passed over, and without a request for
shutdown no frame has. -/
structure Playing (c : Client η) (script : Script) (frames : List Frame) (r : Run η τ μ) :
    Prop where
  passed : texts script.frames = reads r.events ++ texts frames
  quiet : c.shutdownRequested = false → (∀ wait, .shutdown wait ∉ script.frames) →
    r.client.shutdownRequested = false ∧ script.frames = (reads r.events).map .text ++ frames

theorem playing_started (c : Client η) (secret : String) (script : Script) (around : τ) :
    Playing c script script.frames (started c secret around : Run η τ μ) :=
  ⟨rfl, fun h _ => ⟨h, rfl⟩⟩

theorem Playing.text {script : Script} {rest : List Frame} {r' : Run η τ μ}
    (h : Playing c script (.text payload :: rest) r)
    (hreads : reads r'.events = reads r.events ++ [payload])
    (hshutdown : r'.client.shutdownRequested = r.client.shutdownRequested) :
    Playing c script rest r' := by
  refine ⟨?_, fun hc hs => ?_⟩
  · rw [h.passed, hreads]
    simp [texts, Frame.payload?]
  · obtain ⟨h1, h2⟩ := h.quiet hc hs
    refine ⟨hshutdown.trans h1, ?_⟩
    rw [h2, hreads]
    simp

theorem Playing.shutdown {script : Script} {wait : Bool} {rest : List Frame}
    (h : Playing c script (.shutdown wait :: rest) r) :
    Playing c script rest { r with client := r.client.requestShutdown } := by
  refine ⟨h.passed, fun hc hs => absurd ?_ (hs wait)⟩
  rw [(h.quiet hc hs).2]
  simp

theorem Streaming.requestShutdown (h : Streaming kind view c secret stores r) :
    Streaming kind view c secret stores { r with client := r.client.requestShutdown } := by
  refine ⟨?_, h.exchange, h.watched, h.stores⟩
  change r.client.requestShutdown = _
  rw [h.client]
  rfl

/-- What the loop of a run leaves of a script, and of the stores. -/
theorem loop_streaming (hears : Hears react listen l view) (hlook : OnlyLooks react kind)
    (halone : c.listeners.entries = [(name, l)]) (secret : String) (script : Script) {around : τ}
    (hwatched : Watched kind (view around)) :
    let result := loop listen script.outlet script.holdOpen false script.frames
      (started c secret around)
    ((∀ a, result.2.1 ≠ .aborted a) →
      Streaming kind view c secret (view around).board.stores result.1) ∧
    (∀ a, result.2.1 = .aborted a → GivesUp react kind a) ∧
    texts script.frames = reads result.1.events ++ texts result.2.2 ∧
    ((∀ a, result.2.1 ≠ .aborted a) → c.matcher.Subscribes (reads result.1.events) →
      c.config.closeAfterSubscribe = false → c.shutdownRequested = false →
      (∀ wait, .shutdown wait ∉ script.frames) →
      ∃ rest, script.frames = (reads result.1.events).map .text ++ rest ∧
        ∀ payload more, rest ≠ .text payload :: more) := by
  dsimp only
  obtain ⟨frames, r, ⟨h, hplay⟩, hstops⟩ :=
    loop_stops listen script.outlet script.holdOpen
      (P := fun frames r => Streaming kind view c secret (view around).board.stores r ∧
        Playing c script frames r)
      (fun payload rest r ⟨h, hplay⟩ hnone => by
        obtain ⟨hshutdown, hkeep, -⟩ :=
          consume_streaming hears hlook halone h script.outlet payload
        exact ⟨hkeep (by simp [hnone]),
          hplay.text (consume_spec listen script.outlet payload r).1 hshutdown⟩)
      (fun rest r ⟨h, hplay⟩ => ⟨h.requestShutdown, hplay.shutdown⟩)
      false script.frames (started c secret around)
      ⟨streaming_started c secret hwatched, playing_started c secret script around⟩
  generalize loop listen script.outlet script.holdOpen false script.frames
    (started c secret around) = result at hstops ⊢
  -- the frame at which the loop stops, if any, is no payload unless consuming it ends the run
  cases hstops with
  | requested hreq =>
    refine ⟨fun _ => h, nofun, hplay.passed, fun _ _ _ hc hs => ?_⟩
    rw [(hplay.quiet hc hs).1] at hreq
    cases hreq
  | exhausted haborted =>
    exact ⟨fun _ => h, fun a ha => absurd ha (haborted a), hplay.passed,
      fun _ _ _ hc hs => ⟨[], (hplay.quiet hc hs).2, nofun⟩⟩
  | @broken frame rest _ _ hframe haborted =>
    refine ⟨fun _ => h, fun a ha => absurd ha (haborted a), ?_, fun _ _ _ hc hs => ?_⟩
    · rw [hplay.passed]
      cases frame with
      | text payload => exact absurd rfl (hframe payload)
      | _ => rfl
    · refine ⟨frame :: rest, (hplay.quiet hc hs).2, fun payload more heq => ?_⟩
      exact hframe payload (List.cons.inj heq).1
  | waited =>
    have hnext := hplay.shutdown
    refine ⟨fun _ => h.requestShutdown, nofun, hnext.passed, fun _ _ _ hc hs => ?_⟩
    cases (hnext.quiet hc hs).1
  | @consumed payload rest _ ending hend =>
    obtain ⟨hshutdown, hkeep, hgive, hgo⟩ :=
      consume_streaming hears hlook halone h script.outlet payload
    have hnext := hplay.text (consume_spec listen script.outlet payload r).1 hshutdown
    refine ⟨fun hne => hkeep (by rw [hend]; simpa using hne),
      fun a ha => hgive a (by rw [hend, ← ha]), hnext.passed, fun hne hsub hclose _ _ => ?_⟩
    rw [hgo (by rw [hend]; simpa using hne) hclose hsub] at hend
    cases hend

/-- **From the line to the bars.** A client has a board for its only listener: the board of a
configuration of which no window comes out with length zero, with watchers that only look. When a run is
over, every history is that of a store of its own, fed the ticks of the payloads read after the exchange.
A run is given up only when a watcher gives up, no payload is passed over, and none that comes after the
exchange ends the run. -/
theorem run_bars (hears : Hears react listen l view) (hlook : OnlyLooks react kind)
    {cfg : Config.Aggregation} (hcfg : cfg.Proper) {c₀ : Client η}
    (hempty : c₀.listeners.isEmpty = true) (hattach : c₀.register Listener.boardName l = .ok c)
    (script : Script) (around : τ)
    (hfresh : (view around).board.stores = (ofConfig cfg : Board κ).stores)
    (hwatchers : ∀ e ∈ (view around).board.watchers.entries, kind e.2) :
    let report := c.runOn listen script around
    let ticks := (c.matcher.streamed (reads report.events)).flatMap ticksOf
    ((∀ a, report.ending ≠ .aborted a) → ∀ res ticker,
      (view report.around).board.history res ticker =
        (ticks.foldl Store.feed
          (.fresh ⟨cfg.resolutionsSecs.get res⟩ cfg.historyLen)).history ticker) ∧
    (∀ a, report.ending = .aborted a → GivesUp react kind a) ∧
    texts script.frames = reads report.events ++ texts report.framesLeft ∧
    ((∀ a, report.ending ≠ .aborted a) → c.matcher.Subscribes (reads report.events) →
      c.config.closeAfterSubscribe = false → c.shutdownRequested = false →
      (∀ wait, .shutdown wait ∉ script.frames) →
      ∃ rest, script.frames = (reads report.events).map .text ++ rest ∧
        ∀ payload more, rest ≠ .text payload :: more) := by
  intro report ticks
  have halone := register_alone hempty hattach
  have hwatched : Watched kind (view around) := ⟨hfresh ▸ proper_ofConfig hcfg, hwatchers⟩
  cases hcred : c.requireCredential with
  | error e =>
    -- without a credential nothing is read
    have hreport : report = ⟨c, around, [], .failed e, script.frames⟩ := by
      simp only [report, runOn, hcred]
    have hticks : ticks = [] := by
      simp only [ticks, hreport]
      rfl
    refine ⟨fun _ => history_of_foldl ?_, ?_, ?_, ?_⟩
    · rw [hreport, hticks]
      exact hfresh
    · rw [hreport]
      nofun
    · rw [hreport]
      rfl
    · rw [hreport]
      exact fun _ hsub => hsub.elim
  | ok secret =>
    obtain ⟨haround, hreads, hending, hleft⟩ := runOn_spec hcred listen script around
    obtain ⟨hstream, hgive, hpassed, hgo⟩ :=
      loop_streaming hears hlook halone secret script hwatched
    rw [← hreads, ← hending] at hgo
    rw [← hreads, ← hleft] at hpassed
    rw [← hending] at hstream hgive
    refine ⟨fun hne => history_of_foldl ?_, hgive, hpassed, hgo⟩
    have hstores := (hstream hne).stores
    rwa [← haround, ← hreads, hfresh] at hstores

/-- A stream with an empty batch, a payload that does not decode, a record of another event, one
that does not decode, and a tick that the narrowest window refuses and the others take. -/
theorem run_bars_contained :
    let record (seconds : String) : String :=
      "\x7b\"ev\":\"A\",\"sym\":\"SPCE\",\"v\":1,\"av\":9,\"op\":2,\"vw\":2," ++
        "\"o\":2,\"c\":2,\"h\":2,\"l\":2,\"s\":" ++ seconds ++ "000,\"e\":" ++ seconds ++ "999\x7d"
    let stream : List String := ["[]", "tape",
      "[" ++ record "12" ++ ",\x7b\"ev\":\"AM\"\x7d,\x7b\"ev\":\"A\"\x7d]",
      "[" ++ record "10" ++ "]"]
    let payloads := "Connected Successfully" :: "authenticated" :: "subscribed to: A.*" :: stream
    let script : Script := { frames := payloads.map .text ++
      [.failure (.line (.reported "reset")), .text "[]"] }
    let c : Client Listener := {
      config := {}
      credential := some "key"
      listeners := ⟨[(Listener.boardName, .board)], by simp⟩ }
    let board : Board Watcher := { (ofConfig {} : Board Watcher) with
      watchers := ⟨[("reader", .reader), ("installer", .installer "late")], by simp⟩ }
    let report := c.runOn Listener.listen script board
    reads report.events = payloads ∧ (stream.flatMap ticksOf).map (·.start) = [12000, 10000] ∧
      ∀ res ticker, report.around.history res ticker = ((stream.flatMap ticksOf).foldl Store.feed
        (.fresh ⟨(⟨1, 10, 60, 300⟩ : PerResolution ℤ).get res⟩ 30)).history ticker := by
  intro record stream payloads script c board report
  have hreads : reads report.events = payloads := by decide +kernel
  have hstarts : (stream.flatMap ticksOf).map (·.start) = [12000, 10000] := by decide +kernel
  have hstream : c.matcher.streamed payloads = stream := by decide +kernel
  have hempty : ({ config := {}, credential := some "key" } : Client Listener).listeners.isEmpty :=
    rfl
  have hattach : Listener.attach { config := {}, credential := some "key" } = .ok c := rfl
  obtain ⟨hbars, hgive, -⟩ := run_bars Listener.listen_hears Watcher.onlyLooks
    (show Config.Aggregation.Proper {} by decide) hempty hattach script board rfl
    (by decide)
  have hhistory := hbars fun a ha => Watcher.not_givesUp _ a (hgive a ha)
  rw [hreads, hstream] at hhistory
  refine ⟨hreads, hstarts, fun res ticker => ?_⟩
  have hfresh : Store.fresh ⟨(⟨1, 10, 60, 300⟩ : PerResolution ℤ).get res⟩ 30 =
    Store.fresh ⟨({} : Config.Aggregation).resolutionsSecs.get res⟩ 30 := rfl
  rw [hfresh, ← hhistory res ticker]

end Client

end Feed

end TapeReader

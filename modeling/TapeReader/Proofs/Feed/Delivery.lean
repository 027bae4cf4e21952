import TapeReader.Proofs.Feed.Audience

/-!
# Delivery of the stream

* `Client.Delivered`: the listeners have been called with every payload streamed so far, and with
  nothing else.
* `Client.Delivered.consume`: a payload consumed keeps it.
* `Client.run_ne_aborted`: a run ends by nothing that no listener gives up for.
* `Client.CalledAfter`: what has happened when a listener is called.
* `Client.runOn_deliveries`: **in a run every payload after the subscription is given to every
  listener once, in order, and nothing else is.**
-/

namespace TapeReader.Feed

variable {η σ ν : Type}

/-- The listeners of a client that have not been called yet. -/
def Audience.of (c : Client η) (around : σ) : Audience η σ ν where
  listeners := c.listeners.entries
  around

/-- Whether a listener has given up, by how a run goes on or ends. -/
def Ending.done : Option Ending → Except Abort Unit
  | some (.aborted a) => .error a
  | _ => .ok ()

theorem Ending.done_eq_ok {ending : Ending} (h : ∀ a, ending ≠ .aborted a) :
    Ending.done (some ending) = .ok () := by
  cases ending with
  | aborted a => exact absurd rfl (h a)
  | _ => rfl

theorem Ending.done_eq_error_iff {ending : Ending} {a : Abort} :
    Ending.done (some ending) = .error a ↔ ending = .aborted a := by
  cases ending <;> simp [Ending.done]

namespace Client

variable {listen : Listening η σ ν} {payload secret : String} {script : Script} {c : Client η}
  {around : σ} {done : Except Abort Unit} {r : Run η σ ν} {s : Stage η σ ν}

/-- The listeners have been called with every payload streamed so far, and with nothing else; where
one has given up, the last payload has got no further than to it. -/
structure Delivered (listen : Listening η σ ν) (c : Client η) (around : σ)
    (done : Except Abort Unit) (r : Run η σ ν) : Prop where
  all : done = .ok () →
    callsIn r.events = callsFor c.listeners.names (c.matcher.streamed (reads r.events))
  some : ∀ a, done = .error a → ∃ earlier last told,
    c.matcher.streamed (reads r.events) = earlier ++ [last] ∧ told <+: c.listeners.names ∧
      told ≠ [] ∧ callsIn r.events = callsFor c.listeners.names earlier ++ told.map (⟨·, last⟩)
  heard : ((Audience.of c around).hearAll listen (callsIn r.events)).Matches
    r.client.listeners.entries (standing done r)

theorem delivered_started (listen : Listening η σ ν) (c : Client η) (secret : String) (around : σ) :
    Delivered listen c around (.ok ()) (started c secret around) :=
  ⟨fun _ => rfl, nofun, ⟨rfl, rfl, rfl, nofun, rfl⟩⟩

theorem Delivered.requested (h : Delivered listen c around (.ok ()) r) :
    Delivered listen c around (.ok ()) { r with client := r.client.requestShutdown } :=
  ⟨h.all, h.some, ⟨h.heard.listeners, h.heard.around, h.heard.heard, fun _ => rfl, h.heard.done⟩⟩

/-- The listeners stay the same ones, in the same order. -/
theorem Delivered.names (h : Delivered listen c around done r) :
    r.client.listeners.names = c.listeners.names := by
  have hnames := Audience.hearAll_names listen (Audience.of c around) (callsIn r.events)
  rw [h.heard.listeners] at hnames
  exact hnames

/-- No listener has been called before a fourth payload is read. -/
theorem Delivered.calls_eq_nil (h : Delivered listen c around done r)
    (hfew : (reads r.events).length ≤ 3) : callsIn r.events = [] := by
  have hnone : c.matcher.streamed (reads r.events) = [] := by
    unfold AckMatcher.streamed
    split
    · exact List.drop_eq_nil_of_le hfew
    · rfl
  cases done with
  | ok u =>
    rw [h.all rfl, hnone]
    rfl
  | error a =>
    obtain ⟨earlier, last, told, hstream, -⟩ := h.some a rfl
    simp [hnone] at hstream

/-- A payload of the exchange is not delivered. -/
theorem Delivered.exchange (h : Delivered listen c around (.ok ()) r)
    (hs : Sound c.matcher secret r) (hdue : (reads r.events).length < 3) {r' : Run η σ ν}
    {more : List (Event ν)}
    (hevents : r'.events = r.events ++ more) (hnone : ∀ e ∈ more, e.call? = none)
    (hreads : reads r'.events = reads r.events ++ [payload])
    (hlisteners : r'.client.listeners = r.client.listeners) (haround : r'.around = r.around)
    (hshutdown : r'.client.shutdownRequested = r.client.shutdownRequested) :
    Delivered listen c around (.ok ()) r' := by
  have hsub : ¬ c.matcher.Subscribes (reads r.events) := by
    rw [hs.accepted.subscribes_iff]
    omega
  have hold : c.matcher.streamed (reads r.events) = [] := if_neg hsub
  have hnew := AckMatcher.streamed_concat_of_not_subscribes hsub payload
  have hcalls : callsIn r'.events = callsIn r.events := by
    rw [hevents, callsIn_append, show callsIn more = [] from List.filterMap_eq_nil_iff.2 hnone,
      List.append_nil]
  have hdeliveries : deliveries r'.events = deliveries r.events := by
    have hmore : deliveries more = [] := List.filter_eq_nil_iff.2 fun e he => by simp [hnone e he]
    rw [hevents, deliveries_append, hmore, List.append_nil]
  refine ⟨fun _ => ?_, nofun, ?_⟩
  · rw [hcalls, h.all rfl, hold, hreads, hnew]
  · obtain ⟨h1, h2, h3, h4, h5⟩ := h.heard
    rw [hcalls]
    exact ⟨by rw [hlisteners, h1], h2.trans haround.symm, h3.trans hdeliveries.symm,
      fun hasked => hshutdown.trans (h4 hasked), h5⟩

/-- A payload after the subscription is delivered. -/
theorem Delivered.dispatch (h : Delivered listen c around (.ok ()) r)
    (hs : Sound c.matcher secret r) (hstreamed : 3 ≤ (reads r.events).length) {r' : Run η σ ν}
    (hdispatch : Client.dispatch listen payload (taken r payload) = (r', done)) :
    Delivered listen c around done r' := by
  have hsub : c.matcher.Subscribes (reads r.events) := hs.accepted.subscribes_iff.2 hstreamed
  have hreads : reads r'.events = reads r.events ++ [payload] := by
    have hread := dispatch_reads listen payload (taken r payload)
    rw [hdispatch, taken_reads] at hread
    exact hread
  have hstream : c.matcher.streamed (reads r'.events) =
      c.matcher.streamed (reads r.events) ++ [payload] := by
    rw [hreads, AckMatcher.streamed_concat_of_subscribes hsub]
  have htaken : callsIn (taken r payload).events = callsIn r.events :=
    (callsIn_append _ _).trans (List.append_nil _)
  have hmatches : ((Audience.of c around).hearAll listen (callsIn r.events)).Matches
      (taken r payload).client.listeners.entries (standing (.ok ()) (taken r payload)) := by
    obtain ⟨h1, h2, h3, h4, h5⟩ := h.heard
    exact ⟨h1, h2, h3.trans (by simp [standing, taken, note, deliveries, Event.call?]), h4, h5⟩
  obtain ⟨told, hprefix, hcalls, hheard, hall, hsome⟩ := dispatch_hears hmatches payload
  have hnames : (taken r payload).client.listeners.names = c.listeners.names := h.names
  rw [hnames] at hprefix hall
  rw [hdispatch] at hcalls hheard hall hsome
  rw [htaken] at hcalls
  refine ⟨fun hok => ?_, fun a ha => ?_, ?_⟩
  · rw [hcalls, hall hok, h.all rfl, hstream, callsFor_concat]
  · exact ⟨_, payload, told, hstream, hprefix, hsome a ha, by rw [hcalls, h.all rfl]⟩
  · rw [hcalls, Audience.hearAll_append]
    exact hheard

/-- **A payload consumed is delivered** to every listener when it comes after the subscription, and
to none when it does not. -/
theorem Delivered.consume (h : Delivered listen c around (.ok ()) r) (hs : Sound c.matcher secret r)
    (outlet : Outlet) (payload : String) :
    let consumed := Client.consume listen outlet payload r
    Delivered listen c around (Ending.done consumed.2) consumed.1 := by
  intro consumed
  have hconsumed := hs.toKept.consumed listen outlet payload
  change Consumed _ _ _ _ _ consumed at hconsumed
  generalize consumed = result at hconsumed ⊢
  have hread : reads (taken r payload).events = reads r.events ++ [payload] := taken_reads r payload
  cases hconsumed with
  | rejected haccepts =>
    have hdue : (reads r.events).length < 3 := by
      by_contra hlate
      rw [accepts_of_streamed (by omega)] at haccepts
      simp at haccepts
    exact h.exchange hs hdue rfl (by simp [Event.call?]) hread rfl rfl rfl
  | @replied message haccepts hreply =>
    have hdue := length_of_reply hreply
    have hevents : (follow (note (taken r payload) (.sent message))).events =
        r.events ++ [.read payload, .sent message] := by simp [follow, note, taken]
    exact h.exchange hs (by omega) hevents (by simp [Event.call?])
      ((reads_concat _ _).trans ((List.append_nil _).trans hread)) rfl rfl rfl
  | @refused message error haccepts hreply =>
    have hdue := length_of_reply hreply
    have hevents : (note (taken r payload) (.unsent message)).events =
        r.events ++ [.read payload, .unsent message] := by simp [note, taken]
    exact h.exchange hs (by omega) hevents (by simp [Event.call?])
      ((reads_concat _ _).trans ((List.append_nil _).trans hread)) rfl rfl rfl
  | subscribed haccepts hthird =>
    have hok : Ending.done (if r.client.config.closeAfterSubscribe = true then
        Option.some Ending.finished else none) = .ok () := by
      split <;> rfl
    rw [hok]
    exact h.exchange hs (by omega) rfl (by simp [Event.call?]) hread rfl rfl rfl
  | streamed hstreamed hdispatch =>
    obtain ⟨hall, hsome, hheard⟩ := h.dispatch hs hstreamed hdispatch
    exact ⟨hall, hsome, hheard⟩
  | givenUp hstreamed hdispatch => exact h.dispatch hs hstreamed hdispatch

/-- **When the loop is over** the listeners have been called with every payload streamed. -/
theorem Stage.result_delivered (hs : Sound c.matcher secret s.run)
    (h : Delivered listen c around (.ok ()) s.run) (script : Script) :
    let result := s.result listen script
    Delivered listen c around (Ending.done (some result.2.1)) result.1 := by
  intro result
  obtain ⟨frames, r, ⟨hs, h⟩, hstops⟩ :=
    loop_stops listen script.outlet script.holdOpen
      (P := fun _ r => Sound c.matcher secret r ∧ Delivered listen c around (.ok ()) r)
      (fun payload _ r ⟨hs, h⟩ hgo => by
        have hnext := h.consume hs script.outlet payload
        dsimp only at hnext
        rw [hgo] at hnext
        exact ⟨hs.consume hgo, hnext⟩)
      (fun _ r ⟨hs, h⟩ => ⟨hs.requested, h.requested⟩)
      s.reading s.frames s.run ⟨hs, h⟩
  change Stops _ _ _ _ _ result at hstops
  generalize result = result at hstops ⊢
  cases hstops with
  | requested => exact h
  | exhausted haborted =>
    rw [Ending.done_eq_ok haborted]
    exact h
  | broken _ haborted =>
    rw [Ending.done_eq_ok haborted]
    exact h
  | waited => exact h.requested
  | @consumed payload rest r ending hend =>
    have hlast := h.consume hs script.outlet payload
    dsimp only at hlast
    rw [hend] at hlast
    exact hlast

/-- A run over a line that is given up is given up by the listener called last. -/
theorem runOn_aborted {abort : Abort} (h : (c.runOn listen script around).ending = .aborted abort) :
    ∃ calls, ((Audience.of c around).hearAll listen calls).done = .error abort := by
  cases hcred : c.requireCredential with
  | error e =>
    rw [runOn_of_no_credential hcred] at h
    cases h
  | ok secret =>
    obtain ⟨-, -, hending, -⟩ := runOn_closes hcred listen script around
    have hstart : Sound c.matcher secret (opening c secret script around : Stage η σ ν).run :=
      sound_started c secret around
    have hdelivered := Stage.result_delivered hstart (delivered_started listen c secret around) script
    rw [hending] at h
    exact ⟨_, hdelivered.heard.done.trans (Ending.done_eq_error_iff.2 h)⟩

/-- **A run ends by nothing that no listener gives up for.** -/
theorem run_ne_aborted {abort : Abort} {P : σ → Prop}
    (hlisten : ∀ l payload s, P s →
      P (listen l payload s).around ∧ (listen l payload s).done ≠ .error abort)
    (haround : P around) (dial : Config.Feed → Except LineFault Script) :
    (c.run listen dial around).ending ≠ .aborted abort := by
  unfold run
  -- only a run that has a line calls a listener
  split
  · nofun
  · split
    · nofun
    · split
      · nofun
      · rename_i script _
        intro h
        obtain ⟨calls, hcalls⟩ := runOn_aborted h
        obtain ⟨-, hdone⟩ := Audience.hearAll_keeps (a := Audience.of c around)
          (Q := (· ≠ .error abort)) hlisten calls haround nofun
        exact hdone hcalls

/-! ## Where calls stand -/

/-- What has happened when a listener is called: at least four payloads have been read, the first
three acknowledge, the last one is what the listener is called with, and the line is open. -/
def CalledAfter (m : AckMatcher) (before : List (Event ν)) (e : Event ν) : Prop :=
  ∀ call, e.call? = some call → m.Subscribes (reads before) ∧ 3 < (reads before).length ∧
    (reads before).getLast? = some call.payload ∧ ∀ x ∈ before, x.isClosed = false

variable {m : AckMatcher}

theorem calledAfter_of_none {before : List (Event ν)} {e : Event ν} (h : e.call? = none) :
    CalledAfter m before e := by
  intro call hcall
  rw [h] at hcall
  simp at hcall

/-- A payload dispatched is called out after it has been read. -/
theorem dispatch_calledAfter (hs : Sound m secret r) (h : Stands (CalledAfter m) r.events)
    (hstreamed : 3 ≤ (reads r.events).length) (listen : Listening η σ ν) (payload : String) :
    Stands (CalledAfter m) (Client.dispatch listen payload (taken r payload)).1.events := by
  obtain ⟨calls, hevents, hcalls⟩ := dispatch_events listen payload (taken r payload)
  have htook := hs.toKept.took (accepts_of_streamed hstreamed payload)
  have htaken : Stands (CalledAfter m) (taken r payload).events :=
    h.concat (calledAfter_of_none rfl)
  rw [hevents]
  refine htaken.append fun between e after hsplit => ?_
  have hbetween : ∀ x ∈ between, ∃ name note, x = .delivered name payload note :=
    fun x hx => hcalls x (by simp [hsplit, hx])
  have hreads : reads ((taken r payload).events ++ between) = reads r.events ++ [payload] := by
    rw [reads_append, reads_calls hbetween, taken_reads, List.append_nil]
  obtain ⟨name, note, rfl⟩ := hcalls e (by simp [hsplit])
  intro call hcall
  obtain rfl : (⟨name, payload⟩ : Call) = call := Option.some.inj hcall
  refine ⟨?_, ?_, ?_, fun x hx => ?_⟩
  · rw [hreads, ← taken_reads]
    exact htook.accepted.subscribes_iff.2 (by rw [taken_reads, List.length_append]; omega)
  · rw [hreads, List.length_append, List.length_singleton]
    omega
  · rw [hreads, List.getLast?_concat]
  · rcases List.mem_append.1 hx with hx | hx
    · exact htook.notClosed x hx
    · obtain ⟨name, note, rfl⟩ := hbetween x hx
      rfl

theorem consume_calledAfter (hs : Sound m secret r) (h : Stands (CalledAfter m) r.events)
    (listen : Listening η σ ν) (outlet : Outlet) (payload : String) :
    Stands (CalledAfter m) (Client.consume listen outlet payload r).1.events := by
  have hconsumed := hs.toKept.consumed listen outlet payload
  have htaken : Stands (CalledAfter m) (taken r payload).events :=
    h.concat (calledAfter_of_none rfl)
  generalize Client.consume listen outlet payload r = result at hconsumed ⊢
  cases hconsumed with
  | rejected | subscribed => exact htaken
  | replied | refused => exact htaken.concat (calledAfter_of_none rfl)
  | streamed hstreamed hdispatch | givenUp hstreamed hdispatch =>
    have hcalled := dispatch_calledAfter hs h hstreamed listen payload
    rw [hdispatch] at hcalled
    exact hcalled

/-! ## Frames and payloads -/

/-- A payload consumed may change the listeners of a client, its state, and whether shutdown has
been requested. -/
theorem consume_client (hs : Sound m secret r) (listen : Listening η σ ν) (outlet : Outlet)
    (payload : String) :
    let consumed := (Client.consume listen outlet payload r).1.client
    consumed = { r.client with
      listeners := consumed.listeners
      state := consumed.state
      shutdownRequested := consumed.shutdownRequested } := by
  have hconsumed := hs.toKept.consumed listen outlet payload
  generalize Client.consume listen outlet payload r = result at hconsumed ⊢
  cases hconsumed with
  | rejected | subscribed | replied | refused => rfl
  | streamed _ hdispatch | givenUp _ hdispatch =>
    have hclient : (Client.dispatch listen payload (taken r payload)).1.client = { r.client with
        listeners := (Client.dispatch listen payload (taken r payload)).1.client.listeners
        shutdownRequested :=
          (Client.dispatch listen payload (taken r payload)).1.client.shutdownRequested } := rfl
    rw [hdispatch] at hclient
    simp only [follow]
    rw [hclient]

/-- A client that only subscribes goes on after two payloads at most. -/
theorem consume_of_closeAfterSubscribe (hs : Sound m secret r)
    (hclose : r.client.config.closeAfterSubscribe = true) (hfew : (reads r.events).length ≤ 2)
    (listen : Listening η σ ν) (outlet : Outlet) (payload : String)
    (hgo : (Client.consume listen outlet payload r).2 = none) : (reads r.events).length < 2 := by
  have hconsumed := hs.toKept.consumed listen outlet payload
  generalize Client.consume listen outlet payload r = result at hconsumed hgo
  cases hconsumed with
  | replied haccepts hreply => exact length_of_reply hreply
  | subscribed => simp [hclose] at hgo
  | streamed hstreamed => omega
  | rejected | refused | givenUp => simp at hgo

/-- **A client that only subscribes reads three payloads at most.** -/
theorem Stage.result_of_closeAfterSubscribe (hs : Sound m secret s.run)
    (hclose : s.run.client.config.closeAfterSubscribe = true)
    (hfew : (reads s.run.events).length ≤ 2) (listen : Listening η σ ν) (script : Script) :
    (reads (s.result listen script).1.events).length ≤ 3 := by
  obtain ⟨frames, r, ⟨hs, hclose, hfew⟩, hstops⟩ :=
    loop_stops listen script.outlet script.holdOpen
      (P := fun _ r => Sound m secret r ∧ r.client.config.closeAfterSubscribe = true ∧
        (reads r.events).length ≤ 2)
      (fun payload _ r ⟨hs, hclose, hfew⟩ hgo => by
        have hless := consume_of_closeAfterSubscribe hs hclose hfew listen _ payload hgo
        refine ⟨hs.consume hgo, ?_, ?_⟩
        · rw [consume_client hs]
          exact hclose
        · rw [(consume_spec listen _ payload r).1, List.length_append, List.length_singleton]
          omega)
      (fun _ r ⟨hs, hclose, hfew⟩ => ⟨hs.requested, hclose, hfew⟩)
      s.reading s.frames s.run ⟨hs, hclose, hfew⟩
  change Stops _ _ _ _ _ (s.result listen script) at hstops
  generalize s.result listen script = result at hstops ⊢
  cases hstops with
  | requested | exhausted | broken | waited => exact hfew.trans (by omega)
  | @consumed payload =>
    rw [(consume_spec listen script.outlet payload r).1, List.length_append,
      List.length_singleton]
    omega

/-- No payload of the line is passed over. -/
theorem Stage.result_passed (s : Stage η σ ν) (listen : Listening η σ ν) (script : Script) :
    reads s.run.events ++ texts s.frames =
      reads (s.result listen script).1.events ++ texts (s.result listen script).2.2 := by
  obtain ⟨frames, r, hpassed, hstops⟩ :=
    loop_stops listen script.outlet script.holdOpen
      (P := fun frames r => reads s.run.events ++ texts s.frames = reads r.events ++ texts frames)
      (fun payload rest r h _ => by
        rw [h, (consume_spec listen _ payload r).1, List.append_assoc]
        rfl)
      (fun _ _ h => h) s.reading s.frames s.run rfl
  change Stops _ _ _ _ _ (s.result listen script) at hstops
  generalize s.result listen script = result at hstops ⊢
  cases hstops with
  | requested | exhausted | waited => exact hpassed
  | @broken frame rest _ _ hframe =>
    rw [hpassed]
    cases frame with
    | text payload => exact absurd rfl (hframe payload)
    | _ => rfl
  | @consumed payload rest =>
    rw [hpassed, (consume_spec listen script.outlet payload r).1, List.append_assoc]
    rfl

/-- The closing of the line reads nothing, calls no listener, and stands anywhere. -/
theorem of_closing {events log closing : List (Event ν)} (hevents : events = log ++ closing)
    (hclosing : closing = [] ∨ ∃ error, closing = [.closed error]) :
    reads events = reads log ∧ callsIn events = callsIn log ∧ deliveries events = deliveries log ∧
      (Stands (CalledAfter m) log → Stands (CalledAfter m) events) := by
  subst hevents
  rcases hclosing with rfl | ⟨_, rfl⟩
  · rw [List.append_nil]
    exact ⟨rfl, rfl, rfl, id⟩
  · refine ⟨?_, ?_, ?_, fun h => h.concat (calledAfter_of_none rfl)⟩
    · exact (reads_append _ _).trans (List.append_nil _)
    · exact (callsIn_append _ _).trans (List.append_nil _)
    · exact (deliveries_append _ _).trans (List.append_nil _)

/-- **Delivery of the stream.** The payloads read in a run are those of the line, in order and
without a gap. Every listener is called with every payload after the subscription, payload by
payload and in the order of the roster, and with nothing else; only where one gives up, the last
payload gets no further than to it. The calls are made on what the calls before have left. Where a
listener is called, the payload is the last one read, after three others at least, and the line is
open. A client that only subscribes calls no listener. -/
theorem runOn_deliveries (c : Client η) (listen : Listening η σ ν) (script : Script) (around : σ) :
    let report := c.runOn listen script around
    let names := c.listeners.names
    let streamed := c.matcher.streamed (reads report.events)
    let calls := callsIn report.events
    let audience := (Audience.of c around).hearAll listen calls
    texts script.frames = reads report.events ++ texts report.framesLeft ∧
    ((∀ a, report.ending ≠ .aborted a) → calls = callsFor names streamed) ∧
    (∀ a, report.ending = .aborted a → ∃ earlier last told, streamed = earlier ++ [last] ∧
      told <+: names ∧ told ≠ [] ∧ calls = callsFor names earlier ++ told.map (⟨·, last⟩)) ∧
    (deliveries report.events = audience.heard ∧
      report.client.listeners.entries = audience.listeners ∧ report.around = audience.around ∧
      ∀ a, report.ending = .aborted a ↔ audience.done = .error a) ∧
    (∀ before e after call, report.events = before ++ e :: after → e.call? = some call →
      3 < (reads before).length ∧ (reads before).getLast? = some call.payload ∧
        ∀ x ∈ before, x.isClosed = false) ∧
    (c.config.closeAfterSubscribe = true → calls = []) := by
  intro report names streamed calls audience
  cases hcred : c.requireCredential with
  | error e =>
    have hreport : report = ⟨c, around, [], .failed e, script.frames⟩ :=
      runOn_of_no_credential hcred listen script around
    simp only [audience, calls, streamed, hreport]
    refine ⟨rfl, fun _ => rfl, nofun, ⟨rfl, rfl, rfl, ?_⟩, by simp, fun _ => rfl⟩
    simp [Audience.of, Audience.hearAll, callsIn]
  | ok secret =>
    have hstart : Sound c.matcher secret (opening c secret script around : Stage η σ ν).run :=
      sound_started c secret around
    obtain ⟨hclient, haround, hending, hleft, closing, hevents, hclosing⟩ :=
      runOn_closes hcred listen script around
    have hdelivered := Stage.result_delivered hstart
      (delivered_started listen c secret around) script
    have hstands : Stands (CalledAfter c.matcher)
        ((opening c secret script around).result listen script).1.events :=
      Stage.result_keeps hstart stands_nil
        (fun r payload hs h => consume_calledAfter hs h listen script.outlet payload)
        (fun _ h => h)
    have hpassed := Stage.result_passed (opening c secret script around) listen script
    have hnone : c.config.closeAfterSubscribe = true → _ := fun hclose => hdelivered.calls_eq_nil
      (Stage.result_of_closeAfterSubscribe hstart hclose (Nat.zero_le 2) listen script)
    dsimp only at hdelivered
    generalize (opening c secret script around).result listen script = result at *
    obtain ⟨hreads, hcalls, hdeliveries, hstand⟩ :=
      of_closing (m := c.matcher) hevents hclosing
    have hstands := hstand hstands
    rw [← hreads] at hpassed
    rw [← hending] at hdelivered
    obtain ⟨hall, hsome, hheard⟩ := hdelivered
    rw [← hreads, ← hcalls] at hall hsome
    rw [← hcalls] at hheard
    have hplace : ∀ before e after call, report.events = before ++ e :: after →
        e.call? = some call → _ := fun before e after call hsplit he =>
      (hstands before e after hsplit call he).2
    refine ⟨hleft ▸ hpassed, fun hne => hall (Ending.done_eq_ok hne),
      fun a ha => hsome a (Ending.done_eq_error_iff.2 ha), ⟨?_, ?_, ?_, fun a => ?_⟩, hplace,
      fun hclose => hcalls.trans (hnone hclose)⟩
    · exact hdeliveries.trans hheard.heard.symm
    · rw [hclient]
      exact hheard.listeners.symm
    · exact haround.trans hheard.around.symm
    · rw [hheard.done]
      exact Ending.done_eq_error_iff.symm

end Client

end TapeReader.Feed

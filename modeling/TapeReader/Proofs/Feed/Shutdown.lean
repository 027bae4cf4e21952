import TapeReader.Feed.Listener
import TapeReader.Proofs.Feed.Delivery

/-!
# Shutdown

* `Operation`, `Client.after`: what may be done with a client, and the client after that.
* `Client.runOn_of_requested`: a run after a request for shutdown.
* `Client.after_requested`: **a request stays**, whatever is done with the client.
* `Client.Asked`: a listener asked for shutdown, at the last payload read.
* `Client.Heeding`: a run under way goes no further than to such a payload.
* `Client.shutdown_wins`: **a request ends every later run at once, and the run it is made in at the
  payload it is made at.**
-/

namespace TapeReader.Feed

variable {η σ ν : Type}

/-- What may be done with a client. A board is attached by registering it. -/
inductive Operation (η σ : Type) where
  | setCredential (secret : String)
  | register (name : String) (listener : η)
  | unregister (name : String)
  | requestShutdown
  /-- A run over a line, with the world as it is then. -/
  | runOn (script : Script) (around : σ)

namespace Client

variable {listen : Listening η σ ν} {payload secret : String} {script : Script} {c : Client η}
  {m : AckMatcher} {around : σ} {r : Run η σ ν} {s s' : Stage η σ ν} {op : Operation η σ}
  {operations : List (Operation η σ)}

/-- The client after an operation. Where a name is refused it stays as it is. -/
def perform (listen : Listening η σ ν) (c : Client η) : Operation η σ → Client η
  | .setCredential secret => c.setCredential secret
  | .register name listener => (c.register name listener).toOption.getD c
  | .unregister name => (c.unregister name).toOption.getD c
  | .requestShutdown => c.requestShutdown
  | .runOn script around => (c.runOn listen script around).client

/-- The client after operations, in turn. -/
def after (listen : Listening η σ ν) (c : Client η) (operations : List (Operation η σ)) :
    Client η :=
  operations.foldl (perform listen) c

theorem after_append (listen : Listening η σ ν) (c : Client η)
    (operations more : List (Operation η σ)) :
    c.after listen (operations ++ more) = (c.after listen operations).after listen more :=
  List.foldl_append

/-! ## A request stays -/

/-- A request is seen before the next reading of the line. -/
theorem Stage.result_of_requested (hreading : s.reading = false)
    (hrequested : s.run.client.shutdownRequested = true) (listen : Listening η σ ν)
    (script : Script) : s.result listen script = (s.run, .finished, s.frames) := by
  obtain ⟨reading, frames, r⟩ := s
  unfold Stage.result
  rw [loop.eq_def]
  dsimp only at hreading hrequested ⊢
  rw [if_pos ⟨by simp [hreading], hrequested⟩]

/-- **A run after a request for shutdown** closes the line, and does nothing else. -/
theorem runOn_of_requested (h : c.requireCredential = .ok secret)
    (hrequested : c.shutdownRequested = true) (listen : Listening η σ ν) (script : Script)
    (around : σ) :
    c.runOn listen script around =
      ⟨{ c with state := .init }, around, [.closed script.closeError], .finished, script.frames⟩ := by
  have hresult := Stage.result_of_requested (s := (opening c secret script around : Stage η σ ν))
    rfl hrequested listen script
  unfold Stage.result opening started at hresult
  unfold runOn
  rw [h]
  dsimp only at hresult ⊢
  rw [hresult]
  rfl

/-- A run keeps the credential. -/
theorem runOn_credential (c : Client η) (listen : Listening η σ ν) (script : Script) (around : σ) :
    (c.runOn listen script around).client.credential = c.credential := by
  cases hcred : c.requireCredential with
  | error e => rw [runOn_of_no_credential hcred]
  | ok secret =>
    have hstart : Sound c.matcher secret (opening c secret script around : Stage η σ ν).run :=
      sound_started c secret around
    rw [(runOn_closes hcred listen script around).1]
    exact Stage.result_keeps (Q := fun r => r.client.credential = c.credential) hstart rfl
      (fun r payload hs h => by
        rw [consume_client hs]
        exact h)
      (fun _ h => h)

/-- What an operation does to a credential, and to a request for shutdown. -/
theorem perform_spec (listen : Listening η σ ν) (c : Client η) (op : Operation η σ) :
    let c' := c.perform listen op
    (c'.credential = c.credential ∨ ∃ key, op = .setCredential key ∧ c'.credential = some key) ∧
      (c.shutdownRequested = true → c'.shutdownRequested = true) := by
  cases op with
  | setCredential key => exact ⟨Or.inr ⟨key, rfl, rfl⟩, id⟩
  | requestShutdown => exact ⟨Or.inl rfl, fun _ => rfl⟩
  | register name listener =>
    simp only [perform, register]
    cases c.listeners.register name listener with
    | error fault => exact ⟨Or.inl rfl, id⟩
    | ok listeners => exact ⟨Or.inl rfl, id⟩
  | unregister name =>
    simp only [perform, unregister]
    cases c.listeners.unregister name with
    | error fault => exact ⟨Or.inl rfl, id⟩
    | ok left => exact ⟨Or.inl rfl, id⟩
  | runOn script around =>
    refine ⟨Or.inl (runOn_credential c listen script around), fun hrequested => ?_⟩
    dsimp only [perform]
    cases hcred : c.requireCredential with
    | error e =>
      rw [runOn_of_no_credential hcred]
      exact hrequested
    | ok secret =>
      rw [runOn_of_requested hcred hrequested]
      exact hrequested

/-- **A request stays**, whatever is done with the client. -/
theorem after_requested (h : c.shutdownRequested = true) (operations : List (Operation η σ)) :
    (c.after listen operations).shutdownRequested = true := by
  induction operations generalizing c with
  | nil => exact h
  | cons op rest ih => exact ih ((perform_spec listen c op).2 h)

theorem after_of_requestShutdown (h : .requestShutdown ∈ operations) (c : Client η) :
    (c.after listen operations).shutdownRequested = true := by
  obtain ⟨earlier, later, rfl⟩ := List.append_of_mem h
  rw [after_append]
  exact after_requested (c := (c.after listen earlier).requestShutdown) rfl later

/-- A client keeps having a credential, if the credentials set are not empty. -/
theorem after_requireCredential (h : ∃ key, c.credential = some key ∧ key ≠ "")
    (listen : Listening η σ ν) (hkeys : ∀ key, .setCredential key ∈ operations → key ≠ "") :
    ∃ key, (c.after listen operations).requireCredential = .ok key := by
  induction operations generalizing c with
  | nil =>
    obtain ⟨key, hkey, hne⟩ := h
    exact ⟨key, requireCredential_ok hkey hne⟩
  | cons op rest ih =>
    refine ih ?_ fun key hkey => hkeys key (List.mem_cons_of_mem _ hkey)
    rcases (perform_spec listen c op).1 with hsame | ⟨key, rfl, hset⟩
    · rw [hsame]
      exact h
    · exact ⟨key, hset, hkeys key List.mem_cons_self⟩

/-! ## A request of a listener -/

/-- A listener has asked for shutdown, when it was called with the last payload read: the frames up
to this payload have been played, and no listener had asked before. -/
def Asked (listen : Listening η σ ν) (c : Client η) (around : σ) (script : Script)
    (payloads : List String) (left : List Frame) : Prop :=
  ∃ played payload, script.frames = played ++ .text payload :: left ∧
    payloads = texts played ++ [payload] ∧ c.matcher.Subscribes (texts played) ∧
    ((Audience.of c around : Audience η σ ν).hearAll listen
      (callsFor c.listeners.names (c.matcher.streamed (texts played)))).shutdown = false

/-- A run under way that goes no further than to a request of a listener. -/
structure Heeding (listen : Listening η σ ν) (c : Client η) (secret : String) (around : σ)
    (script : Script) (s : Stage η σ ν) : Prop where
  sound : Sound c.matcher secret s.run
  delivered : Delivered listen c around (.ok ()) s.run
  played : ∃ played, script.frames = played ++ s.frames ∧ reads s.run.events = texts played
  asked : ((Audience.of c around).hearAll listen (callsIn s.run.events)).shutdown = true →
    s.reading = false ∧ Asked listen c around script (reads s.run.events) s.frames

theorem heeding_opening (listen : Listening η σ ν) (c : Client η) (secret : String) (around : σ)
    (script : Script) :
    Heeding listen c secret around script (opening c secret script around) where
  sound := sound_started c secret around
  delivered := delivered_started listen c secret around
  played := ⟨[], rfl, rfl⟩
  asked := nofun

/-- Where a run goes on, no listener has asked for shutdown. -/
theorem Heeding.unasked (h : Heeding listen c secret around script s)
    (hgoes : ¬ s.ShutDown script) :
    ((Audience.of c around).hearAll listen (callsIn s.run.events)).shutdown = false := by
  by_contra hasked
  rw [Bool.not_eq_false] at hasked
  exact hgoes (Or.inl ⟨h.delivered.heard.shutdown hasked, Or.inl (h.asked hasked).1⟩)

/-- A listener that asks for shutdown does so when it is called with the payload just read. -/
theorem Heeding.consume (h : Heeding listen c secret around script s) {rest : List Frame}
    (hgoes : ¬ s.ShutDown script) (hframe : s.frames = .text payload :: rest) (outlet : Outlet) :
    let r := (Client.consume listen outlet payload s.run).1
    ((Audience.of c around).hearAll listen (callsIn r.events)).shutdown = true →
      3 ≤ (reads s.run.events).length ∧ Asked listen c around script (reads r.events) rest := by
  intro r hasked
  obtain ⟨played, hscript, hreads⟩ := h.played
  have hread : reads r.events = reads s.run.events ++ [payload] :=
    (consume_spec listen outlet payload s.run).1
  have hbefore := h.unasked hgoes
  -- no listener is called in the exchange
  have hcalled : 3 ≤ (reads s.run.events).length := by
    by_contra hfew
    have hnone := (h.delivered.consume h.sound outlet payload).calls_eq_nil (by
      rw [hread, List.length_append, List.length_singleton]
      omega)
    rw [hnone] at hasked
    cases hasked
  refine ⟨hcalled, played, payload, ?_, ?_, ?_, ?_⟩
  · rw [hscript, hframe]
  · rw [hread, hreads]
  · rw [← hreads]
    exact h.sound.accepted.subscribes_iff.2 hcalled
  · rw [← hreads, ← h.delivered.all rfl]
    exact hbefore

/-- **A run that goes on goes no further than to a request of a listener.** -/
theorem Heeding.goesOn (h : Heeding listen c secret around script s)
    (hgoes : GoesOn listen script s s') : Heeding listen c secret around script s' := by
  obtain ⟨played, hscript, hreads⟩ := h.played
  cases hgoes with
  | @consumed payload rest hshut hframe hgo =>
    refine ⟨h.sound.consume hgo, ?_, ⟨played ++ [.text payload], ?_, ?_⟩,
      fun hasked => ⟨rfl, (h.consume hshut hframe _ hasked).2⟩⟩
    · have hnext := h.delivered.consume h.sound script.outlet payload
      dsimp only at hnext
      rw [hgo] at hnext
      exact hnext
    · rw [hscript, hframe, List.append_assoc]
      rfl
    · rw [(consume_spec listen _ payload s.run).1, hreads]
      simp [texts, Frame.payload?]
  | @requested rest hshut hframe =>
    refine ⟨h.sound.requested, h.delivered.requested, ⟨played ++ [.shutdown false], ?_, ?_⟩,
      fun hasked => ?_⟩
    · rw [hscript, hframe, List.append_assoc]
      rfl
    · rw [hreads]
      simp [texts, Frame.payload?]
    · have hbefore := h.unasked hshut
      rw [hbefore] at hasked
      cases hasked

theorem Heeding.reached (h : Heeding listen c secret around script s)
    (hreached : Relation.ReflTransGen (GoesOn listen script) s s') :
    Heeding listen c secret around script s' := by
  induction hreached with
  | refl => exact h
  | tail _ hgoes ih => exact ih.goesOn hgoes

/-- Where a run is left nothing more happens, unless it is left at a payload. -/
theorem Leaves.result_events {way : Way} (h : Leaves m listen script s way) :
    (s.result listen script).1.events = s.run.events ∨
      ∃ payload rest, s.frames = .text payload :: rest ∧ ¬ s.ShutDown script := by
  by_cases hshut : s.ShutDown script
  · obtain ⟨-, hrun | hrun⟩ := Stage.result_of_shutDown listen hshut
    · exact Or.inl (by rw [hrun])
    · exact Or.inl (by rw [hrun])
  cases h with
  | shutdown h => exact absurd h hshut
  | streamEnd _ hends | cutOff _ hends =>
    obtain ⟨rest, hresult⟩ := Stage.result_of_streamEnds listen hshut hends
    exact Or.inl (by rw [hresult])
  | readFailure _ hfailure =>
    rw [Stage.result_of_not_shutDown hshut, hfailure]
    exact Or.inl rfl
  | silence _ hframes hopen =>
    rw [Stage.result_of_not_shutDown hshut, hframes]
    dsimp only
    rw [if_pos hopen]
    exact Or.inl rfl
  | closeAfterSubscribe _ h | sendFailure _ h | rejection _ h | abort _ h =>
    exact Or.inr ⟨_, _, h, hshut⟩

theorem Asked.subscribes {payloads : List String} {left : List Frame}
    (h : Asked listen c around script payloads left) : c.matcher.Subscribes payloads := by
  obtain ⟨played, payload, -, rfl, hsub, -⟩ := h
  exact (AckMatcher.subscribes_append hsub.length [payload]).2 hsub

/-- Where a payload ends a run and a listener asks for shutdown at it, a listener gives up on it. -/
theorem Heeding.givenUp (h : Heeding listen c secret around script s) {rest : List Frame}
    (hshut : ¬ s.ShutDown script) (hframe : s.frames = .text payload :: rest) {ending : Ending}
    (hconsume : Client.consume listen script.outlet payload s.run = (r, some ending)) :
    let audience := (Audience.of c around).hearAll listen (callsIn r.events)
    audience.shutdown = true →
      Asked listen c around script (reads r.events) rest ∧ audience.done ≠ .ok () := by
  intro audience hasked
  have hwhere := h.consume hshut hframe script.outlet
  have hnext := h.delivered.consume h.sound script.outlet payload
  dsimp only at hwhere hnext
  rw [hconsume] at hwhere hnext
  obtain ⟨hstreamed, hwhere⟩ := hwhere hasked
  refine ⟨hwhere, fun hdone => ?_⟩
  have hgiven := hnext.heard.done.symm.trans hdone
  -- after the subscription nothing else ends a run
  rw [h.sound.toKept.consume_streamed listen _ hstreamed] at hconsume
  cases hd : dispatch listen payload (taken s.run payload) with
  | mk r' done =>
    rw [hd] at hconsume
    cases done with
    | ok u => simp at hconsume
    | error a =>
      have hending : ending = .aborted a := (Option.some.inj (Prod.mk.inj hconsume).2).symm
      simp [standing, hending, Ending.done] at hgiven

/-- **A run is over at the payload at which a listener asks for shutdown**, and has finished unless
a listener gives up on this payload. -/
theorem Heeding.result (h : Heeding listen c secret around script s) {way : Way}
    (hleaves : Leaves c.matcher listen script s way) :
    let result := s.result listen script
    let audience := (Audience.of c around).hearAll listen (callsIn result.1.events)
    audience.shutdown = true →
      Asked listen c around script (reads result.1.events) result.2.2 ∧
      (audience.done = .ok () → result.2.1 = .finished ∧ result.1.client.state = .subscribed ∧
        result.1.client.shutdownRequested = true) := by
  intro result audience hasked
  by_cases hbefore :
      ((Audience.of c around).hearAll listen (callsIn s.run.events)).shutdown = true
  · -- the request is seen before the next reading
    obtain ⟨hreading, hwhere⟩ := h.asked hbefore
    have hrequested := h.delivered.heard.shutdown hbefore
    have hresult : result = _ := Stage.result_of_requested hreading hrequested listen script
    rw [hresult]
    refine ⟨hwhere, fun _ => ⟨rfl, ?_, hrequested⟩⟩
    rw [h.sound.state]
    exact h.sound.subscribed_iff.2 hwhere.subscribes
  · -- the payload at which the run is left makes the request
    rcases hleaves.result_events with hsame | ⟨payload, rest, hframe, hshut⟩
    · exact absurd (hsame ▸ hasked) hbefore
    · obtain ⟨r, hconsume, -⟩ := hleaves.consumed h.sound hshut hframe
      have hresult : result = _ := Stage.result_of_consumed hshut hframe hconsume
      simp only [audience] at hasked ⊢
      rw [hresult] at hasked ⊢
      obtain ⟨hwhere, hnot⟩ := h.givenUp hshut hframe hconsume hasked
      exact ⟨hwhere, fun hdone => absurd hdone hnot⟩

/-- **Shutdown.** A client has a credential, and operations follow that set none that is empty. If
shutdown has been requested among them, by one of them or by a listener in a run, then the next run
closes the line and does nothing else: it reads no frame, and leaves the client in the state that
runs start in. If a listener asks for shutdown in a run, then the payload that it is called with is
the last frame played, whatever follows on the line; and unless a listener gives up on this payload,
the run finishes, and leaves the client subscribed and the request standing. -/
theorem shutdown_wins (hcredential : c.credential = some secret) (hne : secret ≠ "")
    (listen : Listening η σ ν) (operations : List (Operation η σ))
    (hkeys : ∀ key, .setCredential key ∈ operations → key ≠ "") (script : Script) (around : σ) :
    let client := c.after listen operations
    let report := client.runOn listen script around
    let audience := (Audience.of client around).hearAll listen (callsIn report.events)
    ((.requestShutdown ∈ operations ∨ ∃ earlier, earlier <+: operations ∧
        (c.after listen earlier).shutdownRequested = true) →
      report = ⟨{ client with state := .init }, around, [.closed script.closeError], .finished,
        script.frames⟩) ∧
    (audience.shutdown = true →
      Asked listen client around script (reads report.events) report.framesLeft ∧
      (audience.done = .ok () → report.ending = .finished ∧ report.client.state = .subscribed ∧
        report.client.shutdownRequested = true)) := by
  intro client report audience
  obtain ⟨key, hkey⟩ := after_requireCredential ⟨secret, hcredential, hne⟩ listen hkeys
  refine ⟨fun hrequested => ?_, fun hasked => ?_⟩
  · have hstands : client.shutdownRequested = true := by
      rcases hrequested with hmem | ⟨earlier, ⟨later, rfl⟩, hearlier⟩
      · exact after_of_requestShutdown hmem c
      · rw [show client = _ from after_append listen c earlier later]
        exact after_requested hearlier later
    exact runOn_of_requested hkey hstands listen script around
  · have hopening := heeding_opening listen client key around script
    obtain ⟨way, last, hreached, hleaves⟩ := Stage.left hopening.sound listen script
    have hresult := (sound_of_reached hreached hopening.sound).2
    have hlast := (hopening.reached hreached).result hleaves
    dsimp only at hlast
    rw [← hresult] at hlast
    obtain ⟨hclient, -, hending, hleft, closing, hevents, hclosing⟩ :=
      runOn_closes hkey listen script around
    have hfinished := (runOn_report hkey listen script around).2.1
    generalize (opening client key script around).result listen script = result at *
    obtain ⟨hreads, hcalls, -⟩ := of_closing (m := client.matcher) hevents hclosing
    simp only [audience, report] at hasked ⊢
    rw [hcalls] at hasked ⊢
    obtain ⟨hwhere, hends⟩ := hlast hasked
    rw [hreads, hleft, hending]
    refine ⟨hwhere, fun hdone => ?_⟩
    obtain ⟨hend, hstate, hrequested⟩ := hends hdone
    rw [hfinished hend]
    exact ⟨hend, hstate, hrequested⟩

/-- A client whose first listener asks for shutdown on a payload: the second one is still called
with it, and the failure that follows is not read. A later run over the same line does not begin. -/
theorem shutdown_wins_twice :
    let line : Script := { frames := [.text "Connected Successfully", .text "authenticated",
      .text "subscribed to: A.*", .text "stop", .failure (.line (.reported "reset"))] }
    let c : Client Listener := {
      config := {}
      credential := some "key"
      listeners := ⟨[("first", .counter 0 (some "stop"))], by simp⟩ }
    let board := Board.ofConfig {}
    let before : List (Operation Listener (Board Watcher)) := [.register "second" (.counter 0 none)]
    let between : List (Operation Listener (Board Watcher)) :=
      [.runOn line board, .setCredential "other", .unregister "first"]
    let report := (c.after Listener.listen before).runOn Listener.listen line board
    let later := c.after Listener.listen (before ++ between)
    (callsIn report.events = [⟨"first", "stop"⟩, ⟨"second", "stop"⟩] ∧
      report.framesLeft = [.failure (.line (.reported "reset"))] ∧ report.ending = .finished ∧
      report.client.state = .subscribed) ∧
    later.runOn Listener.listen line board =
      ⟨{ later with state := .init }, board, [.closed none], .finished, line.frames⟩ := by
  intro line c board before between report later
  have hne : "key" ≠ "" := by decide
  have hcredential : c.credential = some "key" := rfl
  have hbefore : ∀ key, .setCredential key ∈ before → key ≠ "" := by simp [before]
  have hlater : ∀ key, .setCredential key ∈ before ++ between → key ≠ "" := by
    simp [before, between]
  have hasked : ((Audience.of (c.after Listener.listen before) board).hearAll Listener.listen
      (callsIn report.events)).shutdown = true := by decide +kernel
  have hdone : ((Audience.of (c.after Listener.listen before) board).hearAll Listener.listen
      (callsIn report.events)).done = .ok () := by decide +kernel
  have hrequested : (c.after Listener.listen (before ++ between.take 1)).shutdownRequested = true :=
    by decide +kernel
  obtain ⟨-, hlistener⟩ := shutdown_wins hcredential hne Listener.listen before hbefore line board
  obtain ⟨hstays, -⟩ :=
    shutdown_wins hcredential hne Listener.listen (before ++ between) hlater line board
  obtain ⟨hending, hstate, -⟩ := (hlistener hasked).2 hdone
  have hearlier : before ++ between.take 1 <+: before ++ between :=
    ⟨between.drop 1, by simp [before, between]⟩
  exact ⟨⟨by decide +kernel, by decide +kernel, hending, hstate⟩,
    hstays (Or.inr ⟨_, hearlier, hrequested⟩)⟩

end Client

end TapeReader.Feed

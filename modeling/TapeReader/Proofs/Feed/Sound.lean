import TapeReader.Proofs.Feed.Run

/-!
# What a run keeps

* `Kept`: every payload read has acknowledged, the exchange is as far, and the line is open.
* `Sound`: and the client's state is that of the exchange.
* `Kept.consume_rejected`, `Kept.consume_due`, `Kept.consume_third`, `Kept.consume_streamed`: what a
  payload comes to, by the number of payloads that have acknowledged; `Consumed`: all of it at once.
* `Sound.consume`: **a payload that does not end a run keeps it sound.**
-/

namespace TapeReader.Feed

namespace Client

variable {η σ ν : Type} {m : AckMatcher} {secret : String} {listen : Listening η σ ν}
  {r : Run η σ ν} {payload : String} {outlet : Outlet}

/-- Every payload read has acknowledged, the exchange is as far, and the line has not been closed.
-/
structure Kept (m : AckMatcher) (secret : String) (r : Run η σ ν) : Prop where
  accepted : m.AcceptsAll (reads r.events)
  handshake : r.handshake =
    { secret, matcher := m, state := .afterAcks (reads r.events).length }
  notClosed : ∀ e ∈ r.events, e.isClosed = false

/-- And the client's state is that of the exchange. -/
structure Sound (m : AckMatcher) (secret : String) (r : Run η σ ν) : Prop
    extends Kept m secret r where
  state : r.client.state = r.handshake.state

theorem sound_started (c : Client η) (secret : String) (around : σ) :
    Sound c.matcher secret (started c secret around : Run η σ ν) where
  accepted := AckMatcher.acceptsAll_nil
  handshake := rfl
  notClosed := by simp [started]
  state := rfl

theorem Kept.followed (h : Kept m secret r) : Sound m secret (follow r) where
  accepted := h.accepted
  handshake := h.handshake
  notClosed := h.notClosed
  state := rfl

/-- A request for shutdown is none of it. -/
theorem Sound.requested (h : Sound m secret r) :
    Sound m secret { r with client := r.client.requestShutdown } :=
  ⟨⟨h.accepted, h.handshake, h.notClosed⟩, h.state⟩

/-- An event that neither reads nor closes. -/
theorem Kept.noted (h : Kept m secret r) {e : Event ν} (hread : e.payload? = none)
    (hclosed : e.isClosed = false) : Kept m secret (note r e) := by
  have hreads : reads (note r e).events = reads r.events := by
    simp [note, reads_concat, hread]
  refine ⟨hreads ▸ h.accepted, ?_, ?_⟩
  · rw [hreads]
    exact h.handshake
  · intro x hx
    rcases List.mem_append.1 hx with hx | hx
    · exact h.notClosed x hx
    · rw [List.mem_singleton.1 hx]
      exact hclosed

/-- A payload that acknowledges what is due. -/
theorem Kept.took (h : Kept m secret r) (haccepts : m.accepts (reads r.events).length payload) :
    Kept m secret (taken r payload) := by
  refine ⟨?_, ?_, ?_⟩
  · rw [taken_reads]
    exact AckMatcher.acceptsAll_concat.2 ⟨h.accepted, haccepts⟩
  · show (r.handshake.advance payload).1 = _
    rw [h.handshake, Handshake.advance_at rfl, if_pos haccepts, taken_reads, List.length_append]
    rfl
  · intro x hx
    rcases List.mem_append.1 hx with hx | hx
    · exact h.notClosed x hx
    · rw [List.mem_singleton.1 hx]
      rfl

theorem Kept.dispatched (h : Kept m secret r) (payload : String) :
    Kept m secret (dispatch listen payload r).1 := by
  have hreads := dispatch_reads listen payload r
  refine ⟨hreads ▸ h.accepted, ?_, fun e he => ?_⟩
  · rw [hreads, dispatch_handshake]
    exact h.handshake
  · obtain ⟨calls, hevents, hcalls⟩ := dispatch_events listen payload r
    rw [hevents] at he
    rcases List.mem_append.1 he with he | he
    · exact h.notClosed e he
    · obtain ⟨name, note, rfl⟩ := hcalls e he
      rfl

/-! ## A payload consumed -/

theorem Kept.advance_snd (h : Kept m secret r) (payload : String) :
    (r.handshake.advance payload).2 =
      if m.accepts (reads r.events).length payload then
        .ok (.afterAcks secret (reads r.events).length)
      else .error (.afterAcks (reads r.events).length payload) := by
  rw [h.handshake, Handshake.advance_at rfl]
  split <;> rfl

/-- A payload that does not acknowledge what is due. -/
theorem Kept.consume_rejected (h : Kept m secret r) (listen : Listening η σ ν) (outlet : Outlet)
    (haccepts : m.accepts (reads r.events).length payload = false) :
    consume listen outlet payload r = (taken r payload,
      some (.failed (.rejected (.afterAcks (reads r.events).length payload)))) := by
  rw [consume_eq, h.advance_snd, haccepts]
  rfl

/-- An acknowledgement that is replied to, if the line takes the reply. -/
theorem Kept.consume_reply (h : Kept m secret r) (listen : Listening η σ ν) (outlet : Outlet)
    {message : String} (hreply : Step.afterAcks secret (reads r.events).length = .reply message)
    (haccepts : m.accepts (reads r.events).length payload = true) :
    consume listen outlet payload r =
      if outlet.limit.all (sentCount r < ·) then (follow (note (taken r payload) (.sent message)), none)
      else (note (taken r payload) (.unsent message),
        some (.failed outlet.refusal)) := by
  have hcount : sentCount (taken r payload) = sentCount r := by simp [sentCount, taken, note]
  rw [consume_eq, h.advance_snd, haccepts, if_pos rfl, hreply]
  unfold send
  rw [hcount]
  by_cases hlimit : outlet.limit.all (sentCount r < ·) = true
  · simp only [if_pos hlimit]
  · simp only [if_neg hlimit]

/-- The first two acknowledgements are replied to. -/
theorem exists_reply {n : ℕ} (hdue : n < 2) (secret : String) :
    ∃ message, Step.afterAcks secret n = .reply message := by
  match n, hdue with
  | 0, _ => exact ⟨_, rfl⟩
  | 1, _ => exact ⟨_, rfl⟩

/-- No more than the first two are. -/
theorem length_of_reply {n : ℕ} {message : String} (h : Step.afterAcks secret n = .reply message) :
    n < 2 := by
  match n with
  | 0 | 1 => omega
  | 2 | n + 3 => simp [Step.afterAcks] at h

/-- One of the first two acknowledgements: it is replied to, if the line takes the reply. -/
theorem Kept.consume_due (h : Kept m secret r) (listen : Listening η σ ν) (outlet : Outlet)
    (hdue : (reads r.events).length < 2)
    (haccepts : m.accepts (reads r.events).length payload = true) :
    ∃ message, consume listen outlet payload r =
      if outlet.limit.all (sentCount r < ·) then (follow (note (taken r payload) (.sent message)), none)
      else (note (taken r payload) (.unsent message),
        some (.failed outlet.refusal)) := by
  obtain ⟨message, hreply⟩ := exists_reply hdue secret
  exact ⟨message, h.consume_reply listen outlet hreply haccepts⟩

/-- The third acknowledgement. -/
theorem Kept.consume_third (h : Kept m secret r) (listen : Listening η σ ν) (outlet : Outlet)
    (hthird : (reads r.events).length = 2) (haccepts : m.accepts 2 payload = true) :
    consume listen outlet payload r = (follow (taken r payload),
      if r.client.config.closeAfterSubscribe then some .finished else none) := by
  rw [consume_eq, h.advance_snd, hthird, haccepts]
  rfl

/-- A payload after the subscription is given to the listeners. -/
theorem Kept.consume_streamed (h : Kept m secret r) (listen : Listening η σ ν) (outlet : Outlet)
    (hstreamed : 3 ≤ (reads r.events).length) (payload : String) :
    consume listen outlet payload r = match dispatch listen payload (taken r payload) with
      | (r, .ok ()) => (follow r, none)
      | (r, .error a) => (r, some (.aborted a)) := by
  obtain ⟨n, hn⟩ := Nat.exists_eq_add_of_le' hstreamed
  rw [consume_eq, h.advance_snd, hn]
  rfl

/-- After the subscription nothing is due. -/
theorem accepts_of_streamed {n : ℕ} (h : 3 ≤ n) (payload : String) :
    m.accepts n payload = true := by
  obtain ⟨n, rfl⟩ := Nat.exists_eq_add_of_le' h
  rfl

/-- **What consuming a payload comes to**, by the number of payloads that have acknowledged. -/
inductive Consumed (m : AckMatcher) (secret : String) (listen : Listening η σ ν) (payload : String)
    (r : Run η σ ν) : Run η σ ν × Option Ending → Prop
  | rejected (haccepts : m.accepts (reads r.events).length payload = false) :
      Consumed m secret listen payload r (taken r payload,
        some (.failed (.rejected (.afterAcks (reads r.events).length payload))))
  | replied {message} (haccepts : m.accepts (reads r.events).length payload = true)
      (hreply : Step.afterAcks secret (reads r.events).length = .reply message) :
      Consumed m secret listen payload r (follow (note (taken r payload) (.sent message)), none)
  | refused {message error} (haccepts : m.accepts (reads r.events).length payload = true)
      (hreply : Step.afterAcks secret (reads r.events).length = .reply message) :
      Consumed m secret listen payload r (note (taken r payload) (.unsent message),
        some (.failed error))
  | subscribed (haccepts : m.accepts 2 payload = true) (hthird : (reads r.events).length = 2) :
      Consumed m secret listen payload r (follow (taken r payload),
        if r.client.config.closeAfterSubscribe then some .finished else none)
  | streamed (hstreamed : 3 ≤ (reads r.events).length) {r'}
      (hdispatch : dispatch listen payload (taken r payload) = (r', .ok ())) :
      Consumed m secret listen payload r (follow r', none)
  | givenUp (hstreamed : 3 ≤ (reads r.events).length) {r' a}
      (hdispatch : dispatch listen payload (taken r payload) = (r', .error a)) :
      Consumed m secret listen payload r (r', some (.aborted a))

theorem Kept.consumed (h : Kept m secret r) (listen : Listening η σ ν) (outlet : Outlet)
    (payload : String) :
    Consumed m secret listen payload r (consume listen outlet payload r) := by
  cases haccepts : m.accepts (reads r.events).length payload with
  | false =>
    rw [h.consume_rejected listen outlet haccepts]
    exact .rejected haccepts
  | true =>
    rcases Nat.lt_trichotomy (reads r.events).length 2 with hdue | hthird | hstreamed
    · obtain ⟨message, hreply⟩ := exists_reply hdue secret
      rw [h.consume_reply listen outlet hreply haccepts]
      split
      · exact .replied haccepts hreply
      · exact .refused haccepts hreply
    · rw [hthird] at haccepts
      rw [h.consume_third listen outlet hthird haccepts]
      exact .subscribed haccepts hthird
    · rw [h.consume_streamed listen outlet hstreamed payload]
      cases hd : dispatch listen payload (taken r payload) with
      | mk r' done =>
        cases done with
        | ok u => exact .streamed hstreamed hd
        | error a => exact .givenUp hstreamed hd

/-- **A payload that does not end a run keeps it sound.** -/
theorem Sound.consume (h : Sound m secret r)
    (hgo : (Client.consume listen outlet payload r).2 = none) :
    Sound m secret (Client.consume listen outlet payload r).1 := by
  have hconsumed := h.toKept.consumed listen outlet payload
  generalize Client.consume listen outlet payload r = result at hgo hconsumed ⊢
  -- where the run ends there is nothing to show
  cases hconsumed with
  | replied haccepts _ => exact ((h.toKept.took haccepts).noted rfl rfl).followed
  | subscribed haccepts hthird => exact (h.toKept.took (hthird ▸ haccepts)).followed
  | @streamed hstreamed r' hdispatch =>
    have htook := h.toKept.took (accepts_of_streamed hstreamed payload)
    have hdispatched : Kept m secret (dispatch listen payload (taken r payload)).1 :=
      htook.dispatched payload
    rw [hdispatch] at hdispatched
    exact hdispatched.followed
  | rejected | refused | givenUp => simp at hgo

/-- The state of the exchange says whether it is done. -/
theorem Sound.subscribed_iff (h : Sound m secret r) :
    r.handshake.state = .subscribed ↔ m.Subscribes (reads r.events) := by
  rw [h.accepted.subscribes_iff, h.handshake]
  match (reads r.events).length with
  | 0 | 1 | 2 => simp [ConnectionState.afterAcks]
  | n + 3 => simp [ConnectionState.afterAcks]

end Client

end TapeReader.Feed

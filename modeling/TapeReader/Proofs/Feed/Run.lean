import TapeReader.Feed.Client
import TapeReader.Proofs.Feed.Handshake

/-!
# What a run reads

* `reads`, `texts`: the payloads read in a run, and the payloads among frames.
* `Client.dispatch_events`: a payload dispatched adds calls with this payload, and nothing else.
* `Client.consume_spec`: a payload consumed is read, and advances the exchange.
* `Client.Stops`: the ways in which the loop of a run ends.
* `Client.loop_stops`: **what the loop keeps as it goes on holds where it stops.**
-/

namespace TapeReader.Feed

variable {η σ ν : Type}

/-- The payload that an event reads. -/
def Event.payload? : Event ν → Option String
  | .read payload => some payload
  | _ => none

/-- The payload of a frame. -/
def Frame.payload? : Frame → Option String
  | .text payload => some payload
  | _ => none

/-- The payloads read, in order. -/
def reads (events : List (Event ν)) : List String := events.filterMap Event.payload?

/-- The payloads among frames, in order. -/
def texts (frames : List Frame) : List String := frames.filterMap Frame.payload?

theorem reads_concat (events : List (Event ν)) (e : Event ν) :
    reads (events ++ [e]) = reads events ++ e.payload?.toList := by
  cases e <;> simp [reads, Event.payload?]

theorem reads_append (events more : List (Event ν)) :
    reads (events ++ more) = reads events ++ reads more := List.filterMap_append

namespace Client

variable {listen : Listening η σ ν} {payload : String}

/-- Listeners that are given a payload add calls with this payload, and nothing else. -/
theorem walkEntries_events (entries : List (String × η)) (d : Dispatching σ ν) :
    ∃ calls, (Roster.walkEntries (deliver listen payload) entries d).2.events = d.events ++ calls ∧
      ∀ e ∈ calls, ∃ name note, e = .delivered name payload note := by
  induction entries generalizing d with
  | nil => exact ⟨[], by simp [Roster.walkEntries], by simp⟩
  | cons entry rest ih =>
    obtain ⟨calls, hevents, hcalls⟩ := ih (deliver listen payload entry.1 entry.2 d).2
    have hfirst : ∃ first, (deliver listen payload entry.1 entry.2 d).2.events = d.events ++ first ∧
        ∀ e ∈ first, ∃ name note, e = .delivered name payload note := by
      unfold deliver
      split
      · exact ⟨[], by simp, by simp⟩
      · exact ⟨_, rfl, by simp⟩
    obtain ⟨first, hfirst, hdelivered⟩ := hfirst
    refine ⟨first ++ calls, ?_, fun e he => ?_⟩
    · unfold Roster.walkEntries
      dsimp only
      rw [hevents, hfirst, List.append_assoc]
    · exact (List.mem_append.1 he).elim (hdelivered e) (hcalls e)

/-- A payload dispatched adds calls with this payload, and nothing else. -/
theorem dispatch_events (listen : Listening η σ ν) (payload : String) (r : Run η σ ν) :
    ∃ calls, (dispatch listen payload r).1.events = r.events ++ calls ∧
      ∀ e ∈ calls, ∃ name note, e = .delivered name payload note :=
  walkEntries_events r.client.listeners.entries _

/-- Calls read nothing. -/
theorem reads_calls {calls : List (Event ν)}
    (h : ∀ e ∈ calls, ∃ name note, e = .delivered name payload note) : reads calls = [] := by
  refine List.filterMap_eq_nil_iff.2 fun e he => ?_
  obtain ⟨name, note, rfl⟩ := h e he
  rfl

theorem dispatch_reads (listen : Listening η σ ν) (payload : String) (r : Run η σ ν) :
    reads (dispatch listen payload r).1.events = reads r.events := by
  obtain ⟨calls, hevents, hcalls⟩ := dispatch_events listen payload r
  rw [hevents, reads_append, reads_calls hcalls, List.append_nil]

theorem dispatch_handshake (listen : Listening η σ ν) (payload : String) (r : Run η σ ν) :
    (dispatch listen payload r).1.handshake = r.handshake := rfl

/-- Sending is noted, and nothing else. -/
theorem send_spec (outlet : Outlet) (message : String) (r : Run η σ ν) :
    ∃ (e : Event ν) (ending : Option Ending), send outlet message r = (note r e, ending) ∧
      e.payload? = none ∧ ∀ a, ending ≠ some (.aborted a) := by
  unfold send
  split
  · exact ⟨_, _, rfl, rfl, by simp⟩
  · exact ⟨_, _, rfl, rfl, by simp⟩

/-- The run with a payload read, and the exchange advanced by it. -/
def taken (r : Run η σ ν) (payload : String) : Run η σ ν :=
  note { r with handshake := (r.handshake.advance payload).1 } (.read payload)

theorem taken_reads (r : Run η σ ν) (payload : String) :
    reads (taken r payload).events = reads r.events ++ [payload] := by
  simp [taken, note, reads_concat, Event.payload?]

/-- What consuming a payload comes to, by the step that the exchange calls for. -/
theorem consume_eq (listen : Listening η σ ν) (outlet : Outlet) (payload : String)
    (r : Run η σ ν) :
    consume listen outlet payload r = match (r.handshake.advance payload).2 with
      | .error rejection => (taken r payload, some (.failed (.rejected rejection)))
      | .ok (.reply message) =>
        match send outlet message (taken r payload) with
        | (r, none) => (follow r, none)
        | (r, some ending) => (r, some ending)
      | .ok .subscribed => (follow (taken r payload),
          if r.client.config.closeAfterSubscribe then some .finished else none)
      | .ok .forward =>
        match dispatch listen payload (taken r payload) with
        | (r, .ok ()) => (follow r, none)
        | (r, .error abort) => (r, some (.aborted abort)) := rfl

/-- A payload consumed is read, and advances the exchange. -/
theorem consume_spec (listen : Listening η σ ν) (outlet : Outlet) (payload : String)
    (r : Run η σ ν) :
    reads (consume listen outlet payload r).1.events = reads r.events ++ [payload] ∧
      (consume listen outlet payload r).1.handshake = (r.handshake.advance payload).1 := by
  rw [← taken_reads, consume_eq]
  cases (r.handshake.advance payload).2 with
  | error rejection => exact ⟨rfl, rfl⟩
  | ok step =>
    cases step with
    | reply message =>
      obtain ⟨e, ending, hsend, he, -⟩ := send_spec outlet message (taken r payload)
      have hreads : reads (note (taken r payload) e).events = reads (taken r payload).events := by
        simp [note, reads_concat, he]
      dsimp only
      rw [hsend]
      cases ending <;> exact ⟨hreads, rfl⟩
    | subscribed => exact ⟨rfl, rfl⟩
    | forward =>
      have hreads := dispatch_reads listen payload (taken r payload)
      have hshake := dispatch_handshake listen payload (taken r payload)
      dsimp only
      cases hd : dispatch listen payload (taken r payload) with
      | mk r' e =>
        rw [hd] at hreads hshake
        cases e <;> exact ⟨hreads, hshake⟩

/-! ## The loop -/

/-- How the loop ends where it stands, and with what. -/
inductive Stops (listen : Listening η σ ν) (outlet : Outlet) (holdOpen : Bool) :
    List Frame → Run η σ ν → Run η σ ν × Ending × List Frame → Prop
  /-- Shutdown has been requested. -/
  | requested {frames r} (hreq : r.client.shutdownRequested = true) :
      Stops listen outlet holdOpen frames r (r, .finished, frames)
  /-- The line has no frame left. -/
  | exhausted {r ending} (haborted : ∀ a, ending ≠ .aborted a) :
      Stops listen outlet holdOpen [] r (r, ending, [])
  /-- Reading fails, or the peer has closed the stream. -/
  | broken {frame rest r ending} (hframe : ∀ payload, frame ≠ .text payload)
      (haborted : ∀ a, ending ≠ .aborted a) :
      Stops listen outlet holdOpen (frame :: rest) r (r, ending, rest)
  /-- Shutdown is requested while the line waits. -/
  | waited {rest r} :
      Stops listen outlet holdOpen (.shutdown true :: rest) r
        ({ r with client := r.client.requestShutdown }, .finished, rest)
  /-- A payload ends the run. -/
  | consumed {payload rest r ending} (hend : (consume listen outlet payload r).2 = some ending) :
      Stops listen outlet holdOpen (.text payload :: rest) r
        ((consume listen outlet payload r).1, ending, rest)

/-- The run with which a client starts over a line. -/
def started (c : Client η) (secret : String) (around : σ) : Run η σ ν where
  client := { c with state := .init }
  around
  handshake := { secret, matcher := c.matcher }

/-- A run over a line is its loop; what follows it reads nothing and changes nothing around. -/
theorem runOn_spec {c : Client η} {secret : String} (h : c.requireCredential = .ok secret)
    (listen : Listening η σ ν) (script : Script) (around : σ) :
    let result := loop listen script.outlet script.holdOpen false script.frames
      (started c secret around)
    let report := c.runOn listen script around
    report.around = result.1.around ∧ reads report.events = reads result.1.events ∧
      report.ending = result.2.1 ∧ report.framesLeft = result.2.2 := by
  unfold runOn started
  rw [h]
  dsimp only
  generalize loop listen script.outlet script.holdOpen false script.frames _ = result
  obtain ⟨r, ending, left⟩ := result
  cases ending with
  | finished => simp [note, reads_concat, Event.payload?]
  | failed error => simp [note, follow, reads_concat, Event.payload?]
  | aborted a => simp
  | waiting => simp

/-- **What the loop keeps as it goes on holds where it stops.** -/
theorem loop_stops (listen : Listening η σ ν) (outlet : Outlet) (holdOpen : Bool)
    {P : List Frame → Run η σ ν → Prop}
    (hconsume : ∀ payload rest r, P (.text payload :: rest) r →
      (consume listen outlet payload r).2 = none → P rest (consume listen outlet payload r).1)
    (hshutdown : ∀ rest r, P (.shutdown false :: rest) r →
      P rest { r with client := r.client.requestShutdown })
    (reading : Bool) (frames : List Frame) (r : Run η σ ν) (hr : P frames r) :
    ∃ frames' r', P frames' r' ∧
      Stops listen outlet holdOpen frames' r' (loop listen outlet holdOpen reading frames r) := by
  -- each frame either stops the loop or goes on to the rest
  induction frames generalizing reading r with
  | nil =>
    refine ⟨[], r, hr, ?_⟩
    unfold loop
    split
    · rename_i h; exact .requested h.2
    · dsimp only
      by_cases hhold : holdOpen
      · rw [if_pos hhold]; exact .exhausted (by split <;> simp)
      · rw [if_neg hhold]; split <;> exact .exhausted (by simp)
  | cons frame rest ih =>
    unfold loop
    split
    · rename_i h; exact ⟨frame :: rest, r, hr, .requested h.2⟩
    cases frame with
    | text payload =>
      dsimp only
      cases hc : consume listen outlet payload r with
      | mk r' ending =>
        cases ending with
        | none =>
          have hr' := hconsume payload rest r hr (by rw [hc])
          rw [hc] at hr'
          exact ih false r' hr'
        | some e =>
          refine ⟨.text payload :: rest, r, hr, ?_⟩
          have hstop : Stops listen outlet holdOpen (.text payload :: rest) r
              ((consume listen outlet payload r).1, e, rest) := .consumed (by rw [hc])
          rwa [hc] at hstop
    | failure text => exact ⟨_, r, hr, .broken (by simp) (by simp)⟩
    | ending =>
      refine ⟨_, r, hr, ?_⟩
      dsimp only
      split <;> exact .broken (by simp) (by simp)
    | shutdown wait =>
      cases wait with
      | true => exact ⟨_, r, hr, .waited⟩
      | false => exact ih true _ (hshutdown rest r hr)

end Client

end TapeReader.Feed

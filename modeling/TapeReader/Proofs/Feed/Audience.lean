import TapeReader.Proofs.Feed.Events
import TapeReader.Proofs.Roster

/-!
# Listeners, call by call

* `Audience`: listeners with the world around them, as calls have left them.
* `Audience.hear`, `Audience.hearAll`: a call of the listener of a name, and calls in turn.
* `Audience.hearAll_keeps`: what every listener keeps, calls in turn keep.
* `callsFor`: every listener called with every payload, payload by payload.
* `Client.walk_hears`, `Client.dispatch_hears`: **a payload dispatched is a call of every listener,
  in the order of the roster**, up to one that gives up.
-/

namespace TapeReader.Feed

variable {η σ ν : Type}

/-- Listeners with the world around them, as calls have left them. -/
structure Audience (η σ ν : Type) where
  listeners : List (String × η)
  around : σ
  /-- The calls, with the notes that the listeners have left on them. -/
  heard : List (Event ν) := []
  /-- Whether a listener has asked for shutdown. -/
  shutdown : Bool := false
  /-- Whether the listener called last has given up. -/
  done : Except Abort Unit := .ok ()

/-- Every listener called with every payload, payload by payload. -/
def callsFor (names payloads : List String) : List Call :=
  payloads.flatMap fun payload => names.map (⟨·, payload⟩)

theorem callsFor_concat (names payloads : List String) (payload : String) :
    callsFor names (payloads ++ [payload]) =
      callsFor names payloads ++ names.map (⟨·, payload⟩) := by
  simp [callsFor]

/-- The events that are calls, in order. -/
def deliveries (events : List (Event ν)) : List (Event ν) :=
  events.filter fun e => e.call?.isSome

theorem deliveries_append (events more : List (Event ν)) :
    deliveries (events ++ more) = deliveries events ++ deliveries more := List.filter_append ..

namespace Audience

variable {listen : Listening η σ ν} {a : Audience η σ ν} {passed rest : List (String × η)}
  {name payload : String} {l l' : η} {d : Client.Dispatching σ ν}

/-- One call. The listener of the name may change, with the world around it. -/
def hear (listen : Listening η σ ν) (a : Audience η σ ν) (call : Call) : Audience η σ ν :=
  match a.listeners.lookup call.listener with
  | none => a
  | some l =>
    let heard := listen l call.payload a.around
    { listeners := a.listeners.map fun (name, l) =>
        if name = call.listener then (name, heard.listener) else (name, l)
      around := heard.around
      heard := a.heard ++ [.delivered call.listener call.payload heard.note]
      shutdown := a.shutdown || heard.shutdown
      done := heard.done }

/-- Calls in turn. -/
def hearAll (listen : Listening η σ ν) (a : Audience η σ ν) (calls : List Call) :
    Audience η σ ν := calls.foldl (hear listen) a

theorem hearAll_append (listen : Listening η σ ν) (a : Audience η σ ν) (calls more : List Call) :
    a.hearAll listen (calls ++ more) = (a.hearAll listen calls).hearAll listen more :=
  List.foldl_append

/-- A call leaves the names as they are. -/
theorem hear_names (listen : Listening η σ ν) (a : Audience η σ ν) (call : Call) :
    (a.hear listen call).listeners.map (·.1) = a.listeners.map (·.1) := by
  unfold hear
  split
  · rfl
  · rw [List.map_map]
    refine List.map_congr_left fun e _ => ?_
    simp only [Function.comp_apply]
    split <;> rfl

theorem hearAll_names (listen : Listening η σ ν) (a : Audience η σ ν) (calls : List Call) :
    (a.hearAll listen calls).listeners.map (·.1) = a.listeners.map (·.1) := by
  induction calls generalizing a with
  | nil => rfl
  | cons call rest ih => exact (ih (a.hear listen call)).trans (hear_names listen a call)

/-- **What every listener keeps**, of the world around it and of its answer, calls in turn keep. -/
theorem hearAll_keeps {P : σ → Prop} {Q : Except Abort Unit → Prop}
    (hlisten : ∀ l payload s, P s → P (listen l payload s).around ∧ Q (listen l payload s).done)
    (calls : List Call) (haround : P a.around) (hdone : Q a.done) :
    P (a.hearAll listen calls).around ∧ Q (a.hearAll listen calls).done := by
  induction calls generalizing a with
  | nil => exact ⟨haround, hdone⟩
  | cons call rest ih =>
    have hnext : P (a.hear listen call).around ∧ Q (a.hear listen call).done := by
      unfold hear
      split
      · exact ⟨haround, hdone⟩
      · exact hlisten _ call.payload a.around haround
    exact ih hnext.1 hnext.2

/-- What a call comes to that finds its listener among others. -/
theorem hear_eq (hlisteners : a.listeners = passed ++ (name, l) :: rest)
    (hfresh : name ∉ (passed ++ rest).map (·.1)) :
    let heard := listen l payload a.around
    a.hear listen ⟨name, payload⟩ =
      { listeners := passed ++ (name, heard.listener) :: rest
        around := heard.around
        heard := a.heard ++ [.delivered name payload heard.note]
        shutdown := a.shutdown || heard.shutdown
        done := heard.done } := by
  have hother : ∀ e ∈ passed ++ rest, e.1 ≠ name := fun e he hname =>
    hfresh (hname ▸ List.mem_map_of_mem he)
  have hlookup : a.listeners.lookup name = some l := by
    rw [hlisteners, Roster.lookup_middle hother]
  have hsame : ∀ (changed : η) (es : List (String × η)), (∀ e ∈ es, e.1 ≠ name) →
      (es.map fun (n, l) => if n = name then (n, changed) else (n, l)) = es := by
    intro changed es hes
    conv_rhs => rw [← List.map_id es]
    exact List.map_congr_left fun e he => if_neg (hes e he)
  unfold hear
  rw [hlookup]
  simp only [hlisteners, List.map_append, List.map_cons, if_true]
  rw [hsame _ passed fun e he => hother e (List.mem_append_left _ he),
    hsame _ rest fun e he => hother e (List.mem_append_right _ he)]

/-- An audience is as a dispatch under way has it. -/
structure Matches (a : Audience η σ ν) (listeners : List (String × η))
    (d : Client.Dispatching σ ν) : Prop where
  listeners : a.listeners = listeners
  around : a.around = d.around
  heard : a.heard = deliveries d.events
  shutdown : a.shutdown = true → d.shutdown = true
  done : a.done = d.done

/-- A payload delivered is a call. -/
theorem Matches.deliver (h : a.Matches (passed ++ (name, l) :: rest) d) (hdone : d.done = .ok ())
    (hfresh : name ∉ (passed ++ rest).map (·.1)) (listen : Listening η σ ν) (payload : String) :
    let delivered := Client.deliver listen payload name l d
    (a.hear listen ⟨name, payload⟩).Matches (passed ++ (name, delivered.1) :: rest)
      delivered.2 := by
  intro delivered
  have hdelivered : delivered = Client.deliver listen payload name l d := rfl
  unfold Client.deliver at hdelivered
  rw [hdone] at hdelivered
  rw [hear_eq h.listeners hfresh, hdelivered, h.around]
  refine ⟨rfl, rfl, ?_, fun hasked => ?_, rfl⟩
  · rw [deliveries_append, ← h.heard]
    rfl
  · rcases Bool.or_eq_true_iff.1 hasked with hasked | hasked
    · exact Bool.or_eq_true_iff.2 (Or.inl (h.shutdown hasked))
    · exact Bool.or_eq_true_iff.2 (Or.inr hasked)

end Audience

namespace Client

variable {listen : Listening η σ ν} {payload : String} {a : Audience η σ ν} {r : Run η σ ν}

/-- A listener that gives up is the last one called. -/
theorem walkEntries_of_error {e : Abort} (entries : List (String × η)) {d : Dispatching σ ν}
    (h : d.done = .error e) :
    Roster.walkEntries (deliver listen payload) entries d = (entries, d) := by
  induction entries with
  | nil => rfl
  | cons entry rest ih =>
    have hstays : deliver listen payload entry.1 entry.2 d = (entry.2, d) := by
      unfold deliver
      rw [h]
    unfold Roster.walkEntries
    rw [hstays]
    dsimp only
    rw [ih]

theorem deliver_calls (listen : Listening η σ ν) (payload name : String) (l : η)
    {d : Dispatching σ ν} (hdone : d.done = .ok ()) :
    callsIn (deliver listen payload name l d).2.events = callsIn d.events ++ [⟨name, payload⟩] := by
  unfold deliver
  rw [hdone]
  exact callsIn_append _ _

/-- **A walk over listeners is a call of each of them, in turn**, up to one that gives up. -/
theorem walk_hears (rest passed : List (String × η)) (d : Dispatching σ ν) (a : Audience η σ ν)
    (hnodup : ((passed ++ rest).map (·.1)).Nodup) (h : a.Matches (passed ++ rest) d)
    (hdone : d.done = .ok ()) :
    let walked := Roster.walkEntries (deliver listen payload) rest d
    ∃ told : List String, told <+: rest.map (·.1) ∧
      callsIn walked.2.events = callsIn d.events ++ told.map (⟨·, payload⟩) ∧
      (a.hearAll listen (told.map (⟨·, payload⟩))).Matches (passed ++ walked.1) walked.2 ∧
      (walked.2.done = .ok () → told = rest.map (·.1)) ∧
      ∀ e, walked.2.done = .error e → told ≠ [] := by
  -- by the listeners still to be called; those before them have changed already
  induction rest generalizing passed d a with
  | nil =>
    refine ⟨[], List.nil_prefix, (List.append_nil _).symm, h, fun _ => rfl, fun e he => ?_⟩
    rw [show (Roster.walkEntries (deliver listen payload) [] d).2.done = .ok () from hdone] at he
    simp at he
  | cons entry rest ih =>
    obtain ⟨name, l⟩ := entry
    have hfresh : name ∉ (passed ++ rest).map (·.1) := by
      rw [List.map_append, List.map_cons, List.nodup_middle, List.nodup_cons] at hnodup
      rw [List.map_append]
      exact hnodup.1
    have hcalled := h.deliver hdone hfresh listen payload
    have hcalls := deliver_calls listen payload name l hdone
    dsimp only at hcalled
    unfold Roster.walkEntries
    dsimp only
    cases hdelivered : deliver listen payload name l d with
    | mk l' d' =>
      rw [hdelivered] at hcalled hcalls
      dsimp only at hcalled hcalls
      cases hdone' : d'.done with
      | error e =>
        rw [walkEntries_of_error rest hdone']
        refine ⟨[name], ?_, hcalls, hcalled, fun hok => ?_, fun _ _ => by simp⟩
        · rw [List.map_cons]
          exact (List.prefix_cons_inj name).2 List.nil_prefix
        · rw [hdone'] at hok
          simp at hok
      | ok u =>
        have hsplit : passed ++ (name, l') :: rest = (passed ++ [(name, l')]) ++ rest := by simp
        rw [hsplit] at hcalled
        obtain ⟨told, hprefix, hmore, hmatches, hall, -⟩ :=
          ih (passed ++ [(name, l')]) d' (a.hear listen ⟨name, payload⟩)
            (by simpa using hnodup) hcalled hdone'
        refine ⟨name :: told, ?_, ?_, ?_, fun hok => ?_, fun _ _ => by simp⟩
        · rw [List.map_cons]
          exact (List.prefix_cons_inj name).2 hprefix
        · rw [hmore, hcalls, List.map_cons, List.append_assoc]
          rfl
        · rw [List.append_assoc] at hmatches
          exact hmatches
        · rw [List.map_cons, hall hok]

/-- A run as a dispatch has it. -/
def standing (done : Except Abort Unit) (r : Run η σ ν) : Dispatching σ ν :=
  ⟨r.around, r.events, r.client.shutdownRequested, done⟩

/-- **A payload dispatched is a call of every listener, in the order of the roster**, up to one that
gives up. -/
theorem dispatch_hears (h : a.Matches r.client.listeners.entries (standing (.ok ()) r))
    (payload : String) :
    let dispatched := dispatch listen payload r
    ∃ told : List String, told <+: r.client.listeners.names ∧
      callsIn dispatched.1.events = callsIn r.events ++ told.map (⟨·, payload⟩) ∧
      (a.hearAll listen (told.map (⟨·, payload⟩))).Matches dispatched.1.client.listeners.entries
        (standing dispatched.2 dispatched.1) ∧
      (dispatched.2 = .ok () → told = r.client.listeners.names) ∧
      ∀ e, dispatched.2 = .error e → told ≠ [] :=
  walk_hears r.client.listeners.entries [] (standing (.ok ()) r) a r.client.listeners.nodup h rfl

end Client

end TapeReader.Feed

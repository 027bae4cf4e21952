import TapeReader.Proofs.Feed.Outcome

/-!
# What happens in a run, in order

* `Call`, `callsIn`: the listeners called in a run, each with its payload.
* `handed`: the messages handed to the line, whether it took them or not.
* `Stands`: every entry of a log stands where it may.
* `Client.Stage.result_keeps`: **what is kept as payloads are consumed holds when the loop is
  over.**
* `Client.runOn_closes`: what follows the loop is the closing of the line.
-/

namespace TapeReader.Feed

variable {η σ ν : Type}

/-- A listener called, with a payload. -/
structure Call where
  listener : String
  payload : String
deriving DecidableEq, Repr

def Event.call? : Event ν → Option Call
  | .delivered listener payload _ => some ⟨listener, payload⟩
  | _ => none

/-- The message that an event hands to the line. -/
def Event.handed? : Event ν → Option String
  | .sent message | .unsent message => some message
  | _ => none

/-- The calls of listeners, in order. -/
def callsIn (events : List (Event ν)) : List Call := events.filterMap Event.call?

/-- The messages handed to the line, in order. -/
def handed (events : List (Event ν)) : List String := events.filterMap Event.handed?

theorem callsIn_append (events more : List (Event ν)) :
    callsIn (events ++ more) = callsIn events ++ callsIn more := List.filterMap_append

theorem handed_append (events more : List (Event ν)) :
    handed (events ++ more) = handed events ++ handed more := List.filterMap_append

/-! ## Where events stand -/

/-- Every entry of a log stands where it may, after those before it. -/
def Stands {α : Type} (may : List α → α → Prop) (log : List α) : Prop :=
  ∀ before x after, log = before ++ x :: after → may before x

variable {α : Type} {may : List α → α → Prop} {log more : List α}

theorem stands_nil : Stands may [] := by
  intro before x after h
  simp at h

theorem Stands.append (h : Stands may log)
    (hmore : ∀ before x after, more = before ++ x :: after → may (log ++ before) x) :
    Stands may (log ++ more) := by
  intro before x after hsplit
  rcases List.append_eq_append_iff.1 hsplit with ⟨mid, rfl, hmid⟩ | ⟨mid, hlog, hmid⟩
  · exact hmore mid x after hmid
  · cases mid with
    | nil =>
      obtain rfl : before = log := by simpa using hlog.symm
      simpa using hmore [] x after (by simpa using hmid.symm)
    | cons y mid =>
      obtain ⟨rfl, -⟩ := List.cons.inj hmid
      exact h before x mid hlog

theorem Stands.concat (h : Stands may log) {x : α} (hx : may log x) : Stands may (log ++ [x]) := by
  refine h.append fun before y after hsplit => ?_
  cases before with
  | nil =>
    obtain ⟨rfl, -⟩ := List.cons.inj hsplit
    simpa using hx
  | cons z before => simp at hsplit

namespace Client

variable {m : AckMatcher} {secret payload : String} {listen : Listening η σ ν} {script : Script}
  {s : Stage η σ ν} {r : Run η σ ν} {c : Client η}

/-- Calls hand nothing to the line. -/
theorem handed_calls {calls : List (Event ν)}
    (h : ∀ e ∈ calls, ∃ name note, e = .delivered name payload note) : handed calls = [] := by
  refine List.filterMap_eq_nil_iff.2 fun e he => ?_
  obtain ⟨name, note, rfl⟩ := h e he
  rfl

/-! ## The end of the loop -/

/-- **What is kept as payloads are consumed holds when the loop is over.** -/
theorem Stage.result_keeps {Q : Run η σ ν → Prop} (hs : Sound m secret s.run) (hq : Q s.run)
    (hconsume : ∀ r payload, Sound m secret r → Q r →
      Q (consume listen script.outlet payload r).1)
    (hrequest : ∀ r : Run η σ ν, Q r → Q { r with client := r.client.requestShutdown }) :
    Q (s.result listen script).1 := by
  obtain ⟨frames, r, ⟨hs, hq⟩, hstops⟩ :=
    loop_stops listen script.outlet script.holdOpen
      (P := fun _ r => Sound m secret r ∧ Q r)
      (fun payload _ r ⟨hs, hq⟩ hgo => ⟨hs.consume hgo, hconsume r payload hs hq⟩)
      (fun _ r ⟨hs, hq⟩ => ⟨hs.requested, hrequest r hq⟩)
      s.reading s.frames s.run ⟨hs, hq⟩
  change Stops _ _ _ _ _ (s.result listen script) at hstops
  generalize s.result listen script = result at hstops ⊢
  cases hstops with
  | requested | exhausted | broken => exact hq
  | waited => exact hrequest r hq
  | consumed => exact hconsume r _ hs hq

/-- What follows the loop is the closing of the line, at most. -/
theorem runOn_closes (h : c.requireCredential = .ok secret) (listen : Listening η σ ν)
    (script : Script) (around : σ) :
    let result := (opening c secret script around).result listen script
    let report := c.runOn listen script around
    report.client = { result.1.client with state := report.client.state } ∧
      report.around = result.1.around ∧ report.ending = result.2.1 ∧
      report.framesLeft = result.2.2 ∧
      ∃ closing, report.events = result.1.events ++ closing ∧
        (closing = [] ∨ ∃ error, closing = [.closed error]) := by
  unfold runOn Stage.result opening started
  rw [h]
  dsimp only
  generalize loop listen script.outlet script.holdOpen false script.frames _ = result
  obtain ⟨r, ending, left⟩ := result
  cases ending with
  | finished | failed => exact ⟨rfl, rfl, rfl, rfl, _, rfl, Or.inr ⟨_, rfl⟩⟩
  | aborted | waiting => exact ⟨rfl, rfl, rfl, rfl, [], by simp, Or.inl rfl⟩

theorem credential_of_requireCredential (h : c.requireCredential = .ok secret) :
    c.credential.getD "" = secret := by
  unfold requireCredential at h
  split at h
  · rename_i key hkey
    split at h
    · simp at h
    · rw [hkey]
      exact Except.ok.inj h
  · simp at h

/-- Without a credential nothing happens. -/
theorem runOn_of_no_credential {e : FeedError} (h : c.requireCredential = .error e)
    (listen : Listening η σ ν) (script : Script) (around : σ) :
    c.runOn listen script around = ⟨c, around, [], .failed e, script.frames⟩ := by
  unfold runOn
  rw [h]

end Client

end TapeReader.Feed

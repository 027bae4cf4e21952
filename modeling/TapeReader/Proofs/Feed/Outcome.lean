import TapeReader.Feed.Listener
import TapeReader.Proofs.Feed.Ways

/-!
# The outcome of a run

* `Client.opening`: where the loop of a run begins.
* `runOn_report`: what the report makes of the loop.
* `runOn_outcome`: **a run ends in one way, and the way decides its result, its state and its error;
  the line is closed once, at the very end.**
-/

namespace TapeReader.Feed

namespace Client

variable {η σ ν : Type} {m : AckMatcher} {secret : String} {listen : Listening η σ ν}
  {script : Script} {way : Way} {r : Run η σ ν} {c : Client η} {around : σ}

/-- Where the loop of a run begins. -/
def opening (c : Client η) (secret : String) (script : Script) (around : σ) : Stage η σ ν :=
  ⟨false, script.frames, started c secret around⟩

theorem requireCredential_ok (h : c.credential = some secret) (hne : secret ≠ "") :
    c.requireCredential = .ok secret := by
  unfold requireCredential
  rw [h]
  dsimp only
  rw [if_neg hne]

/-- What the report makes of the loop: a run that fails leaves the client failed, and the line is
closed when a run is over, whatever comes of that. -/
theorem runOn_report (h : c.requireCredential = .ok secret) (listen : Listening η σ ν)
    (script : Script) (around : σ) :
    let result := (opening c secret script around).result listen script
    let report := c.runOn listen script around
    report.ending = result.2.1 ∧
      (result.2.1 = .finished → report.client = result.1.client) ∧
      (∀ e, result.2.1 = .failed e → report.client.state = .failed) ∧
      ((result.2.1 = .finished ∨ ∃ e, result.2.1 = .failed e) → ∀ closeError,
        c.runOn listen { script with closeError } around =
          { report with events := result.1.events ++ [.closed closeError] }) := by
  unfold runOn Stage.result opening started
  rw [h]
  dsimp only
  generalize loop listen script.outlet script.holdOpen false script.frames _ = result
  obtain ⟨r, ending, left⟩ := result
  cases ending with
  | finished => exact ⟨rfl, fun _ => rfl, nofun, fun _ _ => rfl⟩
  | failed e => exact ⟨rfl, nofun, fun _ _ => rfl, fun _ _ => rfl⟩
  | aborted a => exact ⟨rfl, nofun, nofun, by simp⟩
  | waiting => exact ⟨rfl, nofun, nofun, by simp⟩

/-- What a payload is rejected with is an error of authentication just for the second one. -/
theorem kind_afterAcks (n : ℕ) (payload : String) :
    (FeedError.rejected (.afterAcks n payload)).kind =
      if n = 1 then .authentication else .protocol := by
  match n with
  | 0 | 1 | n + 2 => rfl

theorem ending_eq_finished_iff : way.ending = .finished ↔
    way = .shutdown ∨ way = .closeAfterSubscribe ∨ way = .streamEnd := by
  cases way <;> simp [Way.ending]

/-- A run that finishes leaves the client as far as the exchange has come. -/
theorem Left.finished (h : Left m secret way r) (hway : way.ending = .finished) :
    r.client.state = (Handshake.after { secret, matcher := m } (reads r.events)).state ∧
      (way ≠ .shutdown → r.client.state = .subscribed) ∧ r.client.state ≠ .failed := by
  have hsound := h.sound hway
  have hstate : r.client.state = .afterAcks (reads r.events).length := by
    rw [hsound.state, hsound.handshake]
  refine ⟨?_, fun hshut => ?_, ?_⟩
  · rw [hstate, Handshake.after_of_acceptsAll hsound.accepted]
  · rw [hsound.state]
    exact hsound.subscribed_iff.2 (h.subscribed hway hshut)
  · rw [hstate]
    match (reads r.events).length with
    | 0 | 1 | 2 | n + 3 => simp [ConnectionState.afterAcks]

/-- A payload that does not acknowledge what is due is what the run is left for. -/
theorem Left.rejected (h : Left m secret way r) {k : ℕ} {payload : String}
    (hread : (reads r.events)[k]? = some payload) (haccepts : m.accepts k payload = false) :
    (reads r.events).length = k + 1 ∧ way = .rejection (.afterAcks k payload) := by
  rcases h.accepted with hall | ⟨payloads, last, hreads, hall, rfl⟩
  · simp [hall k payload hread] at haccepts
  · rw [hreads] at hread ⊢
    rcases Nat.lt_trichotomy k payloads.length with hlt | rfl | hgt
    · rw [List.getElem?_append_left hlt] at hread
      simp [hall k payload hread] at haccepts
    · rw [List.getElem?_concat_length, Option.some.injEq] at hread
      subst hread
      exact ⟨by simp, rfl⟩
    · rw [List.getElem?_eq_none (by simp; omega)] at hread
      simp at hread

/-- **The outcome of a run.** A client with a credential runs over a line, in whatever state earlier
runs have left it. The run is left in one way, and the way decides how it ends. When the run returns:
the line has been closed once, after all else, and what comes of the closing changes nothing but the
note of it; the run has failed just when the client is in the failed state; it has finished just when
shutdown was seen, when the client only subscribes and has done so, or when the stream ended after the
subscription, and the client's state is that of the exchange over the payloads read, subscribed but
for shutdown; a payload that does not acknowledge what is due is the last one read, and gives an error
of authentication if it is the second, and of the protocol if it is the first or third; and a stream
that ends before the subscription gives an error of the connection. -/
theorem runOn_outcome (hcredential : c.credential = some secret) (hne : secret ≠ "")
    (listen : Listening η σ ν) (script : Script) (around : σ) :
    let report := c.runOn listen script around
    let payloads := reads report.events
    let endedBy := (opening c secret script around).EndsBy c.matcher listen script
    (∃! way, endedBy way) ∧ (∀ way, endedBy way → report.ending = way.ending) ∧
    ((report.ending = .finished ∨ ∃ e, report.ending = .failed e) →
      (∃ before, report.events = before ++ [.closed script.closeError] ∧
        (∀ e ∈ before, e.isClosed = false) ∧
        ∀ closeError, c.runOn listen { script with closeError } around =
          { report with events := before ++ [.closed closeError] }) ∧
      ((∃ e, report.ending = .failed e) ↔ report.client.state = .failed) ∧
      (report.ending = .finished ↔
        endedBy .shutdown ∨ endedBy .closeAfterSubscribe ∨ endedBy .streamEnd) ∧
      (report.ending = .finished →
        report.client.state =
            (Handshake.after { secret, matcher := c.matcher } payloads).state ∧
          (¬ endedBy .shutdown → report.client.state = .subscribed)) ∧
      (∀ k payload, payloads[k]? = some payload → c.matcher.accepts k payload = false →
        payloads.length = k + 1 ∧ ∃ e, report.ending = .failed e ∧
          e.kind = if k = 1 then .authentication else .protocol) ∧
      (∀ state, endedBy (.cutOff state) →
        ∃ e, report.ending = .failed e ∧ e.kind = .connection)) := by
  intro report payloads endedBy
  have hstart : Sound c.matcher secret (opening c secret script around : Stage η σ ν).run :=
    sound_started c secret around
  obtain ⟨hending, hclient, hfailed, hcloses⟩ :=
    runOn_report (requireCredential_ok hcredential hne) listen script around
  obtain ⟨way, hended, hresult, hleft⟩ : ∃ way, (∀ way', endedBy way' ↔ way' = way) ∧ _ ∧ _ :=
    Stage.left_once hstart listen script
  have hway : report.ending = way.ending := hending.trans hresult
  have hall : ∀ way', endedBy way' → report.ending = way'.ending := fun way' h =>
    (hended way').1 h ▸ hway
  refine ⟨⟨way, (hended way).2 rfl, fun way' => (hended way').1⟩, hall, fun hreturns => ?_⟩
  have hcloses := hcloses (hending ▸ hreturns)
  have hevents : report.events = _ := congrArg Report.events (hcloses script.closeError)
  have hreads : payloads = reads ((opening c secret script around).result listen script).1.events := by
    show reads report.events = _
    rw [hevents, reads_concat]
    simp [Event.payload?]
  refine ⟨⟨_, hevents, hleft.notClosed, hcloses⟩, ?_, ?_, fun hfinished => ?_, ?_, ?_⟩
  · constructor
    · rintro ⟨e, he⟩
      exact hfailed e (hending ▸ he)
    · -- a run that finishes does not leave the client failed
      intro hstate
      refine hreturns.resolve_left fun hfinished => ?_
      have hnot := (hleft.finished (hway ▸ hfinished)).2.2
      rw [hclient (hending ▸ hfinished)] at hstate
      exact hnot hstate
  · rw [hway, ending_eq_finished_iff]
    simp only [hended, eq_comm]
  · obtain ⟨hstate, hsubscribed, -⟩ := hleft.finished (hway ▸ hfinished)
    rw [hclient (hending ▸ hfinished), hreads]
    exact ⟨hstate, fun hnot => hsubscribed fun hshut => hnot ((hended _).2 hshut.symm)⟩
  · intro k payload hread haccepts
    rw [hreads] at hread ⊢
    obtain ⟨hlast, rfl⟩ := hleft.rejected hread haccepts
    exact ⟨hlast, _, hway, kind_afterAcks k payload⟩
  · intro state hcut
    exact ⟨_, hall _ hcut, rfl⟩

/-- A client that an earlier run has left failed, over a line that is not closed without an error:
the credential is refused. -/
theorem runOn_outcome_refused :
    let script : Script := {
      frames := [.text "Connected Successfully", .text "auth_failed", .text "subscribed to: A.*"]
      closeError := some (.line (.reported "reset")) }
    let c : Client Listener := { config := {}, credential := some "key", state := .failed }
    let report := c.runOn Listener.listen script (Board.ofConfig {})
    c.credential = some "key" ∧ "key" ≠ "" ∧
      report.ending = .failed (.rejected (.unauthenticated "auth_failed")) ∧
      reads report.events = ["Connected Successfully", "auth_failed"] ∧
      report.client.state = .failed ∧
      ∃ e, report.ending = .failed e ∧ e.kind = .authentication := by
  intro script c report
  have hending : report.ending = .failed (.rejected (.unauthenticated "auth_failed")) := by
    decide +kernel
  have hreads : reads report.events = ["Connected Successfully", "auth_failed"] := by
    decide +kernel
  have hne : "key" ≠ "" := by decide
  obtain ⟨-, -, houtcome⟩ := runOn_outcome (show c.credential = some "key" from rfl) hne
    Listener.listen script (Board.ofConfig {})
  obtain ⟨-, hstate, -, -, hrejected, -⟩ := houtcome (Or.inr ⟨_, hending⟩)
  refine ⟨rfl, hne, hending, hreads, hstate.1 ⟨_, hending⟩, ?_⟩
  exact (hrejected 1 "auth_failed" (by rw [hreads]; rfl) (by decide +kernel)).2

end Client

end TapeReader.Feed

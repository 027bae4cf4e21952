import TapeReader.Error
import TapeReader.Proofs.Feed.Handshake

/-!
# The language of the exchange

An exchange gets payloads, and may be given up at any time.

* `Handshake.Move`, `Handshake.play`: payloads and failures, one after the other.
* `Handshake.Smooth`: no failure, and every payload acknowledges what is due.
* `Handshake.play_of_smooth`, `Handshake.play_of_not_smooth`: **an exchange is as far as its payloads
  have brought it, or it has failed for good.**
* `Handshake.language_of_exchange`: what each payload is answered, and what is subscribed.
-/

namespace TapeReader

/-- **The two control messages differ**, whatever the credential. -/
theorem authMessage_ne_subscribeMessage (secret : String) : authMessage secret ≠ subscribeMessage := by
  intro h
  have hauth : (authMessage secret).toList[11]? = some 'a' := by
    unfold authMessage controlMessage Json.compress
    rw [String.toList_ofList]
    rfl
  have hsubscribe : subscribeMessage.toList[11]? = some 's' := by decide +kernel
  rw [h, hsubscribe] at hauth
  cases hauth

namespace Handshake

/-- What is done to an exchange: a payload is consumed, or the exchange is given up. -/
inductive Move where
  | advance (payload : String)
  | fail
deriving DecidableEq, Repr

/-- The payload that a move brings. -/
def Move.payload? : Move → Option String
  | .advance payload => some payload
  | .fail => none

/-- The payloads that moves bring, in order. -/
def consumed (moves : List Move) : List String := moves.filterMap Move.payload?

/-- An exchange after a move. -/
def make (h : Handshake) : Move → Handshake
  | .advance payload => (h.advance payload).1
  | .fail => h.fail

/-- An exchange after some moves. -/
def play (h : Handshake) (moves : List Move) : Handshake := moves.foldl make h

/-- **Nothing has gone wrong**: the exchange has not been given up, and every payload acknowledges what
is due. -/
structure Smooth (m : AckMatcher) (moves : List Move) : Prop where
  not_failed : .fail ∉ moves
  acceptsAll : m.AcceptsAll (consumed moves)

variable {h : Handshake} {m : AckMatcher} {secret payload : String} {moves : List Move}

theorem play_concat (h : Handshake) (moves : List Move) (move : Move) :
    h.play (moves ++ [move]) = (h.play moves).make move := by
  simp [play]

theorem consumed_advance (moves : List Move) (payload : String) :
    consumed (moves ++ [.advance payload]) = consumed moves ++ [payload] := by
  simp [consumed, Move.payload?]

/-! ## One move -/

theorem smooth_nil (m : AckMatcher) : Smooth m [] := ⟨by simp, AckMatcher.acceptsAll_nil⟩

/-- A payload goes well when it acknowledges what is due. -/
theorem smooth_advance : Smooth m (moves ++ [.advance payload]) ↔
    Smooth m moves ∧ m.accepts (consumed moves).length payload = true := by
  constructor
  · rintro ⟨hfail, hall⟩
    rw [consumed_advance, AckMatcher.acceptsAll_concat] at hall
    exact ⟨⟨fun hmem => hfail (List.mem_append_left _ hmem), hall.1⟩, hall.2⟩
  · rintro ⟨⟨hfail, hall⟩, haccepts⟩
    refine ⟨by simpa using hfail, ?_⟩
    rw [consumed_advance]
    exact AckMatcher.acceptsAll_concat.2 ⟨hall, haccepts⟩

theorem not_smooth_fail : ¬ Smooth m (moves ++ [.fail]) := fun h => h.not_failed (by simp)

theorem make_of_failed (hs : h.state = .failed) (move : Move) : h.make move = h := by
  cases move with
  | advance payload => exact congrArg Prod.fst (advance_of_failed hs payload)
  | fail =>
    unfold make fail
    rw [← hs]

/-- **A failure is for good.** -/
theorem play_of_failed (hs : h.state = .failed) (moves : List Move) : h.play moves = h := by
  induction moves with
  | nil => rfl
  | cons move rest ih =>
    unfold play at ih ⊢
    rw [List.foldl_cons, make_of_failed hs, ih]

/-! ## All moves -/

/-- **An exchange of which nothing has gone wrong** has come as far as its payloads. -/
theorem play_of_smooth (hsmooth : Smooth m moves) : play { secret, matcher := m } moves =
    { secret, matcher := m, state := .afterAcks (consumed moves).length } := by
  induction moves using List.reverseRecOn with
  | nil => rfl
  | append_singleton moves move ih =>
    cases move with
    | fail => exact absurd hsmooth not_smooth_fail
    | advance payload =>
      obtain ⟨hbefore, haccepts⟩ := smooth_advance.1 hsmooth
      rw [play_concat, ih hbefore, consumed_advance, List.length_append, make, advance_at rfl,
        if_pos haccepts]
      rfl

/-- **An exchange of which something has gone wrong** has failed. -/
theorem play_of_not_smooth (hnot : ¬ Smooth m moves) : play { secret, matcher := m } moves =
    { secret, matcher := m, state := .failed } := by
  induction moves using List.reverseRecOn with
  | nil => exact absurd (smooth_nil m) hnot
  | append_singleton moves move ih =>
    rw [play_concat]
    by_cases hbefore : Smooth m moves
    · -- this move is the first that goes wrong
      rw [play_of_smooth hbefore]
      cases move with
      | fail => rfl
      | advance payload =>
        have hrejects := fun haccepts => hnot (smooth_advance.2 ⟨hbefore, haccepts⟩)
        rw [make, advance_at rfl, if_neg hrejects]
        rfl
    · rw [ih hbefore]
      exact make_of_failed rfl move

theorem play_state_eq_failed_iff :
    (play { secret, matcher := m } moves).state = .failed ↔ ¬ Smooth m moves := by
  constructor
  · intro hfailed hsmooth
    rw [play_of_smooth hsmooth] at hfailed
    match hn : (consumed moves).length with
    | 0 | 1 | 2 | n + 3 => simp [hn, ConnectionState.afterAcks] at hfailed
  · intro hnot
    rw [play_of_not_smooth hnot]

theorem play_state_eq_subscribed_iff : (play { secret, matcher := m } moves).state = .subscribed ↔
    .fail ∉ moves ∧ m.Subscribes (consumed moves) := by
  by_cases hsmooth : Smooth m moves
  · rw [play_of_smooth hsmooth, hsmooth.acceptsAll.subscribes_iff, and_iff_right hsmooth.not_failed]
    exact afterAcks_eq_subscribed_iff
  · rw [play_of_not_smooth hsmooth]
    refine iff_of_false (by simp) ?_
    rintro ⟨hfail, hsubscribes⟩
    exact hsmooth ⟨hfail, hsubscribes.acceptsAll⟩

/-- **A payload is answered by a step** just when it goes well, and the step is the one whose turn it
is. -/
theorem answer_eq_ok_iff {step : Step} :
    ((play { secret, matcher := m } moves).advance payload).2 = .ok step ↔
      Smooth m (moves ++ [.advance payload]) ∧
        step = .afterAcks secret (consumed moves).length := by
  rw [smooth_advance]
  by_cases hsmooth : Smooth m moves
  · rw [play_of_smooth hsmooth, advance_at rfl]
    by_cases haccepts : m.accepts (consumed moves).length payload = true
    · simp [haccepts, hsmooth, eq_comm]
    · simp [haccepts]
  · rw [play_of_not_smooth hsmooth, advance_of_failed rfl]
    simp [hsmooth]

/-- The step whose turn it is, by the number of acknowledgements. -/
theorem afterAcks_cases (secret : String) (n : ℕ) :
    (.reply (authMessage secret) = Step.afterAcks secret n ↔ n = 0) ∧
      (.reply subscribeMessage = Step.afterAcks secret n ↔ n = 1) ∧
      (.subscribed = Step.afterAcks secret n ↔ n = 2) ∧
      (.forward = Step.afterAcks secret n ↔ 3 ≤ n) := by
  have hne := authMessage_ne_subscribeMessage secret
  match n with
  | 0 | 1 | 2 | n + 3 => simp [Step.afterAcks, hne, hne.symm]

/-- **The exchange accepts its language, and nothing else.** A new exchange gets payloads, and is given
up at any time perhaps. It is subscribed just when it has not been given up and its first three payloads
have acknowledged the connection, the credential and the subscription. The first payload is replied to
with the credential, the second with the subscription, the third completes the exchange, those after it
are forwarded; and no payload gets any of these answers unless all before it have acknowledged what was
due, it does so too, and the exchange has not been given up. A payload that does not acknowledge what is
due is an error of protocol, of authentication, of protocol, as the first, the second, the third. The
exchange has failed just when this has happened or it has been given up; from then on nothing changes
it, and every payload is an error of protocol. -/
theorem language_of_exchange (secret : String) (m : AckMatcher) (moves : List Move) :
    let h := play { secret, matcher := m } moves
    let earlier := (consumed moves).length
    (h.state = .subscribed ↔ .fail ∉ moves ∧ m.Subscribes (consumed moves)) ∧
    (h.state = .failed ↔ ¬ Smooth m moves) ∧
    (∀ payload,
      let answer := (h.advance payload).2
      let smooth := Smooth m (moves ++ [.advance payload])
      (answer = .ok (.reply (authMessage secret)) ↔ smooth ∧ earlier = 0) ∧
      (answer = .ok (.reply subscribeMessage) ↔ smooth ∧ earlier = 1) ∧
      (answer = .ok .subscribed ↔ smooth ∧ earlier = 2) ∧
      (answer = .ok .forward ↔ smooth ∧ 3 ≤ earlier) ∧
      (∀ message, answer = .ok (.reply message) →
        message = authMessage secret ∨ message = subscribeMessage) ∧
      (Smooth m moves → m.accepts earlier payload = false → (h.advance payload).1 = h.fail ∧
        ∃ r, answer = .error r ∧ [ErrorKind.protocol, .authentication, .protocol][earlier]? =
          some (FeedError.rejected r).kind)) ∧
    (¬ Smooth m moves → (∀ more, h.play more = h) ∧
      ∀ payload, ∃ r, h.advance payload = (h, .error r) ∧
        (FeedError.rejected r).kind = .protocol) := by
  intro h earlier
  obtain ⟨hauth, hsubscribe, hsubscribed, hforward⟩ := afterAcks_cases secret earlier
  refine ⟨play_state_eq_subscribed_iff, play_state_eq_failed_iff, fun payload => ?_, fun hnot => ?_⟩
  · refine ⟨answer_eq_ok_iff.trans (and_congr_right' hauth),
      answer_eq_ok_iff.trans (and_congr_right' hsubscribe),
      answer_eq_ok_iff.trans (and_congr_right' hsubscribed),
      answer_eq_ok_iff.trans (and_congr_right' hforward), fun message hanswer => ?_,
      fun hsmooth hrejects => ?_⟩
    · have hturn : _ = Step.afterAcks secret earlier := (answer_eq_ok_iff.1 hanswer).2
      match earlier with
      | 0 => exact Or.inl (Step.reply.inj hturn)
      | 1 => exact Or.inr (Step.reply.inj hturn)
      | 2 | n + 3 => cases hturn
    · have hadvance : h.advance payload = (h.fail, .error (.afterAcks earlier payload)) := by
        simp only [h, play_of_smooth hsmooth]
        rw [advance_at rfl, if_neg (by simpa using hrejects)]
      rw [hadvance]
      refine ⟨rfl, _, rfl, ?_⟩
      match earlier, hrejects with
      | 0, _ | 1, _ | 2, _ => rfl
  · have hfailed : h.state = .failed := play_state_eq_failed_iff.2 hnot
    exact ⟨play_of_failed hfailed, fun payload => ⟨_, advance_of_failed hfailed payload, rfl⟩⟩

/-- A payload that carries every acknowledgement, three times: the exchange is done, and a credential
that is asked for again is forwarded. Given up after the first, it stays failed. -/
theorem language_of_exchange_substring :
    let every := "Connected Successfully, authenticated, subscribed to: A.*"
    let h₀ : Handshake := { secret := "key", matcher := .substring }
    let h := h₀.play [.advance every, .advance every, .advance every]
    let failed := h₀.play [.advance every, .fail]
    h.state = .subscribed ∧ (h.advance "authenticate").2 = .ok .forward ∧
      failed.state = .failed ∧ failed.play [.advance every, .advance every] = failed := by
  intro every h₀ h failed
  obtain ⟨hsubscribed, -, hanswers, -⟩ :=
    language_of_exchange "key" .substring [.advance every, .advance every, .advance every]
  obtain ⟨-, hfailed, -, hstays⟩ :=
    language_of_exchange "key" .substring [.advance every, .fail]
  have hnot : ¬ Smooth .substring [.advance every, .fail] :=
    fun h => h.not_failed (by simp)
  have hdone : AckMatcher.Subscribes .substring (consumed [.advance every, .advance every,
      .advance every]) := by decide +kernel
  have hsmooth : Smooth .substring ([.advance every, .advance every, .advance every] ++
      [.advance "authenticate"]) :=
    smooth_advance.2 ⟨⟨by simp, hdone.acceptsAll⟩, rfl⟩
  exact ⟨hsubscribed.2 ⟨by simp, hdone⟩, (hanswers "authenticate").2.2.2.1.2 ⟨hsmooth, le_rfl⟩,
    hfailed.2 hnot, (hstays hnot).1 _⟩

end Handshake

end TapeReader

import Mathlib
import TapeReader.Feed.Handshake

/-!
# The exchange over a sequence of payloads

* `AckMatcher.Subscribes`: three payloads acknowledge the connection, the credential and the
  subscription.
* `AckMatcher.streamed`: the payloads that come after the subscription.
* `Handshake.after`: the exchange after some payloads.
* `AckMatcher.accepts`, `advance_at`: **an exchange as far as it has come, and what the next payload
  comes to**, by the number of payloads that have acknowledged.
* `after_state_eq_subscribed_iff`: **the exchange is done once its first three payloads have
  acknowledged, and not before.**
-/

namespace TapeReader

namespace AckMatcher

/-- The first three payloads acknowledge the connection, the credential and the subscription. -/
def Subscribes (m : AckMatcher) : List String → Prop
  | connected :: authenticated :: subscribed :: _ =>
    m.isConnected connected ∧ m.isAuthenticated authenticated ∧ m.isSubscribed subscribed
  | _ => False

instance (m : AckMatcher) (payloads : List String) : Decidable (m.Subscribes payloads) :=
  match payloads with
  | _ :: _ :: _ :: _ => inferInstanceAs (Decidable (_ ∧ _))
  | [] | [_] | [_, _] => inferInstanceAs (Decidable False)

/-- The payloads after the subscription was acknowledged. -/
def streamed (m : AckMatcher) (payloads : List String) : List String :=
  if m.Subscribes payloads then payloads.drop 3 else []

variable {m : AckMatcher} {payloads : List String}

theorem Subscribes.length (h : m.Subscribes payloads) : 3 ≤ payloads.length := by
  match payloads with
  | _ :: _ :: _ :: _ => simp
  | [] | [_] | [_, _] => exact h.elim

theorem subscribes_append (hlen : 3 ≤ payloads.length) (more : List String) :
    m.Subscribes (payloads ++ more) ↔ m.Subscribes payloads := by
  match payloads with
  | _ :: _ :: _ :: _ => exact Iff.rfl
  | [] | [_] | [_, _] => simp at hlen

/-- A payload after the subscription is streamed. -/
theorem streamed_concat_of_subscribes (h : m.Subscribes payloads) (payload : String) :
    m.streamed (payloads ++ [payload]) = m.streamed payloads ++ [payload] := by
  unfold streamed
  rw [if_pos ((subscribes_append h.length _).2 h), if_pos h, List.drop_append_of_le_length h.length]

/-- A payload of the exchange is not. -/
theorem streamed_concat_of_not_subscribes (h : ¬ m.Subscribes payloads) (payload : String) :
    m.streamed (payloads ++ [payload]) = [] := by
  unfold streamed
  split
  · rename_i hnew
    by_cases hlen : 3 ≤ payloads.length
    · exact absurd ((subscribes_append hlen _).1 hnew) h
    · exact List.drop_eq_nil_of_le (by simp; omega)
  · rfl

end AckMatcher

namespace Handshake

/-- The exchange after some payloads. -/
def after (h : Handshake) (payloads : List String) : Handshake :=
  payloads.foldl (fun h payload => (h.advance payload).1) h

variable {h : Handshake} {m : AckMatcher} {secret : String}

theorem after_concat (h : Handshake) (payloads : List String) (payload : String) :
    h.after (payloads ++ [payload]) = ((h.after payloads).advance payload).1 := by
  simp [after]

theorem advance_of_subscribed (hs : h.state = .subscribed) (payload : String) :
    h.advance payload = (h, .ok .forward) := by
  simp [advance, hs]

/-- An exchange that has failed refuses every payload, and stays as it is. -/
theorem advance_of_failed (hs : h.state = .failed) (payload : String) :
    h.advance payload = (h, .error .afterFailure) := by
  simp [advance, hs]

/-- What a payload comes to before the exchange is done: the subscription, or a reply or a rejection
with the exchange still not done. -/
theorem advance_cases (hs : h.state ≠ .subscribed) (payload : String) :
    (h.advance payload).2 = .ok .subscribed ∨ (h.advance payload).1.state ≠ .subscribed ∧
      ((∃ message, (h.advance payload).2 = .ok (.reply message)) ∨
        ∃ rejection, (h.advance payload).2 = .error rejection) := by
  unfold advance
  cases hstate : h.state with
  | subscribed => exact absurd hstate hs
  | failed => exact Or.inr ⟨by simp [hstate], Or.inr ⟨_, rfl⟩⟩
  | init =>
    refine Or.inr ?_
    dsimp only
    split
    · exact ⟨by simp, Or.inl ⟨_, rfl⟩⟩
    · exact ⟨by simp [fail], Or.inr ⟨_, rfl⟩⟩
  | connected =>
    refine Or.inr ?_
    dsimp only
    split
    · exact ⟨by simp, Or.inl ⟨_, rfl⟩⟩
    · exact ⟨by simp [fail], Or.inr ⟨_, rfl⟩⟩
  | authenticated =>
    dsimp only
    split
    · exact Or.inl rfl
    · exact Or.inr ⟨by simp [fail], Or.inr ⟨_, rfl⟩⟩

end Handshake

/-! ## By the number of acknowledgements -/

/-- Whether a payload acknowledges what is due when `n` payloads have acknowledged. Nothing is due
after the subscription. -/
def AckMatcher.accepts (m : AckMatcher) : ℕ → String → Bool
  | 0 => m.isConnected
  | 1 => m.isAuthenticated
  | 2 => m.isSubscribed
  | _ => fun _ => true

/-- Every payload acknowledges what is due. -/
def AckMatcher.AcceptsAll (m : AckMatcher) (payloads : List String) : Prop :=
  ∀ k payload, payloads[k]? = some payload → m.accepts k payload = true

/-- The state when `n` payloads have acknowledged. -/
def ConnectionState.afterAcks : ℕ → ConnectionState
  | 0 => .init
  | 1 => .connected
  | 2 => .authenticated
  | _ => .subscribed

/-- What a payload is rejected with when `n` payloads have acknowledged. -/
def Rejection.afterAcks : ℕ → String → Rejection
  | 1, payload => .unauthenticated payload
  | _, payload => .unexpected payload

/-- What is to be done when a payload acknowledges after `n` others. -/
def Step.afterAcks (secret : String) : ℕ → Step
  | 0 => .reply (authMessage secret)
  | 1 => .reply subscribeMessage
  | 2 => .subscribed
  | _ => .forward

namespace AckMatcher

variable {m : AckMatcher} {payloads : List String} {payload : String}

theorem acceptsAll_nil : m.AcceptsAll [] := by simp [AcceptsAll]

theorem acceptsAll_concat : m.AcceptsAll (payloads ++ [payload]) ↔
    m.AcceptsAll payloads ∧ m.accepts payloads.length payload = true := by
  constructor
  · intro h
    refine ⟨fun k p hk => h k p ?_, h payloads.length payload (by simp)⟩
    rw [List.getElem?_append_left (List.getElem?_eq_some_iff.1 hk).1, hk]
  · rintro ⟨hall, hlast⟩ k p hk
    rcases Nat.lt_trichotomy k payloads.length with hlt | rfl | hgt
    · rw [List.getElem?_append_left hlt] at hk
      exact hall k p hk
    · rw [List.getElem?_concat_length, Option.some.injEq] at hk
      exact hk ▸ hlast
    · rw [List.getElem?_eq_none (by simp; omega)] at hk
      simp at hk

/-- Nothing is due after the subscription. -/
theorem Subscribes.acceptsAll (h : m.Subscribes payloads) : m.AcceptsAll payloads := by
  match payloads, h with
  | _ :: _ :: _ :: _, ⟨hc, ha, hs⟩ =>
    intro k payload hk
    match k, hk with
    | 0, rfl => exact hc
    | 1, rfl => exact ha
    | 2, rfl => exact hs
    | k + 3, _ => rfl

/-- The subscription has been acknowledged when three payloads have acknowledged. -/
theorem AcceptsAll.subscribes_iff (h : m.AcceptsAll payloads) :
    m.Subscribes payloads ↔ 3 ≤ payloads.length := by
  constructor
  · exact Subscribes.length
  · intro hlen
    match payloads, h with
    | connected :: authenticated :: subscribed :: _, h =>
      exact ⟨h 0 connected rfl, h 1 authenticated rfl, h 2 subscribed rfl⟩
    | [], _ | [_], _ | [_, _], _ => simp at hlen

end AckMatcher

namespace Handshake

variable {h : Handshake} {m : AckMatcher} {secret : String}

/-- **What a payload comes to**: it acknowledges what is due, or it fails the exchange. -/
theorem advance_at {n : ℕ} (hs : h.state = .afterAcks n) (payload : String) :
    h.advance payload =
      if h.matcher.accepts n payload then
        ({ h with state := .afterAcks (n + 1) }, .ok (.afterAcks h.secret n))
      else (h.fail, .error (.afterAcks n payload)) := by
  unfold advance
  match n with
  | 0 | 1 | 2 => rw [hs]; rfl
  | n + 3 =>
    rw [hs]
    have hself : ({ h with state := .subscribed } : Handshake) = h := by
      rw [← show h.state = .subscribed from hs]
    simp only [AckMatcher.accepts, if_true, ConnectionState.afterAcks, hself]
    rfl

/-- **An exchange as far as it has come**, when every payload has acknowledged. -/
theorem after_of_acceptsAll {payloads : List String} (h : m.AcceptsAll payloads) :
    after { secret, matcher := m } payloads =
      { secret, matcher := m, state := .afterAcks payloads.length } := by
  induction payloads using List.reverseRecOn with
  | nil => rfl
  | append_singleton payloads payload ih =>
    obtain ⟨hall, hlast⟩ := AckMatcher.acceptsAll_concat.1 h
    rw [after_concat, ih hall, advance_at rfl, if_pos hlast, List.length_append]
    rfl

/-- An exchange fails for good when a payload does not acknowledge. -/
theorem after_of_not_acceptsAll {payloads : List String} (h : ¬ m.AcceptsAll payloads) :
    (after { secret, matcher := m } payloads).state = .failed := by
  induction payloads using List.reverseRecOn with
  | nil => exact absurd AckMatcher.acceptsAll_nil h
  | append_singleton payloads payload ih =>
    rw [after_concat]
    by_cases hall : m.AcceptsAll payloads
    · have hrejects := fun haccepts => h (AckMatcher.acceptsAll_concat.2 ⟨hall, haccepts⟩)
      rw [after_of_acceptsAll hall, advance_at rfl, if_neg hrejects]
      rfl
    · rw [advance_of_failed (ih hall)]
      exact ih hall

theorem afterAcks_eq_subscribed_iff {n : ℕ} :
    ConnectionState.afterAcks n = .subscribed ↔ 3 ≤ n := by
  match n with
  | 0 | 1 | 2 | n + 3 => simp [ConnectionState.afterAcks]

/-- **The exchange is done once its first three payloads have acknowledged**, and not before. -/
theorem after_state_eq_subscribed_iff (secret : String) (m : AckMatcher)
    (payloads : List String) :
    (after { secret, matcher := m } payloads).state = .subscribed ↔ m.Subscribes payloads := by
  by_cases hall : m.AcceptsAll payloads
  · rw [after_of_acceptsAll hall, hall.subscribes_iff]
    exact afterAcks_eq_subscribed_iff
  · rw [after_of_not_acceptsAll hall]
    exact iff_of_false (by simp) fun hsubscribes => hall hsubscribes.acceptsAll

end Handshake

end TapeReader

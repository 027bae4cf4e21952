import TapeReader.Feed.Handshake
import TapeReader.Proofs.Json.Layout

/-!
# The credential in its message

* `controlMessage_chars`: a control message is two quoted names with two quoted values.
* `authMessage_sealed`: **the message that carries a credential is one JSON text of just two members**,
  whatever the credential, and gives the credential back.
-/

namespace TapeReader

open Json

/-- The characters of a control message. -/
theorem controlMessage_chars (action params : String) : (controlMessage action params).toList =
    '{' :: (quote "action" ++ ':' :: (quote action ++
      ',' :: (quote "params" ++ ':' :: (quote params ++ ['}'])))) := by
  simp [controlMessage, compress, compressChars, compressMembers]

/-- A control message has no control character, so no line break either. -/
theorem not_control_controlMessage (action params : String) :
    ∀ c ∈ (controlMessage action params).toList, ¬ c < ' ' := by
  intro c hc
  simp only [controlMessage_chars, List.mem_cons, List.mem_append, List.not_mem_nil, or_false] at hc
  rcases hc with rfl | hc | rfl | hc | rfl | hc | rfl | hc | rfl
  · decide
  · exact not_control_quote _ c hc
  · decide
  · exact not_control_quote _ c hc
  · decide
  · exact not_control_quote _ c hc
  · decide
  · exact not_control_quote _ c hc
  · decide

/-- **A control message is read** as an object of its action and its parameters. -/
theorem parse?_controlMessage (action params : String) : parse? (controlMessage action params) =
    some (.object [("action", .string action), ("params", .string params)]) :=
  parse?_compress ⟨trivial, trivial, trivial⟩

theorem ofText?_controlMessage (action params : String) : ofText? (controlMessage action params) =
    some (.object [("action", .string action), ("params", .string params)]) := by
  rw [ofText?, parse?_controlMessage]
  rfl

/-- **No credential breaks out of its message.** Whatever the credential, the message that carries it is
one JSON text without control characters, of an object that has the action and the credential, in this
order and nothing besides. So different credentials have different messages. -/
theorem authMessage_sealed (secret : String) :
    let carried : Json := .object [("action", .string "auth"), ("params", .string secret)]
    (∀ c ∈ (authMessage secret).toList, ¬ c < ' ') ∧
      parse? (authMessage secret) = some carried ∧
      ofText? (authMessage secret) = some carried ∧
      ∀ other, authMessage other = authMessage secret → other = secret := by
  intro carried
  refine ⟨not_control_controlMessage "auth" secret, parse?_controlMessage "auth" secret,
    ofText?_controlMessage "auth" secret, fun other hsame => ?_⟩
  -- one text has one value, and the credential can be read off it
  have hother := parse?_controlMessage "auth" other
  have hread := parse?_controlMessage "auth" secret
  unfold authMessage at hsame
  rw [hsame, hread] at hother
  simp only [Option.some.injEq, Json.object.injEq, List.cons.injEq, Prod.mk.injEq, Json.string.injEq,
    and_true, true_and] at hother
  exact hother.symm

end TapeReader

import TapeReader.Proofs.Feed.Events

/-!
# Control traffic

* `controlMessages`: the two messages of the exchange, in order.
* `AckMatcher.acknowledged`: how many payloads acknowledge what is due.
* `Client.HandedAfter`: what has happened when a message is handed to the line.
* `Client.Controlled.consume`: a payload consumed hands over what it has to, and nothing else.
* `Client.runOn_control`: **what a run hands to the line is a prefix of the two messages, each right
  after the acknowledgement that it answers.**
-/

namespace TapeReader

namespace AckMatcher

variable {m : AckMatcher} {payloads : List String} {payload : String}

/-- How many payloads acknowledge what is due, up to the first that does not. -/
def acknowledged (m : AckMatcher) (payloads : List String) : ℕ :=
  (payloads.zipIdx.takeWhile fun (payload, k) => m.accepts k payload).length

theorem acceptsAll_iff_zipIdx :
    m.AcceptsAll payloads ↔ ∀ x ∈ payloads.zipIdx, m.accepts x.2 x.1 = true := by
  constructor
  · intro h x hx
    exact h x.2 x.1 (List.mem_zipIdx_iff_getElem?.1 hx)
  · intro h k payload hk
    exact h (payload, k) (List.mem_zipIdx_iff_getElem?.2 hk)

theorem AcceptsAll.acknowledged (h : m.AcceptsAll payloads) :
    m.acknowledged payloads = payloads.length := by
  have hall : payloads.zipIdx.takeWhile (fun (payload, k) => m.accepts k payload) =
      payloads.zipIdx := List.takeWhile_eq_self_iff.2 (acceptsAll_iff_zipIdx.1 h)
  unfold AckMatcher.acknowledged
  rw [hall, List.length_zipIdx]

/-- A payload that does not acknowledge what is due does not count. -/
theorem AcceptsAll.acknowledged_concat (h : m.AcceptsAll payloads)
    (hrejects : m.accepts payloads.length payload = false) :
    m.acknowledged (payloads ++ [payload]) = payloads.length := by
  have hall := acceptsAll_iff_zipIdx.1 h
  unfold AckMatcher.acknowledged
  rw [List.zipIdx_append, List.takeWhile_append_of_pos (by simpa using hall)]
  simp [hrejects]

end AckMatcher

namespace Feed

/-- The messages of the exchange, in order. -/
def controlMessages (secret : String) : List String := [authMessage secret, subscribeMessage]

/-- An acknowledgement is replied to with the message that is its turn. -/
theorem reply_iff {secret message : String} {n : ℕ} :
    Step.afterAcks secret n = .reply message ↔ (controlMessages secret)[n]? = some message := by
  match n with
  | 0 | 1 => simp [Step.afterAcks, controlMessages]
  | 2 | n + 3 => simp [Step.afterAcks, controlMessages]

namespace Client

variable {η σ ν : Type} {m : AckMatcher} {secret payload : String} {listen : Listening η σ ν}
  {outlet : Outlet} {r : Run η σ ν}

/-- What has happened when a message is handed to the line: a payload has just been read, it
acknowledges what was due, as those before it do, and it is the message's turn. -/
def HandedAfter (m : AckMatcher) (secret : String) (before : List (Event ν)) (e : Event ν) : Prop :=
  ∀ message, e.handed? = some message → ∃ earlier payload, before = earlier ++ [.read payload] ∧
    m.AcceptsAll (reads earlier ++ [payload]) ∧
    (controlMessages secret)[(reads earlier).length]? = some message

theorem handedAfter_of_none {before : List (Event ν)} {e : Event ν} (h : e.handed? = none) :
    HandedAfter m secret before e := by
  intro message hmessage
  rw [h] at hmessage
  simp at hmessage

/-- A run has handed over the messages that the payloads read have called for, each in its place. -/
structure Controlled (m : AckMatcher) (secret : String) (r : Run η σ ν) : Prop where
  handed : handed r.events = (controlMessages secret).take (m.acknowledged (reads r.events))
  stands : Stands (HandedAfter m secret) r.events

theorem controlled_started (c : Client η) (secret : String) (around : σ) :
    Controlled c.matcher secret (started c secret around : Run η σ ν) :=
  ⟨rfl, stands_nil⟩

/-- A payload read is no message. -/
theorem Controlled.taken (hs : Sound m secret r) (h : Controlled m secret r) (payload : String) :
    Feed.handed (taken r payload).events =
        (controlMessages secret).take (reads r.events).length ∧
      Stands (HandedAfter m secret) (Client.taken r payload).events := by
  constructor
  · rw [← hs.accepted.acknowledged, ← h.handed]
    exact (handed_append r.events [.read payload]).trans (List.append_nil _)
  · exact h.stands.concat (handedAfter_of_none rfl)

/-- A message handed over in its turn. -/
theorem Controlled.reply (hs : Sound m secret r) (h : Controlled m secret r)
    (haccepts : m.accepts (reads r.events).length payload = true) {message : String}
    (hreply : Step.afterAcks secret (reads r.events).length = .reply message) {e : Event ν}
    (he : e.handed? = some message) (hread : e.payload? = none) :
    Controlled m secret (note (Client.taken r payload) e) := by
  obtain ⟨hhanded, hstands⟩ := Controlled.taken hs h payload
  have hall : m.AcceptsAll (reads r.events ++ [payload]) :=
    AckMatcher.acceptsAll_concat.2 ⟨hs.accepted, haccepts⟩
  have hreads : reads (note (Client.taken r payload) e).events = reads r.events ++ [payload] := by
    have hnote : reads (note (Client.taken r payload) e).events =
        reads (Client.taken r payload).events ++ e.payload?.toList := reads_concat _ e
    rw [hnote, hread, taken_reads, Option.toList_none, List.append_nil]
  have hturn := reply_iff.1 hreply
  constructor
  · have hnote : Feed.handed (note (Client.taken r payload) e).events =
        Feed.handed (Client.taken r payload).events ++ Feed.handed [e] := handed_append _ [e]
    have hmessage : Feed.handed [e] = [message] := by simp [Feed.handed, he]
    rw [hreads, hall.acknowledged, hnote, hhanded, hmessage, List.length_append,
      List.length_singleton, List.take_add_one, hturn]
    rfl
  · refine hstands.concat fun message' hmessage' => ⟨r.events, payload, rfl, hall, ?_⟩
    rw [he, Option.some.injEq] at hmessage'
    exact hmessage' ▸ hturn

/-- When three payloads have acknowledged there is nothing more to hand over. -/
theorem Controlled.quiet (hs : Sound m secret r) (h : Controlled m secret r)
    (hdone : 2 ≤ (reads r.events).length)
    (haccepts : m.accepts (reads r.events).length payload = true) {r' : Run η σ ν}
    {calls : List (Event ν)} (hevents : r'.events = (Client.taken r payload).events ++ calls)
    (hcalls : ∀ e ∈ calls, ∃ name note, e = .delivered name payload note) :
    Controlled m secret r' := by
  obtain ⟨hhanded, hstands⟩ := Controlled.taken hs h payload
  have hnone := handed_calls hcalls
  have hall : m.AcceptsAll (reads r.events ++ [payload]) :=
    AckMatcher.acceptsAll_concat.2 ⟨hs.accepted, haccepts⟩
  have hreads : reads r'.events = reads r.events ++ [payload] := by
    rw [hevents, reads_append, reads_calls hcalls, taken_reads, List.append_nil]
  have htake : ∀ n, 2 ≤ n → (controlMessages secret).take n = controlMessages secret :=
    fun n hn => List.take_of_length_le hn
  constructor
  · rw [hreads, hall.acknowledged, hevents, handed_append, hnone, hhanded, List.append_nil,
      List.length_append, htake _ hdone, htake _ (by omega)]
  · rw [hevents]
    refine hstands.append fun before e after hsplit => ?_
    obtain ⟨name, note, rfl⟩ := hcalls e (by simp [hsplit])
    exact handedAfter_of_none rfl

/-- **A payload consumed hands over what it has to**, and nothing else. -/
theorem Controlled.consume (hs : Sound m secret r) (h : Controlled m secret r)
    (listen : Listening η σ ν) (outlet : Outlet) (payload : String) :
    Controlled m secret (Client.consume listen outlet payload r).1 := by
  have hconsumed := hs.toKept.consumed listen outlet payload
  generalize Client.consume listen outlet payload r = result at hconsumed ⊢
  cases hconsumed with
  | rejected haccepts =>
    obtain ⟨hhanded, hstands⟩ := Controlled.taken hs h payload
    refine ⟨?_, hstands⟩
    rw [hhanded, taken_reads, hs.accepted.acknowledged_concat haccepts]
  | @replied message haccepts hreply =>
    have hsent : Controlled m secret (note (Client.taken r payload) (.sent message)) :=
      h.reply hs haccepts hreply rfl rfl
    exact ⟨hsent.handed, hsent.stands⟩
  | refused haccepts hreply => exact h.reply hs haccepts hreply rfl rfl
  | subscribed haccepts hthird =>
    have htaken : Controlled m secret (Client.taken r payload) :=
      h.quiet hs hthird.ge (hthird ▸ haccepts) (List.append_nil _).symm (by simp)
    exact ⟨htaken.handed, htaken.stands⟩
  | streamed hstreamed hdispatch =>
    obtain ⟨calls, hevents, hcalls⟩ := dispatch_events listen payload (Client.taken r payload)
    rw [hdispatch] at hevents
    obtain ⟨hhanded, hstands⟩ := h.quiet hs (by omega) (accepts_of_streamed hstreamed payload)
      hevents hcalls
    exact ⟨hhanded, hstands⟩
  | givenUp hstreamed hdispatch =>
    obtain ⟨calls, hevents, hcalls⟩ := dispatch_events listen payload (Client.taken r payload)
    rw [hdispatch] at hevents
    exact h.quiet hs (by omega) (accepts_of_streamed hstreamed payload) hevents hcalls

/-- The closing of the line hands nothing over. -/
theorem Controlled.closed (h : Controlled m secret r) {events closing : List (Event ν)}
    (hevents : events = r.events ++ closing) (hclosing : closing = [] ∨ ∃ error, closing = [.closed error]) :
    Feed.handed events = (controlMessages secret).take (m.acknowledged (reads events)) ∧
      Stands (HandedAfter m secret) events := by
  rcases hclosing with rfl | ⟨_, rfl⟩
  · rw [hevents, List.append_nil]
    exact ⟨h.handed, h.stands⟩
  · have hhanded : Feed.handed events = Feed.handed r.events := by
      rw [hevents, handed_append]
      exact List.append_nil _
    have hreads : reads events = reads r.events := by
      rw [hevents, reads_append]
      exact List.append_nil _
    refine ⟨by rw [hhanded, hreads, h.handed], ?_⟩
    rw [hevents]
    exact h.stands.concat (handedAfter_of_none rfl)

/-- The first message answers the first payload, and the second one the second. -/
theorem HandedAfter.cases {before : List (Event ν)} {e : Event ν} {message : String}
    (h : HandedAfter m secret before e) (he : e.handed? = some message) :
    ∃ earlier payload, before = earlier ++ [.read payload] ∧
      (reads earlier = [] ∧ m.isConnected payload = true ∧ message = authMessage secret ∨
        ∃ greeting, reads earlier = [greeting] ∧ m.isConnected greeting = true ∧
          m.isAuthenticated payload = true ∧ message = subscribeMessage) := by
  obtain ⟨earlier, payload, hbefore, hall, hturn⟩ := h message he
  refine ⟨earlier, payload, hbefore, ?_⟩
  match hreads : reads earlier with
  | [] =>
    rw [hreads] at hall hturn
    exact Or.inl ⟨rfl, hall 0 payload rfl, (Option.some.inj hturn).symm⟩
  | [greeting] =>
    rw [hreads] at hall hturn
    exact Or.inr ⟨greeting, rfl, hall 0 greeting rfl, hall 1 payload rfl,
      (Option.some.inj hturn).symm⟩
  | _ :: _ :: _ =>
    rw [hreads] at hturn
    simp [controlMessages] at hturn

/-- **Control traffic is bounded and gated.** What a run hands to the line, taken or not, is a
prefix of the two control messages, and just as long as payloads acknowledge what is due. The
message with the credential is handed over only when the first payload has just been read and
acknowledges the connection, the other one only when the second payload has just been read and
acknowledges the credential. When three payloads have been read nothing is handed over any more,
whatever comes. -/
theorem runOn_control (c : Client η) (listen : Listening η σ ν) (script : Script) (around : σ) :
    let report := c.runOn listen script around
    let secret := c.credential.getD ""
    handed report.events <+: [authMessage secret, subscribeMessage] ∧
    handed report.events = [authMessage secret, subscribeMessage].take
      (c.matcher.acknowledged (reads report.events)) ∧
    (∀ before e message after, report.events = before ++ e :: after → e.handed? = some message →
      ∃ earlier payload, before = earlier ++ [.read payload] ∧
        (reads earlier = [] ∧ c.matcher.isConnected payload = true ∧ message = authMessage secret ∨
          ∃ greeting, reads earlier = [greeting] ∧ c.matcher.isConnected greeting = true ∧
            c.matcher.isAuthenticated payload = true ∧ message = subscribeMessage)) ∧
    (∀ before after, report.events = before ++ after → 3 ≤ (reads before).length →
      handed after = []) := by
  intro report secret
  obtain ⟨hhanded, hstands⟩ : handed report.events =
      (controlMessages secret).take (c.matcher.acknowledged (reads report.events)) ∧
        Stands (HandedAfter c.matcher secret) report.events := by
    cases hcred : c.requireCredential with
    | error e =>
      have hreport : report = ⟨c, around, [], .failed e, script.frames⟩ :=
        runOn_of_no_credential hcred listen script around
      rw [hreport]
      exact ⟨rfl, stands_nil⟩
    | ok key =>
      obtain rfl : secret = key := credential_of_requireCredential hcred
      have hresult : Controlled c.matcher secret
          ((opening c secret script around).result listen script).1 :=
        Stage.result_keeps (sound_started c secret around) (controlled_started c secret around)
          (fun r payload hs h => h.consume hs listen script.outlet payload)
          (fun r h => ⟨h.handed, h.stands⟩)
      obtain ⟨-, -, -, -, closing, hevents, hclosing⟩ := runOn_closes hcred listen script around
      exact hresult.closed hevents hclosing
  have hplace : ∀ before e message after, report.events = before ++ e :: after →
      e.handed? = some message → _ :=
    fun before e message after hsplit he => (hstands before e after hsplit).cases he
  refine ⟨hhanded ▸ List.take_prefix _ _, hhanded, hplace, fun before after hsplit hlate => ?_⟩
  -- a message among the last events would stand after three payloads
  refine List.filterMap_eq_nil_iff.2 fun e he => ?_
  by_contra hmessage
  obtain ⟨message, hmessage⟩ := Option.ne_none_iff_exists'.1 hmessage
  obtain ⟨between, rest, rfl⟩ := List.append_of_mem he
  obtain ⟨earlier, payload, hbefore, hreads⟩ := hplace (before ++ between) e message rest
    (by rw [hsplit, List.append_assoc]) hmessage
  have hlength : (reads earlier).length ≤ 1 := by
    rcases hreads with ⟨hreads, -⟩ | ⟨greeting, hreads, -⟩ <;> simp [hreads]
  have hcount : (reads (before ++ between)).length = (reads earlier).length + 1 := by
    rw [hbefore, reads_append, List.length_append]
    rfl
  rw [reads_append, List.length_append] at hcount
  omega

end Client

end Feed

end TapeReader

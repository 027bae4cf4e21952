import TapeReader.Proofs.Feed.Sound

/-!
# The ways in which a run ends

* `Stage`: where the loop of a run stands; `GoesOn`: what takes it one frame further.
* `Way`, `Leaves`: the ways out of the loop, each with what has to be the case for it.
* `Leaves.result`: what each way comes to.
* `Stage.left_once`: **every run ends, and in one way only.**
-/

namespace TapeReader.Feed

namespace Client

variable {η σ ν : Type}

/-- Where the loop of a run stands, with a reading under way or not. -/
structure Stage (η σ ν : Type) where
  reading : Bool
  frames : List Frame
  run : Run η σ ν

namespace Stage

/-- The payloads read so far. -/
def read (s : Stage η σ ν) : List String := reads s.run.events

/-- Shutdown has been requested, and is looked at: before a reading of the line, or while the line
waits. -/
def ShutDown (script : Script) (s : Stage η σ ν) : Prop :=
  (s.run.client.shutdownRequested = true ∧
    (s.reading = false ∨ s.frames = [] ∧ script.holdOpen = true)) ∨
    ∃ rest, s.frames = .shutdown true :: rest

/-- The peer has closed the stream. -/
def StreamEnds (script : Script) (s : Stage η σ ν) : Prop :=
  s.frames = [] ∧ script.holdOpen = false ∨ ∃ rest, s.frames = .ending :: rest

/-- The loop from this stage on. -/
def result (listen : Listening η σ ν) (script : Script) (s : Stage η σ ν) :
    Run η σ ν × Ending × List Frame :=
  loop listen script.outlet script.holdOpen s.reading s.frames s.run

end Stage

/-- A way out of the loop. -/
inductive Way where
  | shutdown
  | closeAfterSubscribe
  /-- The stream ends after the subscription. -/
  | streamEnd
  /-- The stream ends before the subscription. -/
  | cutOff (state : ConnectionState)
  | readFailure (error : FeedError)
  | sendFailure (error : FeedError)
  /-- A payload does not acknowledge what is due. -/
  | rejection (reason : Rejection)
  /-- A listener gives up. -/
  | abort (a : Abort)
  /-- The line stays open, and silent. -/
  | silence
deriving DecidableEq, Repr

/-- How a run ends that is left in a way. -/
def Way.ending : Way → Ending
  | .shutdown | .closeAfterSubscribe | .streamEnd => .finished
  | .cutOff state => .failed (.line (.closedIn state))
  | .readFailure error | .sendFailure error => .failed error
  | .rejection reason => .failed (.rejected reason)
  | .abort a => .aborted a
  | .silence => .waiting

variable {m : AckMatcher} {secret : String} {listen : Listening η σ ν} {script : Script}
  {s s' : Stage η σ ν} {r : Run η σ ν} {payload : String} {outlet : Outlet}

/-- **What has to be the case for a way out.** A request for shutdown comes before all else. -/
inductive Leaves (m : AckMatcher) (listen : Listening η σ ν) (script : Script)
    (s : Stage η σ ν) : Way → Prop
  | shutdown (h : s.ShutDown script) : Leaves m listen script s .shutdown
  /-- The third acknowledgement comes, to a client that only subscribes. -/
  | closeAfterSubscribe {payload rest} (h : ¬ s.ShutDown script)
      (hframe : s.frames = .text payload :: rest) (hthird : s.read.length = 2)
      (haccepts : m.accepts 2 payload = true)
      (hconfig : s.run.client.config.closeAfterSubscribe = true) :
      Leaves m listen script s .closeAfterSubscribe
  | streamEnd (h : ¬ s.ShutDown script) (hends : s.StreamEnds script)
      (hsubscribed : m.Subscribes s.read) : Leaves m listen script s .streamEnd
  | cutOff (h : ¬ s.ShutDown script) (hends : s.StreamEnds script)
      (hsubscribed : ¬ m.Subscribes s.read) :
      Leaves m listen script s (.cutOff (.afterAcks s.read.length))
  | readFailure {error rest} (h : ¬ s.ShutDown script)
      (hframe : s.frames = .failure error :: rest) : Leaves m listen script s (.readFailure error)
  /-- One of the first two acknowledgements comes, and the line does not take the reply. -/
  | sendFailure {payload rest} (h : ¬ s.ShutDown script)
      (hframe : s.frames = .text payload :: rest) (hdue : s.read.length < 2)
      (haccepts : m.accepts s.read.length payload = true)
      (hlimit : script.outlet.limit.all (sentCount s.run < ·) = false) :
      Leaves m listen script s (.sendFailure script.outlet.refusal)
  | rejection {payload rest} (h : ¬ s.ShutDown script)
      (hframe : s.frames = .text payload :: rest)
      (haccepts : m.accepts s.read.length payload = false) :
      Leaves m listen script s (.rejection (.afterAcks s.read.length payload))
  | abort {payload rest a} (h : ¬ s.ShutDown script) (hframe : s.frames = .text payload :: rest)
      (hstreamed : 3 ≤ s.read.length)
      (habort : (dispatch listen payload (taken s.run payload)).2 = .error a) :
      Leaves m listen script s (.abort a)
  | silence (h : ¬ s.ShutDown script) (hframes : s.frames = []) (hopen : script.holdOpen = true) :
      Leaves m listen script s .silence

/-- One frame more: a payload that does not end the run, or a request for shutdown while a reading
is under way. -/
inductive GoesOn (listen : Listening η σ ν) (script : Script) :
    Stage η σ ν → Stage η σ ν → Prop
  | consumed {s : Stage η σ ν} {payload rest} (h : ¬ s.ShutDown script)
      (hframe : s.frames = .text payload :: rest)
      (hgo : (consume listen script.outlet payload s.run).2 = none) :
      GoesOn listen script s
        ⟨false, rest, (consume listen script.outlet payload s.run).1⟩
  | requested {s : Stage η σ ν} {rest} (h : ¬ s.ShutDown script)
      (hframe : s.frames = .shutdown false :: rest) :
      GoesOn listen script s
        ⟨true, rest, { s.run with client := s.run.client.requestShutdown }⟩

theorem GoesOn.sound (h : GoesOn listen script s s') (hs : Sound m secret s.run) :
    Sound m secret s'.run := by
  cases h with
  | consumed h hframe hgo => exact hs.consume hgo
  | requested h hframe => exact hs.requested

/-! ## The loop -/

/-- The loop looks at the line where it does not see a request for shutdown. -/
theorem Stage.result_of_not_shutDown (h : ¬ s.ShutDown script) :
    s.result listen script = match s.frames with
      | [] =>
        if script.holdOpen then (s.run, .waiting, [])
        else if s.run.handshake.state = .subscribed then (s.run, .finished, [])
        else (s.run, .failed (.line (.closedIn s.run.handshake.state)), [])
      | .text payload :: rest =>
        match consume listen script.outlet payload s.run with
        | (r, none) => loop listen script.outlet script.holdOpen false rest r
        | (r, some ending) => (r, ending, rest)
      | .failure error :: rest => (s.run, .failed error, rest)
      | .ending :: rest =>
        if s.run.handshake.state = .subscribed then (s.run, .finished, rest)
        else (s.run, .failed (.line (.closedIn s.run.handshake.state)), rest)
      | .shutdown _ :: rest =>
        loop listen script.outlet script.holdOpen true rest
          { s.run with client := s.run.client.requestShutdown } := by
  obtain ⟨reading, frames, r⟩ := s
  have hhead : ¬ (¬ reading = true ∧ r.client.shutdownRequested = true) := by
    rintro ⟨hreading, hrequested⟩
    exact h (Or.inl ⟨hrequested, Or.inl (by simpa using hreading)⟩)
  unfold Stage.result
  rw [loop.eq_def]
  dsimp only
  rw [if_neg hhead]
  cases frames with
  | nil =>
    dsimp only
    by_cases hopen : script.holdOpen = true
    · have hrequested : ¬ r.client.shutdownRequested = true := fun hrequested =>
        h (Or.inl ⟨hrequested, Or.inr ⟨rfl, hopen⟩⟩)
      rw [if_pos hopen, if_pos hopen, if_neg hrequested]
    · rw [if_neg hopen, if_neg hopen]
  | cons frame rest =>
    cases frame with
    | shutdown wait =>
      cases wait with
      | true => exact absurd (Or.inr ⟨rest, rfl⟩) h
      | false => rfl
    | _ => rfl

theorem GoesOn.result (h : GoesOn listen script s s') :
    s.result listen script = s'.result listen script := by
  cases h with
  | consumed h hframe hgo =>
    rename_i payload rest
    rw [Stage.result_of_not_shutDown h, hframe]
    dsimp only
    cases hc : consume listen script.outlet payload s.run with
    | mk r ending =>
      rw [hc] at hgo
      obtain rfl : ending = none := hgo
      rfl
  | requested h hframe =>
    rw [Stage.result_of_not_shutDown h, hframe]
    rfl

/-- Where a request for shutdown is looked at the run is over. -/
theorem Stage.result_of_shutDown (listen : Listening η σ ν) (h : s.ShutDown script) :
    (s.result listen script).2.1 = .finished ∧ ((s.result listen script).1 = s.run ∨
      (s.result listen script).1 = { s.run with client := s.run.client.requestShutdown }) := by
  obtain ⟨reading, frames, r⟩ := s
  unfold Stage.result
  rw [loop.eq_def]
  dsimp only
  -- the request is seen at the head of the loop, or not before the line waits
  by_cases hhead : ¬ reading = true ∧ r.client.shutdownRequested = true
  · rw [if_pos hhead]
    exact ⟨rfl, Or.inl rfl⟩
  · rw [if_neg hhead]
    rcases h with ⟨hrequested, hreading | ⟨rfl, hopen⟩⟩ | ⟨rest, rfl⟩
    · exact absurd ⟨by simpa using hreading, hrequested⟩ hhead
    · dsimp only at hrequested ⊢
      rw [if_pos hopen, if_pos hrequested]
      exact ⟨rfl, Or.inl rfl⟩
    · exact ⟨rfl, Or.inr rfl⟩

/-! ## Ways out -/

variable {way way' : Way}

/-- What a run is like when it has been left. -/
structure Left (m : AckMatcher) (secret : String) (way : Way) (r : Run η σ ν) : Prop where
  notClosed : ∀ e ∈ r.events, e.isClosed = false
  sound : way.ending = .finished → Sound m secret r
  /-- Every payload read has acknowledged, except one that the run was left for. -/
  accepted : m.AcceptsAll (reads r.events) ∨ ∃ payloads payload,
    reads r.events = payloads ++ [payload] ∧ m.AcceptsAll payloads ∧
      way = .rejection (.afterAcks payloads.length payload)
  subscribed : way.ending = .finished → way ≠ .shutdown → m.Subscribes (reads r.events)

theorem Kept.left (h : Kept m secret r) (hway : way.ending ≠ .finished) : Left m secret way r where
  notClosed := h.notClosed
  sound hfinished := absurd hfinished hway
  accepted := Or.inl h.accepted
  subscribed hfinished := absurd hfinished hway

theorem Sound.left (h : Sound m secret r) (hway : way ≠ .shutdown → m.Subscribes (reads r.events)) :
    Left m secret way r where
  notClosed := h.notClosed
  sound _ := h
  accepted := Or.inl h.accepted
  subscribed _ := hway

/-- Where the stream ends, the exchange tells whether the run has finished. -/
theorem Stage.result_of_streamEnds (listen : Listening η σ ν) (h : ¬ s.ShutDown script)
    (hends : s.StreamEnds script) : ∃ rest, s.result listen script = (s.run,
      if s.run.handshake.state = .subscribed then .finished
      else .failed (.line (.closedIn s.run.handshake.state)), rest) := by
  rw [Stage.result_of_not_shutDown h]
  rcases hends with ⟨hframes, hopen⟩ | ⟨rest, hframes⟩
  · refine ⟨[], ?_⟩
    rw [hframes]
    dsimp only
    rw [if_neg (by simpa using hopen)]
    split <;> rfl
  · refine ⟨rest, ?_⟩
    rw [hframes]
    dsimp only
    split <;> rfl

/-- Where a payload ends the run. -/
theorem Stage.result_of_consumed {rest : List Frame} {r : Run η σ ν} {ending : Ending}
    (h : ¬ s.ShutDown script) (hframe : s.frames = .text payload :: rest)
    (hconsume : consume listen script.outlet payload s.run = (r, some ending)) :
    s.result listen script = (r, ending, rest) := by
  rw [Stage.result_of_not_shutDown h, hframe]
  dsimp only
  rw [hconsume]

/-- Where a run is left at a payload, the payload ends it. -/
theorem Leaves.consumed (hleaves : Leaves m listen script s way) (hs : Sound m secret s.run)
    (hshut : ¬ s.ShutDown script) {rest : List Frame} (hframe : s.frames = .text payload :: rest) :
    ∃ r, consume listen script.outlet payload s.run = (r, some way.ending) ∧
      Left m secret way r := by
  have hkept := hs.toKept
  have hsame : ∀ {payload' rest'}, s.frames = .text payload' :: rest' → payload = payload' := by
    intro payload' rest' h
    rw [hframe] at h
    exact Frame.text.inj (List.cons.inj h).1
  cases hleaves with
  | shutdown h => exact absurd h hshut
  | closeAfterSubscribe _ h hthird haccepts hconfig =>
    obtain rfl := hsame h
    have hsound := (hkept.took (hthird ▸ haccepts)).followed
    refine ⟨_, ?_, hsound.left fun _ => ?_⟩
    · rw [hkept.consume_third listen script.outlet hthird haccepts, if_pos hconfig]
      rfl
    · rw [hsound.accepted.subscribes_iff]
      show 3 ≤ (reads (taken s.run _).events).length
      rw [taken_reads, List.length_append, show (reads s.run.events).length = 2 from hthird]
      simp
  | sendFailure _ h hdue haccepts hlimit =>
    obtain rfl := hsame h
    obtain ⟨message, hconsume⟩ := hkept.consume_due listen script.outlet hdue haccepts
    rw [if_neg (by simpa using hlimit)] at hconsume
    exact ⟨_, hconsume, ((hkept.took haccepts).noted rfl rfl).left (by simp [Way.ending])⟩
  | rejection _ h haccepts =>
    obtain rfl := hsame h
    refine ⟨_, hkept.consume_rejected listen script.outlet haccepts, ?_, nofun,
      Or.inr ⟨_, _, taken_reads s.run _, hs.accepted, rfl⟩, nofun⟩
    intro e he
    rcases List.mem_append.1 he with he | he
    · exact hs.notClosed e he
    · rw [List.mem_singleton.1 he]
      rfl
  | abort _ h hstreamed habort =>
    obtain rfl := hsame h
    rename_i a _
    have hconsume := hkept.consume_streamed listen script.outlet hstreamed payload
    have hdispatched : Kept m secret (dispatch listen payload (taken s.run payload)).1 :=
      (hkept.took (accepts_of_streamed hstreamed payload)).dispatched payload
    cases hd : dispatch listen payload (taken s.run payload) with
    | mk r done =>
      rw [hd] at habort hdispatched hconsume
      obtain rfl : done = .error a := habort
      exact ⟨_, hconsume, hdispatched.left (by simp [Way.ending])⟩
  -- the other ways are at other frames
  | streamEnd _ hends | cutOff _ hends => simp [Stage.StreamEnds, hframe] at hends
  | readFailure _ h => simp [hframe] at h
  | silence _ h => simp [hframe] at h

/-- **What a way out comes to.** -/
theorem Leaves.result (hleaves : Leaves m listen script s way) (hs : Sound m secret s.run) :
    (s.result listen script).2.1 = way.ending ∧
      Left m secret way (s.result listen script).1 := by
  have htext : ∀ {payload rest}, ¬ s.ShutDown script → s.frames = .text payload :: rest →
      (s.result listen script).2.1 = way.ending ∧
        Left m secret way (s.result listen script).1 := by
    intro payload rest h hframe
    obtain ⟨r, hconsume, hleft⟩ := hleaves.consumed hs h hframe
    rw [Stage.result_of_consumed h hframe hconsume]
    exact ⟨rfl, hleft⟩
  cases hleaves with
  | shutdown h =>
    obtain ⟨hending, hrun | hrun⟩ := Stage.result_of_shutDown listen h
    · exact ⟨hending, hrun ▸ hs.left (absurd rfl)⟩
    · exact ⟨hending, hrun ▸ hs.requested.left (absurd rfl)⟩
  | streamEnd h hends hsubscribed =>
    obtain ⟨rest, hresult⟩ := Stage.result_of_streamEnds listen h hends
    rw [hresult, if_pos (hs.subscribed_iff.2 hsubscribed)]
    exact ⟨rfl, hs.left fun _ => hsubscribed⟩
  | cutOff h hends hsubscribed =>
    obtain ⟨rest, hresult⟩ := Stage.result_of_streamEnds listen h hends
    rw [hresult, if_neg (mt hs.subscribed_iff.1 hsubscribed), hs.handshake]
    exact ⟨rfl, hs.toKept.left (by simp [Way.ending])⟩
  | readFailure h hframe =>
    rw [Stage.result_of_not_shutDown h, hframe]
    exact ⟨rfl, hs.toKept.left (by simp [Way.ending])⟩
  | silence h hframes hopen =>
    rw [Stage.result_of_not_shutDown h, hframes]
    dsimp only
    rw [if_pos hopen]
    exact ⟨rfl, hs.toKept.left (by simp [Way.ending])⟩
  | closeAfterSubscribe h hframe | sendFailure h hframe | rejection h hframe | abort h hframe =>
    exact htext h hframe

/-! ## One way out -/

/-- **A stage is left, or it goes on.** -/
theorem Stage.progress (hs : Sound m secret s.run) (listen : Listening η σ ν) (script : Script) :
    (∃ way, Leaves m listen script s way) ∨
      ∃ s', GoesOn listen script s s' ∧ s'.frames.length < s.frames.length := by
  have hkept := hs.toKept
  -- by what the line plays next, and at a payload by how many have acknowledged
  by_cases h : s.ShutDown script
  · exact Or.inl ⟨_, .shutdown h⟩
  have hends : s.StreamEnds script → ∃ way, Leaves m listen script s way := by
    intro hends
    by_cases hsubscribed : m.Subscribes s.read
    · exact ⟨_, .streamEnd h hends hsubscribed⟩
    · exact ⟨_, .cutOff h hends hsubscribed⟩
  cases hframes : s.frames with
  | nil =>
    by_cases hopen : script.holdOpen = true
    · exact Or.inl ⟨_, .silence h hframes hopen⟩
    · exact Or.inl (hends (Or.inl ⟨hframes, by simpa using hopen⟩))
  | cons frame rest =>
    cases frame with
    | ending => exact Or.inl (hends (Or.inr ⟨rest, hframes⟩))
    | failure error => exact Or.inl ⟨_, .readFailure h hframes⟩
    | shutdown wait =>
      cases wait with
      | true => exact absurd (Or.inr ⟨rest, hframes⟩) h
      | false => exact Or.inr ⟨_, .requested h hframes, by simp⟩
    | text payload =>
      have hgo : (consume listen script.outlet payload s.run).2 = none →
          ∃ s', GoesOn listen script s s' ∧ s'.frames.length < rest.length + 1 :=
        fun hgo => ⟨_, .consumed h hframes hgo, Nat.lt_succ_self _⟩
      cases haccepts : m.accepts s.read.length payload with
      | false => exact Or.inl ⟨_, .rejection h hframes haccepts⟩
      | true =>
        rcases Nat.lt_trichotomy s.read.length 2 with hdue | hthird | hstreamed
        · obtain ⟨message, hconsume⟩ :=
            hkept.consume_due listen script.outlet hdue haccepts
          by_cases hlimit : script.outlet.limit.all (sentCount s.run < ·) = true
          · exact Or.inr (hgo (by rw [hconsume, if_pos hlimit]))
          · exact Or.inl ⟨_, .sendFailure h hframes hdue haccepts (by simpa using hlimit)⟩
        · rw [hthird] at haccepts
          by_cases hconfig : s.run.client.config.closeAfterSubscribe = true
          · exact Or.inl ⟨_, .closeAfterSubscribe h hframes hthird haccepts hconfig⟩
          · refine Or.inr (hgo ?_)
            rw [hkept.consume_third listen script.outlet hthird haccepts, if_neg hconfig]
        · cases hd : dispatch listen payload (taken s.run payload) with
          | mk r done =>
            cases done with
            | error a => exact Or.inl ⟨_, .abort h hframes hstreamed (by rw [hd])⟩
            | ok u =>
              refine Or.inr (hgo ?_)
              rw [hkept.consume_streamed listen script.outlet hstreamed payload, hd]

/-- A stage is left in one way. -/
theorem Leaves.unique (h : Leaves m listen script s way) (h' : Leaves m listen script s way') :
    way = way' := by
  have hnone : ∀ payload, 3 ≤ s.read.length → m.accepts s.read.length payload = true :=
    fun payload hstreamed => accepts_of_streamed hstreamed payload
  -- the guards of two ways exclude each other, by what is played next and how many have acknowledged
  cases h <;> cases h' <;> simp_all [Stage.StreamEnds] <;> omega

/-- A stage that is left does not go on. -/
theorem Leaves.not_goesOn (h : Leaves m listen script s way) (hs : Sound m secret s.run) :
    ¬ GoesOn listen script s s' := by
  intro hgoes
  cases hgoes with
  | consumed hshut hframe hgo =>
    obtain ⟨r, hconsume, -⟩ := h.consumed hs hshut hframe
    rw [hconsume] at hgo
    simp at hgo
  | requested hshut hframe => cases h <;> simp_all [Stage.StreamEnds]

/-- A stage goes on to one other. -/
theorem goesOn_rightUnique :
    Relator.RightUnique (GoesOn listen script : Stage η σ ν → Stage η σ ν → Prop) := by
  intro s s' s'' h h'
  cases h with
  | consumed _ hframe _ =>
    cases h' with
    | consumed _ hframe' _ =>
      rw [hframe] at hframe'
      obtain ⟨hpayload, rfl⟩ := List.cons.inj hframe'
      rw [Frame.text.inj hpayload]
    | requested _ hframe' => simp [hframe] at hframe'
  | requested _ hframe =>
    cases h' with
    | consumed _ hframe' _ => simp [hframe] at hframe'
    | requested _ hframe' =>
      rw [hframe] at hframe'
      rw [(List.cons.inj hframe').2]

/-- The run goes on from here to a stage that it is left from in this way. -/
def Stage.EndsBy (m : AckMatcher) (listen : Listening η σ ν) (script : Script)
    (s : Stage η σ ν) (way : Way) : Prop :=
  ∃ last, Relation.ReflTransGen (GoesOn listen script) s last ∧ Leaves m listen script last way

/-- What holds of a run holds as long as it goes on. -/
theorem sound_of_reached (h : Relation.ReflTransGen (GoesOn listen script) s s')
    (hs : Sound m secret s.run) :
    Sound m secret s'.run ∧ s.result listen script = s'.result listen script := by
  induction h with
  | refl => exact ⟨hs, rfl⟩
  | tail _ hgoes ih => exact ⟨hgoes.sound ih.1, ih.2.trans hgoes.result⟩

/-- **Every run is left**: it goes on over fewer and fewer frames. -/
theorem Stage.left (hs : Sound m secret s.run) (listen : Listening η σ ν) (script : Script) :
    ∃ way, s.EndsBy m listen script way := by
  induction hlen : s.frames.length using Nat.strong_induction_on generalizing s with
  | _ n ih =>
    rcases Stage.progress hs listen script with ⟨way, hleaves⟩ | ⟨s', hgoes, hless⟩
    · exact ⟨way, s, .refl, hleaves⟩
    · obtain ⟨way, last, hreached, hleaves⟩ :=
        ih s'.frames.length (hlen ▸ hless) (hgoes.sound hs) rfl
      exact ⟨way, last, .head hgoes hreached, hleaves⟩

/-- **Every run is left in one way only.** -/
theorem Stage.endsBy_unique (hs : Sound m secret s.run) (h : s.EndsBy m listen script way)
    (h' : s.EndsBy m listen script way') : way = way' := by
  obtain ⟨last, hreached, hleaves⟩ := h
  obtain ⟨last', hreached', hleaves'⟩ := h'
  have hend : ∀ {a b : Stage η σ ν} {w}, Sound m secret a.run → Leaves m listen script a w →
      Relation.ReflTransGen (GoesOn listen script) a b → a = b := by
    intro a b w ha hw hab
    rcases Relation.ReflTransGen.cases_head hab with rfl | ⟨c, hgoes, -⟩
    · rfl
    · exact absurd hgoes (hw.not_goesOn ha)
  -- one of the two stages is reached from the other, and neither goes on
  have hlast := (sound_of_reached hreached hs).1
  have hlast' := (sound_of_reached hreached' hs).1
  rcases Relation.ReflTransGen.total_of_right_unique goesOn_rightUnique hreached hreached' with
    hab | hba
  · obtain rfl := hend hlast hleaves hab
    exact hleaves.unique hleaves'
  · obtain rfl := hend hlast' hleaves' hba
    exact hleaves.unique hleaves'

/-- **Every run ends, and in one way only**, which decides how it ends and what it leaves behind. -/
theorem Stage.left_once (hs : Sound m secret s.run) (listen : Listening η σ ν) (script : Script) :
    ∃ way, (∀ way', s.EndsBy m listen script way' ↔ way' = way) ∧
      (s.result listen script).2.1 = way.ending ∧
        Left m secret way (s.result listen script).1 := by
  obtain ⟨way, hway⟩ := Stage.left hs listen script
  refine ⟨way, fun way' => ⟨fun h => Stage.endsBy_unique hs h hway, fun h => h ▸ hway⟩, ?_⟩
  obtain ⟨last, hreached, hleaves⟩ := hway
  obtain ⟨hsound, hresult⟩ := sound_of_reached hreached hs
  rw [hresult]
  exact hleaves.result hsound

end Client

end TapeReader.Feed

import TapeReader.Clock.Table
import TapeReader.Proofs.Board.Batches
import TapeReader.Proofs.Json.Equality
import TapeReader.Proofs.Momentum.Attended

/-!
# How ticks come in messages, for a desk

* `Session.run_receives`: a session goes through messages as its board does.
* `Session.run_of_ticks`: a session is settled by the ticks of its messages.
* `batches_invisible`: **how ticks are put into messages, and what noise comes between them,
  makes no difference.**
-/

namespace TapeReader.Momentum

open Board

section

variable [TimeZones]

/-- A desk leaves the board as it is. -/
theorem react_keeps (told : List (String × DeskWatcher)) : Keeps react told :=
  fun _ _ _ _ => rfl

namespace Session

variable {s : Session} {raws raws' : List String}

theorem log_message (s : Session) (raw : String) (steps : List Step) :
    s.log (.message raw :: steps) =
      (s.message raw).2.1.map .signalled ++ (s.message raw).1.log steps := by
  have hdeeds : s.deedsOf (.message raw) = (s.message raw).2.1.map .signalled :=
    deedsOf_eq (by simp) (by simp)
  rw [← hdeeds]
  rfl

/-- A message to a session is a message to its board. -/
theorem message_receive {board : Board DeskWatcher} (hboard : s.board = some board) (raw : String) :
    let received := receive react raw ⟨board, s.desk⟩
    (s.message raw).1 = { board := some received.1.board, desk := received.1.around } ∧
      (s.message raw).2.1 = signalsOf received.2.1 ∧
      ∀ a, (s.message raw).2.2 = .aborted a ↔ received.2.2 = .error (.abort a) := by
  rw [message_eq hboard, receive_eq]
  refine ⟨rfl, rfl, fun a => ?_⟩
  dsimp only
  cases (applyAll react board.watchers.entries (ticksOf raw) ⟨board, s.desk⟩).2.2 with
  | error b => simp [answerOf]
  | ok u =>
    unfold answerOf
    rcases hcounted : counted raw with (_ | _ | b) | ticks <;> simp

/-- **A session goes through messages as its board does.** -/
theorem run_receives {board : Board DeskWatcher} (hboard : s.board = some board)
    (raws : List String) :
    let received := receives react raws ⟨board, s.desk⟩
    s.run (raws.map .message) =
        { board := some received.1.board, desk := received.1.around } ∧
      s.log (raws.map .message) = (signalsOf received.2.1).map .signalled ∧
      (s.NoneGivenUp raws ↔ Board.NoneGivenUp received.2.2) := by
  induction raws generalizing s board with
  | nil =>
    have hself : ({ board := some board, desk := s.desk } : Session) = s := by rw [← hboard]
    exact ⟨hself.symm, rfl, by simp [NoneGivenUp, Board.NoneGivenUp, receives]⟩
  | cons raw rest ih =>
    obtain ⟨hnext, hsignals, haborted⟩ := message_receive hboard raw
    obtain ⟨hrun, hlog, hdone⟩ := ih (congrArg Session.board hnext)
    rw [hnext] at hrun hlog hdone
    refine ⟨?_, ?_, ?_⟩
    · show (s.message raw).1.run (rest.map .message) = _
      rw [hnext, hrun]
      rfl
    · rw [List.map_cons, log_message, hsignals, hnext, hlog, ← List.map_append,
        ← signalsOf_append]
      rfl
    · unfold NoneGivenUp Board.NoneGivenUp receives
      rw [hnext, hdone, List.forall_mem_cons]
      exact and_congr_left fun _ => forall_congr' fun a => not_congr (haborted a)

/-- Without a board messages do nothing. -/
theorem run_of_no_board (h : s.board = none) (raws : List String) :
    s.run (raws.map .message) = s ∧ s.log (raws.map .message) = [] ∧ s.NoneGivenUp raws := by
  induction raws with
  | nil => exact ⟨rfl, rfl, trivial⟩
  | cons raw rest ih =>
    have hmessage : s.message raw = (s, [], .nothing) := by
      unfold message
      rw [h]
    obtain ⟨hrun, hlog, hdone⟩ := ih
    refine ⟨?_, ?_, ?_⟩
    · show (s.message raw).1.run (rest.map .message) = s
      rw [hmessage, hrun]
    · rw [List.map_cons, log_message, hmessage, hlog]
      rfl
    · unfold NoneGivenUp
      rw [hmessage]
      exact ⟨by simp, hdone⟩

/-- **A session is settled by the ticks of its messages**, when none of them is given up. -/
theorem run_of_ticks (s : Session) (hticks : raws'.flatMap ticksOf = raws.flatMap ticksOf)
    (hdone : s.NoneGivenUp raws) :
    s.NoneGivenUp raws' ∧ s.run (raws'.map .message) = s.run (raws.map .message) ∧
      s.log (raws'.map .message) = s.log (raws.map .message) := by
  cases hboard : s.board with
  | none =>
    obtain ⟨hrun, hlog, -⟩ := run_of_no_board hboard raws
    obtain ⟨hrun', hlog', hdone'⟩ := run_of_no_board hboard raws'
    exact ⟨hdone', hrun'.trans hrun.symm, hlog'.trans hlog.symm⟩
  | some board =>
    obtain ⟨hrun, hlog, hiff⟩ := run_receives hboard raws
    obtain ⟨hrun', hlog', hiff'⟩ := run_receives hboard raws'
    obtain ⟨hnone, heq⟩ := receives_eq (w := ⟨board, s.desk⟩) (react_keeps _) raws
    obtain ⟨hnone', heq'⟩ := receives_eq (w := ⟨board, s.desk⟩) (react_keeps _) raws'
    have happlied := hnone.1 (hiff.1 hdone)
    have heq := heq happlied
    rw [← hticks] at happlied heq
    have heq' := heq' happlied
    refine ⟨hiff'.2 (hnone'.2 happlied), ?_, ?_⟩
    · rw [hrun, hrun', heq, heq']
    · rw [hlog, hlog', heq, heq']

end Session

/-- **Batches and noise are invisible.** The windows of a board have lengths other than zero, and its
watchers are quiet. A message of the records `xs ++ ys` does what a message of `xs` and a message of
`ys` do one after the other, and counts as much as both. Messages whose records differ in noise, put
in or left out anywhere, do the same and count the same. And a session in which no message is given up
ends up the same, with the same signals, when its messages are replaced by others with the same ticks,
however these are put together. -/
theorem batches_invisible {κ σ ν : Type} {react : Reaction κ σ ν} {w : World κ σ}
    (hw : Proper w.board.stores) (hq : Quiet react w.board.watchers.entries) :
    (∀ raw first second xs ys, records? raw = some (xs ++ ys) → records? first = some xs →
      records? second = some ys → xs ≠ [] → ys ≠ [] →
      Same react w [first, second] [raw] ∧ ∃ n m,
        (receives react [first, second] w).2.2 = [.ok n, .ok m] ∧
          (receives react [raw] w).2.2 = [.ok (n + m)]) ∧
    (∀ raw noisy records records', records? raw = some records → records? noisy = some records' →
      records ≠ [] → records' ≠ [] →
      records'.filter (¬ Noise ·) = records.filter (¬ Noise ·) →
      Same react w [raw] [noisy] ∧ ∃ n,
        (receives react [raw] w).2.2 = [.ok n] ∧ (receives react [noisy] w).2.2 = [.ok n]) ∧
    ∀ (s : Session) (raws raws' : List String),
      raws'.flatMap ticksOf = raws.flatMap ticksOf → s.NoneGivenUp raws →
        s.NoneGivenUp raws' ∧ s.run (raws'.map .message) = s.run (raws.map .message) ∧
          s.log (raws'.map .message) = s.log (raws.map .message) := by
  refine ⟨fun raw first second xs ys hraw hfirst hsecond hxs hys => ?_,
    fun raw noisy records records' hraw hnoisy hne hne' hsame => ?_,
    fun s _ _ hticks hdone => s.run_of_ticks hticks hdone⟩
  · have hticks := ticksOf_append hraw hfirst hsecond
    obtain ⟨hsame, hparts, hwhole⟩ := same_of_ticks hw hq [first, second] [raw]
      (by simpa using hticks)
    refine ⟨hsame, (ticksOf first).length, (ticksOf second).length, ?_, ?_⟩
    · rw [hparts, List.map_cons, List.map_singleton, counted_eq_ok hfirst hxs,
        counted_eq_ok hsecond hys]
    · rw [hwhole, List.map_singleton, counted_eq_ok hraw (by simp [hxs]), hticks,
        List.length_append]
  · have hticks := ticksOf_eq_of_filter hraw hnoisy hsame
    obtain ⟨hsame, hplain, hcounted⟩ := same_of_ticks hw hq [raw] [noisy]
      (by simpa using hticks)
    refine ⟨hsame, (ticksOf raw).length, ?_, ?_⟩
    · rw [hplain, List.map_singleton, counted_eq_ok hraw hne]
    · rw [hcounted, List.map_singleton, counted_eq_ok hnoisy hne', hticks]

end

attribute [local instance] TimeZones.table

/-- A tick and a status record, in one message and in two; a watcher reads, and one forgets. -/
theorem batches_invisible_two :
    let tick := "\x7b\"ev\":\"A\",\"sym\":\"SPCE\",\"v\":1,\"av\":9,\"op\":2,\"vw\":2," ++
      "\"o\":2,\"c\":2,\"h\":2,\"l\":2,\"s\":12000,\"e\":12999\x7d"
    let first := "[" ++ tick ++ "]"
    let second := "[\x7b\"ev\":\"status\"\x7d]"
    let raw := "[" ++ tick ++ ",\x7b\"ev\":\"status\"\x7d]"
    let board : Board Watcher := { (ofConfig {} : Board Watcher) with
      watchers := ⟨[("reader", .reader), ("clearer", .clearer)], by simp⟩ }
    let s : Session := { board := some (ofConfig {}), desk := { rule := {} } }
    (Proper board.stores ∧ Quiet Watcher.react board.watchers.entries ∧ s.NoneGivenUp [first]) ∧
      Same Watcher.react ⟨board, ()⟩ [first, second] [raw] ∧
      Same Watcher.react ⟨board, ()⟩ [first] [raw] ∧
      s.run [.message raw] = s.run [.message first] := by
  intro tick first second raw board s
  have hproper : Proper board.stores :=
    (proper_ofConfig (by decide) : Proper (ofConfig {} : Board Watcher).stores)
  have hquiet : Quiet Watcher.react board.watchers.entries := Watcher.quiet (by simp [board])
  have hnone : s.NoneGivenUp [first] := by
    have hcounted : (s.message first).2.2 = .applied 1 := by decide +kernel
    exact ⟨by simp [hcounted], trivial⟩
  let xs := (records? first).getD []
  let ys := (records? second).getD []
  have hfirst : records? first = some xs := by decide +kernel
  have hsecond : records? second = some ys := by decide +kernel
  have hraw : records? raw = some (xs ++ ys) := by decide +kernel
  have hxs : xs ≠ [] := by decide +kernel
  have hys : ys ≠ [] := by decide +kernel
  have hnoise : (xs ++ ys).filter (¬ Noise ·) = xs.filter (¬ Noise ·) := by decide +kernel
  have hticks := ticksOf_eq_of_filter hfirst hraw hnoise
  obtain ⟨hbatches, hnoisy, hsessions⟩ :=
    batches_invisible (w := ⟨board, ()⟩) hproper hquiet
  refine ⟨⟨hproper, hquiet, hnone⟩, ?_, ?_, ?_⟩
  · exact (hbatches raw first second xs ys hraw hfirst hsecond hxs hys).1
  · exact (hnoisy first raw xs (xs ++ ys) hfirst hraw hxs (by simp [hxs]) hnoise).1
  · exact (hsessions s [first] [raw] (by simpa using hticks) hnone).2.1

end TapeReader.Momentum

import TapeReader.Clock.Table
import TapeReader.CommandLine
import TapeReader.Proofs.Board.Calls
import TapeReader.Proofs.Config.Fallback
import TapeReader.Proofs.Feed.Delivery
import TapeReader.Proofs.Momentum.Attended
import TapeReader.Settings.Reader

/-!
# From a valid configuration to a trader

A configuration is validated without a look at its rule, and the desk is opened by its rule alone.

* `Trader.opened`: the trader of a configuration; `Trader.open?_eq`: it is there unless the session is
  empty.
* `react_error`: the desk never gives up for a window of length zero.
* `Session.Proper`: the windows of a session have a length, whatever is done to it.
* `Trader.run_ne_zeroWindow`: no run of a trader is given up for a window of length zero then.
* `Session.message_zeroWindow`: the first tick is given up for such a window, where there is one.
* `CommandLine.run_starts_iff`: **what is valid can be run, unless its session is empty**; and it hits no
  window of length zero, unless the length of one comes out as zero in 64 bits.
-/

namespace TapeReader

section

variable [TimeZones]

theorem Config.validate_aggregation {c : Config} (h : c.validate = .ok ()) :
    c.aggregation.validate = .ok () := by
  unfold Config.validate at h
  split at h
  · exact h
  · cases h

namespace Momentum

open Board

variable {rule : Config.Momentum} {tens minutes : History} {abort : Abort} {s : Session}

/-! ## What a desk gives up for -/

omit [TimeZones] in
/-- What is given up is given up by the first part, or by what follows it. -/
theorem bind_eq_error {α β : Type} {x : Except Abort α} {f : α → Except Abort β}
    (h : x >>= f = .error abort) :
    x = .error abort ∨ ∃ a, x = .ok a ∧ f a = .error abort := by
  cases x with
  | error e =>
    obtain rfl : e = abort := Except.error.inj h
    exact Or.inl rfl
  | ok a => exact Or.inr ⟨a, rfl, h⟩

omit [TimeZones] in
theorem multiple_error {ratio : Decimal} {volume : ℤ} (h : multiple ratio volume = .error abort) :
    abort = .multiplication := by
  unfold multiple at h
  split at h
  · exact (product_error_iff.1 h).1
  · exact (Except.error.inj h).symm

/-- The rule gives up for products only. -/
theorem isEntryPoint_error (h : isEntryPoint rule tens minutes = .error abort) :
    abort = .multiplication := by
  unfold isEntryPoint at h
  split at h
  · split at h
    · rcases bind_eq_error h with h | ⟨threshold, -, h⟩
      · exact (product_error_iff.1 h).1
      · split at h
        · rcases bind_eq_error h with h | ⟨ceiling, -, h⟩
          · exact multiple_error h
          · split at h
            · cases h
            · exact (Except.error.inj h).symm
        · cases h
    · cases h
  · cases h

theorem Desk.signal?_error {d : Desk} {ticker : String}
    (h : d.signal? ticker tens minutes = .error abort) :
    abort = .multiplication ∨ abort = .addition := by
  unfold Desk.signal? at h
  rcases bind_eq_error h with h | ⟨yes, -, h⟩
  · exact Or.inl (isEntryPoint_error h)
  · split at h
    · split at h
      · cases h
      · split at h
        · exact Or.inr (Except.error.inj h).symm
        · cases h
    · cases h

/-- **The desk gives up for products and sums only.** -/
theorem react_error {watcher : DeskWatcher} {ticker : String} {w : World DeskWatcher Desk}
    (h : (react watcher ticker w).2 = .error abort) : abort = .multiplication ∨ abort = .addition := by
  unfold react Desk.update at h
  dsimp only at h
  split at h
  · cases h
  · split at h
    · rename_i hsignal
      obtain rfl := Except.error.inj h
      exact Desk.signal?_error hsignal
    · cases h
    · split at h <;> cases h

/-- The desk only looks. -/
theorem react_onlyLooks : OnlyLooks react fun _ => True where
  stores _ _ _ _ := rfl
  joins _ _ _ _ _ _ _ := trivial

theorem not_givesUp_zeroWindow : ¬ GivesUp react (fun _ => True) .zeroWindow := by
  rintro ⟨watcher, -, ticker, w, h⟩
  rcases react_error h with h | h <;> cases h

/-! ## Whatever is done to a session -/

namespace Session

/-- No window of the board, if there is one, has length zero. -/
def Proper (s : Session) : Prop := ∀ board, s.board = some board → Board.Proper board.stores

/-- **A message keeps the windows**, and is not given up for one of length zero. -/
theorem Proper.message (h : s.Proper) (raw : String) :
    (s.message raw).1.Proper ∧ (s.message raw).2.2 ≠ .aborted .zeroWindow := by
  unfold Session.message
  cases hboard : s.board with
  | none => exact ⟨h, nofun⟩
  | some board =>
    obtain ⟨hwatched, -, hgives⟩ :=
      receive_spec react_onlyLooks raw ⟨board, s.desk⟩ ⟨h board hboard, fun _ _ => trivial⟩
    dsimp only
    cases hr : receive react raw ⟨board, s.desk⟩ with
    | mk w p =>
      obtain ⟨notices, result⟩ := p
      rw [hr] at hwatched hgives
      have hnext : Proper { board := some w.board, desk := w.around } := fun b hb =>
        Option.some.inj hb ▸ hwatched.proper
      rcases result with (_ | _ | a) | ticks
      · exact ⟨hnext, nofun⟩
      · exact ⟨hnext, nofun⟩
      · refine ⟨hnext, fun ha => not_givesUp_zeroWindow (hgives _ ?_)⟩
        rw [Answer.aborted.inj ha]
      · exact ⟨hnext, nofun⟩

/-- **Every step keeps the windows.** -/
theorem Proper.step (h : s.Proper) (step : Step) : (s.step step).1.Proper := by
  cases step with
  | message raw => exact (h.message raw).1
  | release => exact h
  | closeReceiver => exact h
  | dropBoard => exact nofun
  | entry ticker =>
    unfold Session.step
    dsimp only
    split <;> exact h
  | watch =>
    unfold Session.step Session.watch Board.register
    cases hboard : s.board with
    | none => exact h
    | some board =>
      dsimp only
      cases board.watchers.register Desk.watcherName .desk with
      | error fault => exact h
      | ok watchers => exact fun b hb => Option.some.inj hb ▸ h board hboard
  | clear =>
    unfold Session.step
    cases hboard : s.board with
    | none => exact h
    | some board =>
      refine fun b hb r => ?_
      obtain rfl := Option.some.inj hb
      unfold Board.clear
      rw [PerResolution.get_map]
      exact h board hboard r

theorem Proper.run (h : s.Proper) (steps : List Step) : (s.run steps).Proper := by
  induction steps using List.reverseRecOn with
  | nil => exact h
  | append_singleton steps step ih =>
    rw [run_concat]
    exact ih.step step

theorem proper_of_config {aggregation : Config.Aggregation} (hproper : aggregation.Proper)
    (watchers : Roster DeskWatcher) (desk : Desk) :
    Proper { board := some { (ofConfig aggregation : Board DeskWatcher) with watchers }, desk } := by
  intro board hb
  obtain rfl := Option.some.inj hb
  exact (proper_ofConfig hproper : Board.Proper (ofConfig aggregation : Board DeskWatcher).stores)

/-- **The first tick is given up** when the length of a window comes out as zero. -/
theorem message_zeroWindow {aggregation : Config.Aggregation} (h : ¬ aggregation.Proper) (desk : Desk)
    {raw : String} (hraw : ticksOf raw ≠ []) :
    (message { board := some (ofConfig aggregation), desk } raw).2.2 = .aborted .zeroWindow := by
  obtain ⟨r, hr, hzero⟩ : ∃ r ∈ Resolution.all,
      Window.millis ⟨aggregation.resolutionsSecs.get r⟩ = 0 := by
    unfold Config.Aggregation.Proper at h
    push Not at h
    exact h
  obtain ⟨t, rest, hticks⟩ := List.exists_cons_of_ne_nil hraw
  have hvalid : t.validate = .ok () := (of_mem_ticksOf (hticks ▸ List.mem_cons_self)).1
  have hoffer : (offer t Resolution.all (ofConfig aggregation : Board DeskWatcher).stores).2 =
      .error .zeroWindow := by
    refine offer_zeroWindow hr ?_
    rw [ofConfig_get]
    exact Store.add_fresh_zeroWindow hzero _ hvalid
  rw [message_eq rfl, hticks]
  dsimp only
  unfold applyAll apply
  cases hr : offer t Resolution.all (ofConfig aggregation : Board DeskWatcher).stores with
  | mk stores done =>
    rw [hr] at hoffer
    obtain rfl : done = .error .zeroWindow := hoffer
    rfl

end Session

/-! ## The set-up -/

theorem Desk.open?_eq_ok_iff {d : Desk} :
    Desk.open? rule = .ok d ↔ rule.sessionStart < rule.sessionEnd ∧ d = { rule } := by
  unfold Desk.open?
  by_cases h : rule.sessionStart < rule.sessionEnd <;> simp [h, eq_comm]

namespace Trader

/-- The trader of a configuration: the session listens, and the desk watches. -/
def opened (c : Config) : Trader where
  client := {
    config := c.feed
    listeners := ⟨[(Feed.Listener.boardName, .session)], List.nodup_singleton _⟩ }
  session := {
    board := some { (Board.ofConfig c.aggregation : Board DeskWatcher) with
      watchers := ⟨[(Desk.watcherName, .desk)], List.nodup_singleton _⟩ }
    desk := { rule := c.strategy } }

/-- **Only an empty session is in the way of a trader.** -/
theorem open?_eq (c : Config) :
    open? c = if c.strategy.sessionStart < c.strategy.sessionEnd then .ok (opened c)
      else .error (.config (.session c.strategy.sessionStart c.strategy.sessionEnd)) := by
  unfold open? Session.open? Desk.open?
  split <;> rfl

theorem open?_eq_ok_iff {c : Config} {t : Trader} :
    open? c = .ok t ↔ c.strategy.sessionStart < c.strategy.sessionEnd ∧ t = opened c := by
  rw [open?_eq]
  by_cases h : c.strategy.sessionStart < c.strategy.sessionEnd <;> simp [h, eq_comm]

theorem open?_eq_error_iff {c : Config} {e : FeedError} :
    open? c = .error e ↔ ¬ c.strategy.sessionStart < c.strategy.sessionEnd ∧
      e = .config (.session c.strategy.sessionStart c.strategy.sessionEnd) := by
  rw [open?_eq]
  by_cases h : c.strategy.sessionStart < c.strategy.sessionEnd <;> simp [h, eq_comm]

/-- **No run of a trader is given up for a window of length zero**, when there is none. -/
theorem run_ne_zeroWindow {t : Trader} (h : t.session.Proper)
    (dial : Config.Feed → Except LineFault Feed.Script) :
    (t.run dial).ending ≠ .aborted .zeroWindow := by
  refine Feed.Client.run_ne_aborted (fun l payload s hs => ?_) h dial
  obtain ⟨hnext, hanswer⟩ := hs.message payload
  refine ⟨hnext, fun hdone => hanswer ?_⟩
  unfold listen at hdone
  dsimp only at hdone
  split at hdone
  · rename_i a ha
    rw [ha, Except.error.inj hdone]
  · cases hdone

/-- A trader without a credential does not dial. -/
theorem run_of_no_credential {c : Config} (hkey : c.feed.apiKey.getD "" = "")
    (dial : Config.Feed → Except LineFault Feed.Script) :
    ((opened c).run dial).ending = .failed .noCredential := by
  have hcredential : (opened c).client.requireCredential = .error .noCredential := by
    unfold Feed.Client.requireCredential opened
    cases hfeed : c.feed.apiKey with
    | none => rfl
    | some key =>
      rw [hfeed] at hkey
      exact if_pos hkey
  unfold run Feed.Client.run
  rw [hcredential]

end Trader

end Momentum

namespace CommandLine

open Momentum Board

variable {c : Config}

/-- An empty session ends a run before anything else. -/
theorem run_of_empty (h : ¬ c.strategy.sessionStart < c.strategy.sessionEnd)
    (dial : Config.Feed → Except LineFault Feed.Script) (close : Bool) :
    run dial close c = .failed
      (FeedError.config (.session c.strategy.sessionStart c.strategy.sessionEnd)).message := by
  simp only [run, Trader.open?_eq, if_neg h]

/-- A run that gets to the credential, and finds none. -/
theorem run_of_no_credential (h : c.strategy.sessionStart < c.strategy.sessionEnd)
    (hkey : c.feed.apiKey.getD "" = "") (dial : Config.Feed → Except LineFault Feed.Script)
    (close : Bool) : run dial close c = .failed FeedError.noCredential.message := by
  have hending : ∀ config : Config, config.feed.apiKey = c.feed.apiKey →
      ((Trader.opened config).run dial).ending = .failed .noCredential := fun config heq =>
    Trader.run_of_no_credential (heq ▸ hkey) dial
  simp only [run, Trader.open?_eq, if_pos h, hending]

/-- **What is valid can be run, unless its session is empty.** A valid configuration is printed without
an error. Every step towards a run of it succeeds, but for the opening of the desk, which succeeds just
when the session starts before it ends; and just then there is a trader. With an empty session a run fails
with this fault, whatever the credential and whatever the line. Otherwise it gets to the credential, and
fails for want of it when there is none.

The length of a window comes out as zero for the multiples of `2 ^ 61` seconds, which are valid too. Where
there is no such window, a tick is put to each of the stores, whatever they have been called with;
whatever has been done to a session, with whatever desk, no message is given up for a window of length
zero, and no run of the trader is. Where there is one, the first message with a tick is given up. -/
theorem run_starts_iff (hvalid : c.validate = .ok ()) :
    let nonempty := c.strategy.sessionStart < c.strategy.sessionEnd
    let fault := ConfigFault.session c.strategy.sessionStart c.strategy.sessionEnd
    let board : Board DeskWatcher := .ofConfig c.aggregation
    let trader := Trader.opened c
    (checkConfig c).exitCode = 0 ∧
    (Feed.Client.register { config := c.feed } Feed.Listener.boardName .session = .ok trader.client ∧
      (∀ desk, Session.watch { board := some board, desk } = .ok { trader.session with desk }) ∧
      ∀ desk, Desk.open? c.strategy = .ok desk ↔ nonempty ∧ desk = { rule := c.strategy }) ∧
    ((∀ t, Trader.open? c = .ok t ↔ nonempty ∧ t = trader) ∧
      ∀ e, Trader.open? c = .error e ↔ ¬ nonempty ∧ e = .config fault) ∧
    (∀ key dial close,
      (¬ nonempty → run dial close { c with feed := { c.feed with apiKey := key } } =
        .failed (FeedError.config fault).message) ∧
      (nonempty → key.getD "" = "" →
        run dial close { c with feed := { c.feed with apiKey := key } } =
          .failed FeedError.noCredential.message)) ∧
    (∀ r, 0 < c.aggregation.resolutionsSecs.get r ∧ ((board.stores.get r).window.millis = 0 ↔
      2 ^ 61 ∣ c.aggregation.resolutionsSecs.get r)) ∧
    ((∀ r, (board.stores.get r).window.millis ≠ 0) →
      (∀ calls t, offer t Resolution.all (calls.foldl callAll board.stores) =
        ((calls ++ [.add t]).foldl callAll board.stores, .ok ())) ∧
      (∀ desk steps raw, ((Session.run { board := some board, desk } steps).message raw).2.2 ≠
        .aborted .zeroWindow) ∧
      ∀ dial, (trader.run dial).ending ≠ .aborted .zeroWindow) ∧
    ((∃ r, (board.stores.get r).window.millis = 0) → ∀ desk raw, ticksOf raw ≠ [] →
      (Session.message { board := some board, desk } raw).2.2 = .aborted .zeroWindow) := by
  intro nonempty fault board trader
  have haggregation := Config.validate_aggregation hvalid
  have hget : ∀ r, (board.stores.get r).window = ⟨c.aggregation.resolutionsSecs.get r⟩ := fun r => by
    simp only [board, ofConfig_get]
    rfl
  refine ⟨checkConfig_exitCode hvalid, ⟨rfl, fun _ => rfl, fun _ => Desk.open?_eq_ok_iff⟩,
    ⟨fun _ => Trader.open?_eq_ok_iff, fun _ => Trader.open?_eq_error_iff⟩,
    fun key dial close => ⟨fun h => ?_, fun h hkey => ?_⟩,
    fun r => ⟨resolutionsSecs_pos haggregation r, ?_⟩, fun hne => ?_, fun ⟨r, hzero⟩ desk raw hraw => ?_⟩
  · apply run_of_empty
    exact h
  · apply run_of_no_credential
    exacts [h, hkey]
  · rw [hget, Window.millis_eq_zero_iff]
  · have hproper : c.aggregation.Proper := fun r _ => hget r ▸ hne r
    refine ⟨fun calls t => ?_, fun desk steps raw => ?_,
      Trader.run_ne_zeroWindow (Session.proper_of_config hproper _ _)⟩
    · rw [offer_all ((proper_ofConfig hproper).callAll calls), foldl_callAll_feedAll]
    · have hsession : Session.Proper { board := some board, desk } :=
        Session.proper_of_config hproper {} desk
      exact ((hsession.run steps).message raw).2
  · refine Session.message_zeroWindow (fun hproper => hproper r r.mem_all ?_) desk hraw
    exact hget r ▸ hzero

end CommandLine

end

namespace CommandLine

open Momentum

attribute [local instance] TimeZones.table SettingsReader.plain

/-- A session that starts after it ends. -/
def lateOpening : Config :=
  { (default : Config) with
    strategy := { (default : Config.Momentum) with sessionStart := .ofMillis 36000000 } }

theorem lateOpening_valid : lateOpening.validate = .ok () := by decide +kernel

theorem lateOpening_empty :
    ¬ lateOpening.strategy.sessionStart < lateOpening.strategy.sessionEnd := by decide

theorem lateOpening_refusal : Outcome.failed (FeedError.config (.session
      lateOpening.strategy.sessionStart lateOpening.strategy.sessionEnd)).message =
    .failed "Configuration error: empty session window 10:00:00 - 09:25:00" := by decide +kernel

/-- The built-in defaults can be run, and the late opening cannot. -/
theorem run_starts_iff_default :
    ((default : Config).validate = .ok () ∧ Trader.open? default = .ok (.opened default) ∧
      run Feed.Client.dialNowhere false default =
        .failed "Authentication error: Authentication information not provided") ∧
    lateOpening.validate = .ok () ∧ (∀ t, Trader.open? lateOpening ≠ .ok t) ∧
      ∀ dial, run dial false lateOpening =
        .failed "Configuration error: empty session window 10:00:00 - 09:25:00" := by
  obtain ⟨-, -, ⟨hopen, -⟩, hrun, -⟩ := run_starts_iff Config.validate_default
  obtain ⟨-, -, ⟨hopenLate, -⟩, hrunLate, -⟩ := run_starts_iff lateOpening_valid
  refine ⟨⟨Config.validate_default, (hopen _).2 ⟨by decide, rfl⟩, ?_⟩, lateOpening_valid,
    fun t ht => lateOpening_empty ((hopenLate t).1 ht).1, fun dial => ?_⟩
  · exact (hrun none Feed.Client.dialNowhere false).2 (by decide) rfl
  · exact ((hrunLate none dial false).1 lateOpening_empty).trans lateOpening_refusal

/-- Settings that say no more than the late opening. -/
def lateSettings : Surroundings where
  files := [("config.toml", .file "[strategy]\nsession_start = \"10:00:00\"\n".toUTF8)]

/-- The length of the last window comes out as zero. -/
def endless : Config :=
  { (default : Config) with aggregation := { resolutionsSecs := ⟨1, 10, 60, 2 ^ 61⟩ } }

/-- A message with one tick. -/
def oneRecord : String :=
  "[\x7b\"ev\":\"A\",\"sym\":\"SPCE\",\"v\":1,\"av\":1,\"op\":2,\"vw\":2," ++
    "\"o\":2,\"c\":2,\"h\":2,\"l\":2,\"s\":12000,\"e\":13999\x7d]"

/-- `check-config` accepts them, and `run` does not get to the credential. An endless window is valid too,
and the first tick is given up for it. -/
theorem accepted_then_refused :
    configuration (completed lateSettings) none = .ok lateOpening ∧ lateOpening.validate = .ok () ∧
      (outcome lateSettings Feed.Client.dialNowhere ["check-config"]).exitCode = 0 ∧
      outcome lateSettings Feed.Client.dialNowhere ["run"] =
        .failed "Configuration error: empty session window 10:00:00 - 09:25:00" ∧
      (¬ ∀ c : Config, c.validate = .ok () → ∃ t, Trader.open? c = .ok t) ∧
      endless.validate = .ok () ∧
      (Session.message (Trader.opened endless).session oneRecord).2.2 = .aborted .zeroWindow := by
  have hsettings : configuration (completed lateSettings) none = .ok lateOpening := by decide +kernel
  have hcheck : ofArguments none ["check-config"] = .command .checkConfig none := rfl
  have hrun : ofArguments none ["run"] = .command (.run false) none := rfl
  refine ⟨hsettings, lateOpening_valid, ?_, ?_, fun h => ?_, by decide +kernel, by decide +kernel⟩
  · rw [outcome_of_configuration hcheck hsettings]
    exact checkConfig_exitCode lateOpening_valid
  · rw [outcome_of_configuration hrun hsettings]
    exact (run_of_empty lateOpening_empty Feed.Client.dialNowhere false).trans lateOpening_refusal
  · obtain ⟨t, ht⟩ := h lateOpening lateOpening_valid
    rw [Trader.open?_eq, if_neg lateOpening_empty] at ht
    cases ht

end CommandLine

end TapeReader

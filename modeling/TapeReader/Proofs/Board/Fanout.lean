import TapeReader.Board.Watcher
import TapeReader.Proofs.Market.Ledger

/-!
# One message, four stores

* `Config.Aggregation.Proper`, `Config.Aggregation.InRange`: configurations of which no window comes out
  with length zero, and those whose windows milliseconds can count.
* `ticksOf`: the ticks that a payload brings; `receive_eq`: a message is its ticks applied.
* `ticks_keep`: what each tick of a message keeps, the message keeps; `Invariant`: what any tick keeps.
* `OnlyLooks`: watchers that leave the stores alone.
* `offer_all`: a tick is fed to every store, whatever the others make of it.
* `receive_spec`: **a message feeds every store the ticks of its payload**; nothing in a payload
  makes it give up.
-/

namespace TapeReader

theorem Resolution.mem_all (r : Resolution) : r ∈ all := by
  cases r <;> decide

namespace PerResolution

variable {α β : Type}

theorem get_map (f : α → β) (p : PerResolution α) (r : Resolution) :
    (p.map f).get r = f (p.get r) := by
  cases r <;> rfl

end PerResolution

namespace Config.Aggregation

/-- No window comes out with length zero. -/
def Proper (c : Aggregation) : Prop :=
  ∀ r ∈ Resolution.all, Window.millis ⟨c.resolutionsSecs.get r⟩ ≠ 0

instance : DecidablePred Proper := fun _ => inferInstanceAs (Decidable (∀ r ∈ _, _))

/-- Milliseconds count the length of every window in 64 bits. -/
def InRange (c : Aggregation) : Prop :=
  ∀ r ∈ Resolution.all, Window.InRange ⟨c.resolutionsSecs.get r⟩

instance : DecidablePred InRange := fun _ => inferInstanceAs (Decidable (∀ r ∈ _, _))

variable {c : Aggregation}

theorem InRange.window (h : c.InRange) (r : Resolution) :
    Window.InRange ⟨c.resolutionsSecs.get r⟩ := h r r.mem_all

theorem InRange.proper (h : c.InRange) : c.Proper := fun r hr => (h r hr).millis_pos.ne'

/-- **Which windows come out with length zero**: those of a multiple of `2 ^ 61` seconds. -/
theorem proper_iff : c.Proper ↔ ∀ r, ¬ 2 ^ 61 ∣ c.resolutionsSecs.get r := by
  unfold Proper
  simp only [ne_eq, Window.millis_eq_zero_iff]
  exact ⟨fun h r => h r r.mem_all, fun h r _ => h r⟩

end Config.Aggregation

namespace Board

variable {κ σ ν : Type}

/-- The ticks that a payload brings: those of its aggregate records that decode and are valid. -/
def ticksOf (payload : String) : List Tick :=
  ((records? payload).getD []).filterMap fun record =>
    if (record.get? "ev").bind Json.string? = some "A" then
      (Tick.ofJson? record).filter fun t => t.validate.isOk
    else none

theorem ofRecord?_eq (record : Json) :
    Tick.ofRecord? record =
      if (record.get? "ev").bind Json.string? = some "A" then
        (Tick.ofJson? record).filter fun t => t.validate.isOk
      else none := by
  unfold Tick.ofRecord? Tick.aggregateEvent
  cases (record.get? "ev").bind Json.string? with
  | none => rfl
  | some event =>
    by_cases hA : event = "A"
    · simp only [hA, if_true]
      cases Tick.ofJson? record <;> rfl
    · simp [hA]

/-- The ticks of a message are valid, and have 64 bits. -/
theorem of_mem_ticksOf {raw : String} {t : Tick} (h : t ∈ ticksOf raw) : t.validate = .ok () ∧ t.Sized := by
  obtain ⟨record, -, hrecord⟩ := List.mem_filterMap.1 h
  split at hrecord
  · obtain ⟨hread, hvalid⟩ := Option.filter_eq_some_iff.1 hrecord
    refine ⟨?_, Tick.sized_of_ofJson? hread⟩
    cases hv : t.validate with
    | ok u => rfl
    | error v => simp [hv, Except.isOk, Except.toBool] at hvalid
  · cases hrecord

/-- The answer to a message whose ticks have been applied. -/
def counted (raw : String) : Except MessageFault ℕ :=
  match records? raw with
  | none => .error .decode
  | some [] => .error .emptyBatch
  | some _ => .ok (ticksOf raw).length

theorem counted_cases (raw : String) :
    counted raw = .ok (ticksOf raw).length ∨
      ticksOf raw = [] ∧ (counted raw = .error .decode ∨ counted raw = .error .emptyBatch) := by
  unfold counted ticksOf
  cases records? raw with
  | none => exact Or.inr ⟨rfl, Or.inl rfl⟩
  | some records =>
    cases records with
    | nil => exact Or.inr ⟨rfl, Or.inr rfl⟩
    | cons record rest => exact Or.inl rfl

theorem counted_ne_abort (raw : String) (a : Abort) : counted raw ≠ .error (.abort a) := by
  unfold counted
  split <;> simp

/-- **A message is its ticks applied.** One that does not decode, or has no records, has no ticks.
-/
theorem receive_eq (react : Reaction κ σ ν) (raw : String) (w : World κ σ) :
    let applied := applyAll react w.board.watchers.entries (ticksOf raw) w
    receive react raw w = (applied.1, applied.2.1, match applied.2.2 with
      | .ok () => counted raw
      | .error a => .error (.abort a)) := by
  unfold receive counted ticksOf
  simp only [← ofRecord?_eq]
  cases records? raw with
  | none => rfl
  | some records =>
    cases records with
    | nil => rfl
    | cons record rest =>
      simp only [Option.getD_some]
      cases applyAll react w.board.watchers.entries
          ((record :: rest).filterMap Tick.ofRecord?) w with
      | mk w' p =>
        obtain ⟨notices, done⟩ := p
        cases done <;> rfl

/-- No window has length zero. -/
def Proper (stores : PerResolution Store) : Prop := ∀ r, (stores.get r).window.millis ≠ 0

/-- Every store fed a tick. -/
def feedAll (stores : PerResolution Store) (t : Tick) : PerResolution Store :=
  stores.map (·.feed t)

variable {stores : PerResolution Store}

/-- One store of several fed a tick. -/
def feedAt (t : Tick) (stores : PerResolution Store) (r : Resolution) : PerResolution Store :=
  stores.set r ((stores.get r).feed t)

theorem Proper.feedAt (h : Proper stores) (t : Tick) (r : Resolution) :
    Proper (Board.feedAt t stores r) := by
  intro r'
  have hr := h r'
  unfold Board.feedAt
  cases r <;> cases r' <;> first | exact hr | exact (Store.feed_window _ t).symm ▸ hr

/-- Stores that are asked in turn are fed in turn, whatever they make of the tick. -/
theorem offer_eq (h : Proper stores) (t : Tick) (asked : List Resolution) :
    offer t asked stores = (asked.foldl (feedAt t) stores, .ok ()) := by
  induction asked generalizing stores with
  | nil => rfl
  | cons r rest ih =>
    have hne := Store.add_ne_zeroWindow (h r) t
    rw [offer, List.foldl_cons, ← ih (h.feedAt t r)]
    unfold feedAt Store.feed
    cases hadd : (stores.get r).add t with
    | ok a => rfl
    | error e =>
      cases e with
      | zeroWindow => exact absurd hadd hne
      | violation v =>
        -- a store that refuses the tick is put back as it was
        have hset : stores.set r (stores.get r) = stores := by cases r <;> rfl
        rw [hset]

/-- **A tick is fed to every store**, whatever the others make of it. -/
theorem offer_all (h : Proper stores) (t : Tick) :
    offer t Resolution.all stores = (feedAll stores t, .ok ()) :=
  offer_eq h t Resolution.all

/-- A tick is given up when one of the stores that are asked gives up on it. -/
theorem offer_zeroWindow {t : Tick} {asked : List Resolution}
    {r : Resolution} (hr : r ∈ asked) (hadd : (stores.get r).add t = .error .zeroWindow) :
    (offer t asked stores).2 = .error .zeroWindow := by
  induction asked generalizing stores with
  | nil => cases hr
  | cons first rest ih =>
    unfold offer
    by_cases hfirst : first = r
    · rw [hfirst, hadd]
    · have hrest : r ∈ rest := (List.mem_cons.1 hr).resolve_left (Ne.symm hfirst)
      cases hask : (stores.get first).add t with
      | error refusal =>
        cases refusal with
        | violation v => exact ih hrest hadd
        | zeroWindow => rfl
      | ok added =>
        -- the store asked first is another one
        have hother : (stores.set first added.1).get r = stores.get r := by
          cases first <;> cases r <;> first | rfl | exact absurd rfl hfirst
        exact ih hrest (hother ▸ hadd)

/-- A tick leaves the windows as they are. -/
theorem feedAll_window (stores : PerResolution Store) (t : Tick) (r : Resolution) :
    ((feedAll stores t).get r).window = (stores.get r).window := by
  unfold feedAll
  rw [PerResolution.get_map, Store.feed_window]

theorem Proper.feedAll (h : Proper stores) (t : Tick) : Proper (Board.feedAll stores t) := by
  intro r
  rw [feedAll_window]
  exact h r

/-- Every store is fed on its own. -/
theorem get_foldl_feedAll (stores : PerResolution Store) (ticks : List Tick) (r : Resolution) :
    (ticks.foldl feedAll stores).get r = ticks.foldl Store.feed (stores.get r) := by
  induction ticks generalizing stores with
  | nil => rfl
  | cons t rest ih =>
    rw [List.foldl_cons, List.foldl_cons, ih, feedAll, PerResolution.get_map]

/-- The stores of a configuration have not been called yet. -/
theorem ofConfig_get (c : Config.Aggregation) (r : Resolution) :
    (ofConfig c : Board κ).stores.get r = .fresh ⟨c.resolutionsSecs.get r⟩ c.historyLen := by
  unfold ofConfig
  rw [PerResolution.get_map]
  rfl

/-- The windows of a valid configuration have a length above zero. -/
theorem resolutionsSecs_pos {c : Config.Aggregation} (h : c.validate = .ok ()) (r : Resolution) :
    0 < c.resolutionsSecs.get r := by
  unfold Config.Aggregation.validate at h
  split at h
  · cases h
  · rename_i hfind
    have hnot := List.find?_eq_none.1 hfind (c.resolutionsSecs.get r)
      (by cases r <;> simp [PerResolution.toList, PerResolution.get])
    simpa using hnot

theorem proper_ofConfig {c : Config.Aggregation} (h : c.Proper) :
    Proper (ofConfig c : Board κ).stores := by
  intro r
  rw [ofConfig_get]
  exact h r r.mem_all

/-- A history of a board that was fed is that of a store of its own. -/
theorem history_of_foldl {b : Board κ} {c : Config.Aggregation} {ticks : List Tick}
    (h : b.stores = ticks.foldl feedAll (ofConfig c : Board κ).stores) (r : Resolution)
    (ticker : String) :
    b.history r ticker =
      (ticks.foldl Store.feed (.fresh ⟨c.resolutionsSecs.get r⟩ c.historyLen)).history ticker := by
  unfold history
  rw [h, get_foldl_feedAll, ofConfig_get]

/-! ## What a message keeps -/

section Keeps

variable {react : Reaction κ σ ν} {told : List (String × κ)} {ticks : List Tick}
  {P : World κ σ → Prop} {w : World κ σ}

theorem notify_keeps (htold : ∀ e ∈ told, ∀ ticker w, P w → P (react e.2 ticker w).1)
    (ticker : String) (hw : P w) : P (notify react ticker told w).1 := by
  induction told generalizing w with
  | nil => exact hw
  | cons entry rest ih =>
    obtain ⟨name, watcher⟩ := entry
    have hfirst := htold (name, watcher) List.mem_cons_self ticker w hw
    unfold notify
    cases hr : react watcher ticker w with
    | mk w' result =>
      rw [hr] at hfirst
      cases result with
      | error a => exact hfirst
      | ok note => exact ih (fun e he => htold e (List.mem_cons_of_mem _ he)) hfirst

theorem apply_keeps {t : Tick}
    (hoffered : P { w with board := { w.board with
      stores := (offer t Resolution.all w.board.stores).1 } })
    (htold : ∀ e ∈ told, ∀ ticker w, P w → P (react e.2 ticker w).1) :
    P (apply react told t w).1 := by
  unfold apply
  cases hr : offer t Resolution.all w.board.stores with
  | mk stores done =>
    rw [hr] at hoffered
    cases done with
    | error a => exact hoffered
    | ok u => exact notify_keeps htold t.ticker hoffered

/-- **What each tick of some keeps when it is offered**, and the watchers when they are told, these
ticks applied in turn keep. -/
theorem ticks_keep (hoffered : ∀ t ∈ ticks, ∀ w, P w →
      P { w with board := { w.board with stores := (offer t Resolution.all w.board.stores).1 } })
    (htold : ∀ e ∈ told, ∀ ticker w, P w → P (react e.2 ticker w).1) (hw : P w) :
    P (applyAll react told ticks w).1 := by
  induction ticks generalizing w with
  | nil => exact hw
  | cons t rest ih =>
    have hfirst : P (apply react told t w).1 :=
      apply_keeps (hoffered t List.mem_cons_self w hw) htold
    unfold applyAll
    cases hr : apply react told t w with
    | mk w' p =>
      obtain ⟨notices, done⟩ := p
      rw [hr] at hfirst
      cases done with
      | error a => exact hfirst
      | ok u => exact ih (fun a ha => hoffered a (List.mem_cons_of_mem _ ha)) hfirst

end Keeps

/-- A property of worlds that stays when stores are offered a tick, and when some watchers are told a
ticker. -/
structure Invariant (react : Reaction κ σ ν) (told : List (String × κ)) (P : World κ σ → Prop) :
    Prop where
  offered : ∀ t w, P w →
    P { w with board := { w.board with stores := (offer t Resolution.all w.board.stores).1 } }
  told : ∀ e ∈ told, ∀ ticker w, P w → P (react e.2 ticker w).1

namespace Invariant

variable {react : Reaction κ σ ν} {told : List (String × κ)} {P : World κ σ → Prop}
  {w : World κ σ}

theorem apply (h : Invariant react told P) (t : Tick) (hw : P w) :
    P (apply react told t w).1 := apply_keeps (h.offered t w hw) h.told

/-- **What every tick keeps, all ticks keep.** -/
theorem applyAll (h : Invariant react told P) (ticks : List Tick) (hw : P w) :
    P (applyAll react told ticks w).1 := ticks_keep (fun t _ => h.offered t) h.told hw

end Invariant

/-! ## Watchers -/

/-- Watchers of a kind only look: they leave the stores alone, and let only their like join. -/
structure OnlyLooks (react : Reaction κ σ ν) (kind : κ → Prop) : Prop where
  stores : ∀ k, kind k → ∀ ticker w, (react k ticker w).1.board.stores = w.board.stores
  joins : ∀ k, kind k → ∀ ticker w, (∀ e ∈ w.board.watchers.entries, kind e.2) →
    ∀ e ∈ (react k ticker w).1.board.watchers.entries, kind e.2

/-- Some watcher of a kind gives up in this way, on some ticker in some world. -/
def GivesUp (react : Reaction κ σ ν) (kind : κ → Prop) (a : Abort) : Prop :=
  ∃ k, kind k ∧ ∃ ticker w, (react k ticker w).2 = .error a

/-- The board of a world has stores whose windows have a length, and watchers of a kind. -/
structure Watched (kind : κ → Prop) (w : World κ σ) : Prop where
  proper : Proper w.board.stores
  watchers : ∀ e ∈ w.board.watchers.entries, kind e.2

variable {react : Reaction κ σ ν} {kind : κ → Prop} {w w' : World κ σ} {a : Abort}
  {notices : List (Notice ν)}

theorem notify_spec (hlook : OnlyLooks react kind) (ticker : String)
    (told : List (String × κ)) (htold : ∀ e ∈ told, kind e.2) (w : World κ σ)
    (hw : Watched kind w) :
    Watched kind (notify react ticker told w).1 ∧
      (notify react ticker told w).1.board.stores = w.board.stores ∧
      ∀ a, (notify react ticker told w).2.2 = .error a → GivesUp react kind a := by
  induction told generalizing w with
  | nil => exact ⟨hw, rfl, nofun⟩
  | cons entry rest ih =>
    obtain ⟨name, k⟩ := entry
    have hk : kind k := htold (name, k) (by simp)
    have hstores := hlook.stores k hk ticker w
    have hnext : Watched kind (react k ticker w).1 :=
      ⟨hstores ▸ hw.proper, hlook.joins k hk ticker w hw.watchers⟩
    unfold notify
    cases hr : react k ticker w with
    | mk w' result =>
      rw [hr] at hstores hnext
      cases result with
      | error a =>
        refine ⟨hnext, hstores, fun b hb => ?_⟩
        cases hb
        exact ⟨k, hk, ticker, w, by rw [hr]⟩
      | ok note =>
        obtain ⟨h1, h2, h3⟩ := ih (fun e he => htold e (by simp [he])) w' hnext
        exact ⟨h1, h2.trans hstores, h3⟩

/-- A tick applied is fed to every store. -/
theorem apply_spec (hlook : OnlyLooks react kind) (told : List (String × κ))
    (htold : ∀ e ∈ told, kind e.2) (t : Tick) (w : World κ σ) (hw : Watched kind w) :
    Watched kind (apply react told t w).1 ∧
      (apply react told t w).1.board.stores = feedAll w.board.stores t ∧
      ∀ a, (apply react told t w).2.2 = .error a → GivesUp react kind a := by
  unfold apply
  rw [offer_all hw.proper]
  exact notify_spec hlook t.ticker told htold _ ⟨hw.proper.feedAll t, hw.watchers⟩

theorem applyAll_spec (hlook : OnlyLooks react kind) (told : List (String × κ))
    (htold : ∀ e ∈ told, kind e.2) (ticks : List Tick) (w : World κ σ) (hw : Watched kind w) :
    Watched kind (applyAll react told ticks w).1 ∧
      ((applyAll react told ticks w).2.2 = .ok () →
        (applyAll react told ticks w).1.board.stores = ticks.foldl feedAll w.board.stores) ∧
      ∀ a, (applyAll react told ticks w).2.2 = .error a → GivesUp react kind a := by
  induction ticks generalizing w with
  | nil => exact ⟨hw, fun _ => rfl, nofun⟩
  | cons t rest ih =>
    obtain ⟨hnext, hstores, hgive⟩ := apply_spec hlook told htold t w hw
    unfold applyAll
    cases hr : apply react told t w with
    | mk w' p =>
      obtain ⟨notices, done⟩ := p
      rw [hr] at hnext hstores hgive
      cases done with
      | error a => exact ⟨hnext, nofun, hgive⟩
      | ok u =>
        obtain ⟨h1, h2, h3⟩ := ih w' hnext
        refine ⟨h1, fun hdone => ?_, h3⟩
        rw [List.foldl_cons, ← hstores]
        exact h2 hdone

/-- **A message feeds every store the ticks of its payload.** It gives up only when a watcher
does, and not for anything in the payload. -/
theorem receive_spec (hlook : OnlyLooks react kind) (raw : String) (w : World κ σ)
    (hw : Watched kind w) :
    Watched kind (receive react raw w).1 ∧
      ((∀ a, (receive react raw w).2.2 ≠ .error (.abort a)) →
        (receive react raw w).1.board.stores = (ticksOf raw).foldl feedAll w.board.stores) ∧
      ∀ a, (receive react raw w).2.2 = .error (.abort a) → GivesUp react kind a := by
  obtain ⟨hnext, hfed, hgive⟩ :=
    applyAll_spec hlook w.board.watchers.entries hw.watchers (ticksOf raw) w hw
  rw [receive_eq]
  dsimp only
  cases hdone : (applyAll react w.board.watchers.entries (ticksOf raw) w).2.2 with
  | ok u => exact ⟨hnext, fun _ => hfed hdone, fun a ha => absurd ha (counted_ne_abort raw a)⟩
  | error a =>
    refine ⟨hnext, fun hnot => absurd rfl (hnot a), fun b hb => ?_⟩
    cases hb
    exact hgive a hdone

end Board

namespace Watcher

open Board

/-- Every watcher but one that forgets the bars only looks. -/
theorem onlyLooks : OnlyLooks Watcher.react (· ≠ .clearer) where
  stores k hk ticker w := by
    cases k with
    | clearer => exact absurd rfl hk
    | observer => rfl
    | reader => rfl
    | installer target =>
      simp only [react, Board.register]
      cases w.board.watchers.register target .observer <;> rfl
    | remover target =>
      simp only [react, Board.unregister]
      cases w.board.watchers.unregister target <;> rfl
  joins k hk ticker w hall := by
    cases k with
    | clearer => exact absurd rfl hk
    | observer => exact hall
    | reader => exact hall
    | installer target =>
      simp only [react, Board.register, Roster.register]
      split
      · exact hall
      · intro e he
        rcases List.mem_append.1 he with he | he
        · exact hall e he
        · rw [List.mem_singleton.1 he]
          simp
    | remover target =>
      simp only [react, Board.unregister, Roster.unregister]
      split
      · exact hall
      · exact fun e he => hall e (List.mem_filter.1 he).1

/-- No watcher gives up. -/
theorem not_givesUp (kind : Watcher → Prop) (a : Abort) :
    ¬ GivesUp Watcher.react kind a := by
  rintro ⟨k, -, ticker, w, h⟩
  cases k with
  | observer => cases h
  | reader => cases h
  | clearer => cases h
  | installer target =>
    simp only [react] at h
    cases hr : w.board.register target Watcher.observer <;> simp [hr, change] at h
  | remover target =>
    simp only [react] at h
    cases hr : w.board.unregister target <;> simp [hr, change] at h
end Watcher

end TapeReader

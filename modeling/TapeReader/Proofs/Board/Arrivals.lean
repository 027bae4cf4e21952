import TapeReader.Proofs.Board.Acts
import TapeReader.Proofs.Board.Batches
import TapeReader.Proofs.Board.Calls

/-!
# What arrives at a board

A board with the ticks that it is offered, by messages or otherwise.

* `Brings`: stores with calls made on them that bring some ticks; `BringsNone`: watchers that bring none.
* `Comes`: the moments of a board of a configuration, those in the middle of a message too, with the ticks
  that have come by then.
* `Comes.receives`: **messages lead from such a moment to another**, with more of their ticks, when the
  watchers bring none.
* `Comes.brings`: at all of them the stores have only been called with these ticks.
-/

namespace TapeReader.Board

variable {κ σ ν : Type}

/-! ## Calls -/

/-- Stores with calls made on them that bring some ticks, one after the other. -/
def Brings (ticks : List Tick) (stores stores' : PerResolution Store) : Prop :=
  ∃ calls : List Call, calls.filterMap Call.tick? = ticks ∧ stores' = calls.foldl callAll stores

variable {stores stores' stores'' : PerResolution Store} {ticks more : List Tick} {t : Tick}

theorem Brings.refl (stores : PerResolution Store) : Brings [] stores stores := ⟨[], rfl, rfl⟩

theorem Brings.trans (h : Brings ticks stores stores') (h' : Brings more stores' stores'') :
    Brings (ticks ++ more) stores stores'' := by
  obtain ⟨calls, rfl, rfl⟩ := h
  obtain ⟨calls', rfl, rfl⟩ := h'
  exact ⟨calls ++ calls', List.filterMap_append, List.foldl_append.symm⟩

theorem brings_feedAll (stores : PerResolution Store) (t : Tick) :
    Brings [t] stores (feedAll stores t) := ⟨[.add t], rfl, rfl⟩

theorem Brings.proper (h : Brings ticks stores stores') (hproper : Proper stores) :
    Proper stores' := by
  obtain ⟨calls, -, rfl⟩ := h
  exact hproper.callAll calls

/-- An act forgets the bars, or leaves the stores alone. -/
theorem brings_act (b : Board κ) (a : Act κ) : Brings [] b.stores (b.act a).stores := by
  cases a with
  | clear => exact ⟨[.clear], rfl, rfl⟩
  | register name watcher =>
    simp only [act, register]
    cases b.watchers.register name watcher <;> exact .refl _
  | unregister name =>
    simp only [act, unregister]
    cases b.watchers.unregister name <;> exact .refl _

theorem brings_foldl_act (b : Board κ) (acts : List (Act κ)) :
    Brings [] b.stores (acts.foldl act b).stores := by
  induction acts generalizing b with
  | nil => exact .refl _
  | cons a rest ih => exact (brings_act b a).trans (ih (b.act a))

/-- Watchers bring no ticks to the stores. -/
def BringsNone (react : Reaction κ σ ν) : Prop :=
  ∀ watcher ticker w, Brings [] w.board.stores (react watcher ticker w).1.board.stores

variable {react : Reaction κ σ ν} {told : List (String × κ)} {c : Config.Aggregation} {w : World κ σ}

/-- Those that work by acts bring none. -/
theorem WorksBy.bringsNone {acts : κ → String → World κ σ → List (Act κ)}
    (h : WorksBy react acts) : BringsNone react := by
  intro watcher ticker w
  rw [h watcher ticker w]
  exact brings_foldl_act w.board _

/-! ## Moments -/

/-- **The moments of a board** of a configuration, with the ticks that have come. The board is made, is
offered a tick, is acted on from elsewhere; a watcher is told a ticker, and may bring ticks of its own; what
is around the board changes. -/
inductive Comes (react : Reaction κ σ ν) (c : Config.Aggregation) : List Tick → World κ σ → Prop
  | fresh (around : σ) : Comes react c [] ⟨ofConfig c, around⟩
  | offered {ticks : List Tick} {w : World κ σ} (h : Comes react c ticks w) (t : Tick) :
      Comes react c (ticks ++ [t]) { w with board := { w.board with
        stores := (offer t Resolution.all w.board.stores).1 } }
  | told {ticks more : List Tick} {w : World κ σ} (h : Comes react c ticks w) (watcher : κ)
      (ticker : String) (hmore : Brings more w.board.stores (react watcher ticker w).1.board.stores) :
      Comes react c (ticks ++ more) (react watcher ticker w).1
  | act {ticks : List Tick} {w : World κ σ} (h : Comes react c ticks w) (a : Act κ) :
      Comes react c ticks { w with board := w.board.act a }
  | meanwhile {ticks : List Tick} {w : World κ σ} (h : Comes react c ticks w) (around : σ) :
      Comes react c ticks { w with around }

theorem Comes.applyAll (hnone : BringsNone react) (h : Comes react c ticks w)
    (told : List (String × κ)) (more : List Tick) :
    Comes react c (ticks ++ fedBy react told more w) (applyAll react told more w).1 := by
  induction more generalizing ticks w with
  | nil => simpa only [fedBy, Board.applyAll, List.append_nil] using h
  | cons t rest ih =>
    have hfirst : Comes react c (ticks ++ [t]) (apply react told t w).1 :=
      apply_keeps (h.offered t) fun e _ ticker w hw => by
        simpa using hw.told e.2 ticker (hnone e.2 ticker w)
    unfold Board.applyAll fedBy
    cases hr : apply react told t w with
    | mk w' p =>
      obtain ⟨notices, done⟩ := p
      rw [hr] at hfirst
      cases done with
      | error a => exact hfirst
      | ok u =>
        dsimp only
        rw [List.append_cons]
        exact ih hfirst

/-- **After a message** there is another moment, with ticks of the message, all of them perhaps. -/
theorem Comes.receive (hnone : BringsNone react) (h : Comes react c ticks w) (raw : String) :
    ∃ fed, fed <+: ticksOf raw ∧ Comes react c (ticks ++ fed) (receive react raw w).1 := by
  rw [receive_eq]
  exact ⟨_, fedBy_isPrefix react _ (ticksOf raw) w, h.applyAll hnone _ (ticksOf raw)⟩

/-- **Messages in turn.** -/
theorem Comes.receives (hnone : BringsNone react) (h : Comes react c ticks w) (raws : List String) :
    ∃ fed, fed.Sublist (raws.flatMap ticksOf) ∧
      Comes react c (ticks ++ fed) (receives react raws w).1 := by
  induction raws generalizing ticks w with
  | nil => exact ⟨[], .slnil, by rwa [List.append_nil]⟩
  | cons raw rest ih =>
    obtain ⟨fed, hfed, hfirst⟩ := h.receive hnone raw
    obtain ⟨later, hlater, hlast⟩ := ih hfirst
    rw [List.append_assoc] at hlast
    exact ⟨fed ++ later, hfed.sublist.append hlater, hlast⟩

/-- **At all moments the stores have only been called with these ticks.** -/
theorem Comes.brings (hproper : c.Proper) (h : Comes react c ticks w) :
    Brings ticks (ofConfig c : Board κ).stores w.board.stores := by
  induction h with
  | fresh around => exact .refl _
  | offered _ t ih =>
    rw [offer_all (ih.proper (proper_ofConfig hproper))]
    exact ih.trans (brings_feedAll _ t)
  | told _ watcher ticker hmore ih => exact ih.trans hmore
  | act _ a ih => simpa using ih.trans (brings_act _ a)
  | meanwhile _ around ih => exact ih

/-- What a store of the board shows at such a moment. -/
theorem Comes.history_eq (hproper : c.Proper) (h : Comes react c ticks w) :
    ∃ calls : List Call, calls.filterMap Call.tick? = ticks ∧
      ∀ r ticker, w.board.history r ticker = (calls.foldl Store.after
        (.fresh ⟨c.resolutionsSecs.get r⟩ c.historyLen)).history ticker := by
  obtain ⟨calls, hticks, hstores⟩ := h.brings hproper
  refine ⟨calls, hticks, fun r ticker => ?_⟩
  unfold history
  rw [hstores, get_foldl_callAll, ofConfig_get]

end TapeReader.Board

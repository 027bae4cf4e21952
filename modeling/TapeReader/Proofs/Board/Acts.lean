import TapeReader.Proofs.Board.Fanout
import TapeReader.Proofs.Roster

/-!
# What is done to a board

* `Board.Act`, `Board.act`: a watcher registered, a watcher unregistered, the bars forgotten.
* `Roster.change`: what an act makes of a roster; a name that is refused leaves it as it is.
* `Roster.mem_entries_of_register`, `Roster.not_mem_names_of_unregister`: **what has been done to a
  name last decides whether it is there.**
-/

namespace TapeReader

variable {κ σ ν : Type}

namespace Board

/-- What may be done to a board. -/
inductive Act (κ : Type) where
  | register (name : String) (watcher : κ)
  | unregister (name : String)
  | clear
deriving DecidableEq, Repr

end Board

namespace Roster

open Board (Act)

/-- The roster after an act. A name that is refused leaves it as it is. -/
def change (r : Roster κ) : Act κ → Roster κ
  | .register name watcher => (r.register name watcher).toOption.getD r
  | .unregister name => ((r.unregister name).toOption.map (·.2)).getD r
  | .clear => r

variable {r : Roster κ} {a : Act κ} {acts earlier later : List (Act κ)} {name : String}
  {watcher : κ} {e : String × κ}

theorem entries_change_register (h : name ∉ r.names) (watcher : κ) :
    (r.change (.register name watcher)).entries = r.entries ++ [(name, watcher)] := by
  obtain ⟨r', hregister, hr⟩ := register_of_not_mem h watcher
  simp only [change, hregister]
  exact hr

theorem change_register_of_mem (h : name ∈ r.names) (watcher : κ) :
    r.change (.register name watcher) = r := by
  simp only [change, register_of_mem h]
  rfl

/-- A name that is not there takes no entry with it. -/
theorem entries_change_unregister (r : Roster κ) (name : String) :
    (r.change (.unregister name)).entries = r.entries.filter (·.1 != name) := by
  simp only [change, unregister, find?]
  cases hfind : r.entries.lookup name with
  | some watcher => rfl
  | none =>
    have hall : ∀ e ∈ r.entries, (e.1 != name) = true := by
      intro e he
      have hne : ¬ name = e.1 := by simpa using List.lookup_eq_none_iff.1 hfind e he
      simpa using Ne.symm hne
    exact (List.filter_eq_self.2 hall).symm

/-- An entry stays as long as its name is not unregistered. -/
theorem mem_entries_change (h : e ∈ r.entries) (ha : a ≠ .unregister e.1) :
    e ∈ (r.change a).entries := by
  cases a with
  | clear => exact h
  | unregister name =>
    rw [entries_change_unregister]
    have hne : e.1 ≠ name := fun hname => ha (hname ▸ rfl)
    exact List.mem_filter.2 ⟨h, by simpa using hne⟩
  | register name watcher =>
    by_cases htaken : name ∈ r.names
    · rw [change_register_of_mem htaken]
      exact h
    · rw [entries_change_register htaken]
      exact List.mem_append_left _ h

/-- A name stays away as long as it is not registered. -/
theorem not_mem_names_change (h : name ∉ r.names) (ha : ∀ watcher, a ≠ .register name watcher) :
    name ∉ (r.change a).names := by
  cases a with
  | clear => exact h
  | unregister other =>
    unfold names
    rw [entries_change_unregister]
    intro hmem
    obtain ⟨e, he, rfl⟩ := List.mem_map.1 hmem
    exact h (List.mem_map_of_mem (List.mem_filter.1 he).1)
  | register other watcher =>
    by_cases htaken : other ∈ r.names
    · rw [change_register_of_mem htaken]
      exact h
    · unfold names
      rw [entries_change_register htaken, List.map_append]
      intro hmem
      rcases List.mem_append.1 hmem with hmem | hmem
      · exact h hmem
      · obtain rfl : name = other := by simpa using hmem
        exact ha watcher rfl

theorem mem_entries_foldl (h : e ∈ r.entries) (hacts : .unregister e.1 ∉ acts) :
    e ∈ (acts.foldl change r).entries := by
  induction acts generalizing r with
  | nil => exact h
  | cons a rest ih =>
    have ha : a ≠ .unregister e.1 := fun ha => hacts (ha ▸ List.mem_cons_self)
    exact ih (mem_entries_change h ha) fun hmem => hacts (List.mem_cons_of_mem _ hmem)

theorem not_mem_names_foldl (h : name ∉ r.names)
    (hacts : ∀ watcher, .register name watcher ∉ acts) : name ∉ (acts.foldl change r).names := by
  induction acts generalizing r with
  | nil => exact h
  | cons a rest ih =>
    have hrest : ∀ watcher, .register name watcher ∉ rest := fun watcher hmem =>
      hacts watcher (List.mem_cons_of_mem _ hmem)
    refine ih (not_mem_names_change h fun watcher ha => ?_) hrest
    exact hacts watcher (ha ▸ List.mem_cons_self)

/-- **A watcher that has been registered is there**, until its name is unregistered. -/
theorem mem_entries_of_register (hfree : name ∉ (earlier.foldl change r).names)
    (hlater : .unregister name ∉ later) :
    (name, watcher) ∈ ((earlier ++ .register name watcher :: later).foldl change r).entries := by
  rw [List.foldl_append, List.foldl_cons]
  refine mem_entries_foldl ?_ hlater
  rw [entries_change_register hfree]
  exact List.mem_append_right _ List.mem_cons_self

/-- **A name that has been unregistered is away**, until it is registered. -/
theorem not_mem_names_of_unregister (hlater : ∀ watcher, .register name watcher ∉ later) :
    name ∉ ((earlier ++ .unregister name :: later).foldl change r).names := by
  rw [List.foldl_append, List.foldl_cons]
  refine not_mem_names_foldl ?_ hlater
  unfold names
  rw [entries_change_unregister]
  intro hmem
  obtain ⟨e, he, hname⟩ := List.mem_map.1 hmem
  have hother := (List.mem_filter.1 he).2
  simp [hname] at hother

end Roster

namespace Board

/-- The board after an act. A name that is refused leaves it as it is. -/
def act (b : Board κ) : Act κ → Board κ
  | .register name watcher => (b.register name watcher).toOption.getD b
  | .unregister name => (b.unregister name).toOption.getD b
  | .clear => b.clear

theorem act_watchers (b : Board κ) (a : Act κ) : (b.act a).watchers = b.watchers.change a := by
  cases a with
  | clear => rfl
  | register name watcher =>
    simp only [act, register, Roster.change]
    cases b.watchers.register name watcher <;> rfl
  | unregister name =>
    simp only [act, unregister, Roster.change]
    cases b.watchers.unregister name <;> rfl

/-- An act leaves the windows as they are. -/
theorem act_window (b : Board κ) (a : Act κ) (r : Resolution) :
    ((b.act a).stores.get r).window = (b.stores.get r).window := by
  cases a with
  | clear =>
    simp only [act, Board.clear, PerResolution.get_map]
    rfl
  | register name watcher =>
    simp only [act, register]
    cases b.watchers.register name watcher <;> rfl
  | unregister name =>
    simp only [act, unregister]
    cases b.watchers.unregister name <;> rfl

/-- Acts have been performed on the board of a world, in turn: they have made the roster what it is,
and no window has got length zero. -/
structure Performed (w : World κ σ) (acts : List (Act κ)) (w' : World κ σ) : Prop where
  roster : w'.board.watchers = acts.foldl Roster.change w.board.watchers
  proper : Proper w.board.stores → Proper w'.board.stores

theorem Performed.refl (w : World κ σ) : Performed w [] w := ⟨rfl, id⟩

theorem Performed.trans {w w' w'' : World κ σ} {acts more : List (Act κ)} (h : Performed w acts w')
    (h' : Performed w' more w'') : Performed w (acts ++ more) w'' where
  roster := by rw [h'.roster, h.roster, List.foldl_append]
  proper := h'.proper ∘ h.proper

theorem performed_act (w : World κ σ) (a : Act κ) :
    Performed w [a] { w with board := w.board.act a } where
  roster := act_watchers w.board a
  proper h r := by
    rw [act_window]
    exact h r

theorem performed_foldl (w : World κ σ) (acts : List (Act κ)) :
    Performed w acts { w with board := acts.foldl act w.board } := by
  induction acts generalizing w with
  | nil => exact .refl w
  | cons a rest ih => exact (performed_act w a).trans (ih { w with board := w.board.act a })

/-- Watchers work by acts: what one of them does to the board, told a ticker in some world, is to
perform acts in turn. -/
def WorksBy (react : Reaction κ σ ν) (acts : κ → String → World κ σ → List (Act κ)) : Prop :=
  ∀ watcher ticker w, (react watcher ticker w).1.board = (acts watcher ticker w).foldl act w.board

theorem WorksBy.performed {react : Reaction κ σ ν} {acts : κ → String → World κ σ → List (Act κ)}
    (h : WorksBy react acts) (watcher : κ) (ticker : String) (w : World κ σ) :
    Performed w (acts watcher ticker w) (react watcher ticker w).1 := by
  obtain ⟨hroster, hproper⟩ := performed_foldl w (acts watcher ticker w)
  rw [← h watcher ticker w] at hroster hproper
  exact ⟨hroster, hproper⟩

end Board

namespace Watcher

open Board

/-- The acts of a watcher. -/
def acts : Watcher → List (Act Watcher)
  | .observer | .reader => []
  | .installer target => [.register target .observer]
  | .remover target => [.unregister target]
  | .clearer => [.clear]

theorem worksBy : WorksBy Watcher.react fun watcher _ _ => watcher.acts := by
  intro watcher ticker w
  cases watcher with
  | observer | reader | clearer => rfl
  | installer target =>
    simp only [react, acts, List.foldl, act]
    cases w.board.register target .observer <;> rfl
  | remover target =>
    simp only [react, acts, List.foldl, act]
    cases w.board.unregister target <;> rfl

end Watcher

end TapeReader

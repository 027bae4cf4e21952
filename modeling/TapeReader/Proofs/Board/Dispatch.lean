import TapeReader.Proofs.Board.Acts

/-!
# Who is told of a message

Watchers change the roster and the stores while a message is under way. Whom the message tells is
settled when it comes in.

* `agenda`: what a message does, with the watchers that there are when it comes in.
* `Course`: a message under way, with the acts of its watchers; `Course.run`: its deeds, in turn.
* `receive_course`: **a message is the course of its agenda.**
* `Past`: a board after messages, and acts from elsewhere, with all that has been done to it.
* `receive_told`: **a message tells the watchers that all acts before it have left**, and no others.
-/

namespace TapeReader.Board

variable {κ σ ν : Type}

/-- One thing that a message does. -/
inductive Deed (κ : Type) where
  | offer (t : Tick)
  | tell (name : String) (watcher : κ) (ticker : String)

/-- Watchers to be told a ticker. -/
def tells (entries : List (String × κ)) (ticker : String) : List (Deed κ) :=
  entries.map fun (name, watcher) => .tell name watcher ticker

/-- What a message does with its ticks, and with the watchers that there are when it comes in: a
tick is offered to every store, and then every one of these watchers is told its ticker. -/
def agenda (entries : List (String × κ)) (ticks : List Tick) : List (Deed κ) :=
  ticks.flatMap fun t => .offer t :: tells entries t.ticker

theorem agenda_cons (entries : List (String × κ)) (t : Tick) (rest : List Tick) :
    agenda entries (t :: rest) = (.offer t :: tells entries t.ticker) ++ agenda entries rest := rfl

theorem agenda_append (entries : List (String × κ)) (ticks more : List Tick) :
    agenda entries (ticks ++ more) = agenda entries ticks ++ agenda entries more :=
  List.flatMap_append

/-- The world with a tick fed to every store. -/
def World.fed (w : World κ σ) (t : Tick) : World κ σ :=
  { w with board := { w.board with stores := feedAll w.board.stores t } }

/-- Who is told of what, if anyone is. -/
def Deed.told? : Deed κ → Option (String × String)
  | .offer _ => none
  | .tell name _ ticker => some (name, ticker)

/-- Who was told of what. -/
def Notice.told (x : Notice ν) : String × String := (x.watcher, x.ticker)

theorem agenda_told (entries : List (String × κ)) (ticks : List Tick) :
    (agenda entries ticks).filterMap Deed.told? =
      ticks.flatMap fun t => (entries.map (·.1)).map (·, t.ticker) := by
  unfold agenda tells
  rw [List.filterMap_flatMap]
  refine List.flatMap_congr fun t _ => ?_
  rw [List.filterMap_cons_none rfl, List.filterMap_map, List.map_map]
  exact congrFun List.filterMap_eq_map entries

/-- A message under way. -/
structure Course (κ σ ν : Type) where
  world : World κ σ
  notices : List (Notice ν) := []
  /-- The acts of the watchers told so far. -/
  acts : List (Act κ) := []
  done : Except Abort Unit := .ok ()

namespace Course

variable (react : Reaction κ σ ν) (acts : κ → String → World κ σ → List (Act κ))

/-- One deed. Nothing more is done when a watcher has given up. -/
def step (c : Course κ σ ν) (deed : Deed κ) : Course κ σ ν :=
  match c.done, deed with
  | .error _, _ => c
  | .ok (), .offer t => { c with world := c.world.fed t }
  | .ok (), .tell name watcher ticker =>
    let performed := c.acts ++ acts watcher ticker c.world
    match react watcher ticker c.world with
    | (world, .ok note) =>
      { world, notices := c.notices ++ [⟨name, ticker, note⟩], acts := performed, done := .ok () }
    | (world, .error a) => { c with world, acts := performed, done := .error a }

/-- Deeds done in turn. -/
def run (c : Course κ σ ν) (deeds : List (Deed κ)) : Course κ σ ν :=
  deeds.foldl (step react acts) c

theorem run_append (c : Course κ σ ν) (deeds more : List (Deed κ)) :
    c.run react acts (deeds ++ more) = (c.run react acts deeds).run react acts more :=
  List.foldl_append

variable {react acts} {c c' : Course κ σ ν} {w : World κ σ}

theorem run_cons (c : Course κ σ ν) (deed : Deed κ) (rest : List (Deed κ)) :
    c.run react acts (deed :: rest) = (c.step react acts deed).run react acts rest := rfl

theorem run_of_error {a : Abort} (h : c.done = .error a) (deeds : List (Deed κ)) :
    c.run react acts deeds = c := by
  induction deeds with
  | nil => rfl
  | cons deed rest ih =>
    have hstays : c.step react acts deed = c := by
      unfold step
      rw [h]
    unfold run at ih ⊢
    rw [List.foldl_cons, hstays, ih]

/-- A course has gone on to what telling or applying comes to. -/
structure Yields (c c' : Course κ σ ν) (result : World κ σ × List (Notice ν) × Except Abort Unit) :
    Prop where
  world : c'.world = result.1
  notices : c'.notices = c.notices ++ result.2.1
  done : c'.done = result.2.2

theorem step_tell_ok {name ticker : String} {watcher : κ} {note : ν} (hdone : c.done = .ok ())
    (hr : react watcher ticker c.world = (w, .ok note)) :
    c.step react acts (.tell name watcher ticker) =
      ⟨w, c.notices ++ [⟨name, ticker, note⟩], c.acts ++ acts watcher ticker c.world, .ok ()⟩ := by
  simp only [step, hdone, hr]

theorem step_tell_error {name ticker : String} {watcher : κ} {a : Abort} (hdone : c.done = .ok ())
    (hr : react watcher ticker c.world = (w, .error a)) :
    c.step react acts (.tell name watcher ticker) =
      ⟨w, c.notices, c.acts ++ acts watcher ticker c.world, .error a⟩ := by
  simp only [step, hdone, hr]

/-- The stores fed a tick, as a deed. -/
theorem step_offer (hdone : c.done = .ok ()) (t : Tick) :
    c.step react acts (.offer t) = { c with world := c.world.fed t } := by
  simp only [step, hdone]

/-- Watchers told in turn. -/
theorem run_tell (react : Reaction κ σ ν)
    (acts : κ → String → World κ σ → List (Act κ)) (hdone : c.done = .ok ())
    (ticker : String) (entries : List (String × κ)) :
    Yields c (c.run react acts (tells entries ticker)) (notify react ticker entries c.world) := by
  induction entries generalizing c with
  | nil => exact ⟨rfl, (List.append_nil _).symm, hdone⟩
  | cons entry rest ih =>
    obtain ⟨name, watcher⟩ := entry
    rw [show tells ((name, watcher) :: rest) ticker =
      .tell name watcher ticker :: tells rest ticker from rfl, run_cons]
    unfold notify
    cases hr : react watcher ticker c.world with
    | mk w result =>
      cases result with
      | error a =>
        rw [step_tell_error hdone hr, run_of_error rfl]
        exact ⟨rfl, (List.append_nil _).symm, rfl⟩
      | ok note =>
        rw [step_tell_ok hdone hr]
        obtain ⟨hworld, hnotices, hdone⟩ := ih (c := ⟨w, _, _, .ok ()⟩) rfl
        exact ⟨hworld, hnotices.trans (List.append_assoc ..), hdone⟩

/-- A tick applied. -/
theorem run_apply (react : Reaction κ σ ν)
    (acts : κ → String → World κ σ → List (Act κ)) (hdone : c.done = .ok ())
    (hproper : Proper c.world.board.stores) (t : Tick) (entries : List (String × κ)) :
    Yields c (c.run react acts (.offer t :: tells entries t.ticker))
      (apply react entries t c.world) := by
  rw [run_cons, step_offer hdone]
  unfold apply
  rw [offer_all hproper]
  have htold := run_tell react acts (c := { c with world := c.world.fed t }) hdone t.ticker entries
  exact ⟨htold.world, htold.notices, htold.done⟩

/-! ## What a course keeps -/

/-- The acts of a course are what has been done to the board since it began. -/
theorem performed_step (hworks : WorksBy react acts) (h : Performed w c.acts c.world)
    (deed : Deed κ) : Performed w (c.step react acts deed).acts (c.step react acts deed).world := by
  cases hdone : c.done with
  | error a =>
    have hstays : c.step react acts deed = c := run_of_error hdone [deed]
    rw [hstays]
    exact h
  | ok u =>
    cases deed with
    | offer t =>
      rw [step_offer hdone]
      exact ⟨h.roster, fun hproper => (h.proper hproper).feedAll t⟩
    | tell name watcher ticker =>
      -- the acts come on top of those before, whether the watcher gives up or not
      have hnext := h.trans (hworks.performed watcher ticker c.world)
      cases hr : react watcher ticker c.world with
      | mk w' result =>
        rw [hr] at hnext
        cases result with
        | error a =>
          rw [step_tell_error hdone hr]
          exact hnext
        | ok note =>
          rw [step_tell_ok hdone hr]
          exact hnext

theorem performed_run (hworks : WorksBy react acts) (h : Performed w c.acts c.world)
    (deeds : List (Deed κ)) :
    Performed w (c.run react acts deeds).acts (c.run react acts deeds).world := by
  induction deeds generalizing c with
  | nil => exact h
  | cons deed rest ih => exact ih (performed_step hworks h deed)

/-- Who has been told, in order: all of those to be told, or the first of them where a watcher has
given up. -/
theorem run_told (react : Reaction κ σ ν)
    (acts : κ → String → World κ σ → List (Act κ)) (c : Course κ σ ν)
    (deeds : List (Deed κ)) :
    ∃ told, told <+: deeds.filterMap Deed.told? ∧
      (c.run react acts deeds).notices.map Notice.told = c.notices.map Notice.told ++ told ∧
      ((c.run react acts deeds).done = .ok () → told = deeds.filterMap Deed.told?) := by
  induction deeds generalizing c with
  | nil => exact ⟨[], List.nil_prefix, (List.append_nil _).symm, fun _ => rfl⟩
  | cons deed rest ih =>
    cases hdone : c.done with
    | error a =>
      rw [run_of_error hdone]
      refine ⟨[], List.nil_prefix, (List.append_nil _).symm, fun hok => ?_⟩
      rw [hdone] at hok
      cases hok
    | ok u =>
      rw [run_cons]
      cases deed with
      | offer t =>
        obtain ⟨told, hprefix, htold, hall⟩ := ih (c.step react acts (.offer t))
        rw [step_offer hdone] at htold hall ⊢
        rw [List.filterMap_cons_none rfl]
        exact ⟨told, hprefix, htold, hall⟩
      | tell name watcher ticker =>
        rw [List.filterMap_cons_some (f := Deed.told?) rfl]
        cases hr : react watcher ticker c.world with
        | mk w' result =>
          cases result with
          | error a =>
            rw [step_tell_error hdone hr, run_of_error rfl]
            exact ⟨[], List.nil_prefix, (List.append_nil _).symm, nofun⟩
          | ok note =>
            rw [step_tell_ok hdone hr]
            obtain ⟨told, hprefix, htold, hall⟩ := ih ⟨w', c.notices ++ [⟨name, ticker, note⟩],
              c.acts ++ acts watcher ticker c.world, .ok ()⟩
            refine ⟨(name, ticker) :: told, ?_, ?_, fun hok => ?_⟩
            · exact (List.prefix_cons_inj _).2 hprefix
            · rw [htold, List.map_append, List.append_assoc]
              rfl
            · rw [hall hok]

/-- Ticks applied in turn. -/
theorem run_agenda (hworks : WorksBy react acts) (hdone : c.done = .ok ())
    (h : Performed w c.acts c.world) (hproper : Proper w.board.stores)
    (entries : List (String × κ)) (ticks : List Tick) :
    Yields c (c.run react acts (agenda entries ticks)) (applyAll react entries ticks c.world) := by
  -- tick by tick: the acts made on one leave the windows that the next one needs
  induction ticks generalizing c with
  | nil => exact ⟨rfl, (List.append_nil _).symm, hdone⟩
  | cons t rest ih =>
    have hfirst := run_apply react acts hdone (h.proper hproper) t entries
    have hperformed := performed_run hworks h (.offer t :: tells entries t.ticker)
    rw [agenda_cons, run_append]
    generalize c.run react acts _ = first at hfirst hperformed ⊢
    unfold applyAll
    obtain ⟨hworld, hnotices, hend⟩ := hfirst
    cases hr : apply react entries t c.world with
    | mk w' p =>
      obtain ⟨notices, done⟩ := p
      rw [hr] at hworld hnotices hend
      cases done with
      | error a =>
        rw [run_of_error hend]
        exact ⟨hworld, hnotices, hend⟩
      | ok u =>
        have hrest := ih hend hperformed
        rw [show first.world = w' from hworld] at hrest
        refine ⟨hrest.world, ?_, hrest.done⟩
        rw [hrest.notices, hnotices, List.append_assoc]

end Course

/-! ## One message -/

variable {react : Reaction κ σ ν} {acts : κ → String → World κ σ → List (Act κ)} {w : World κ σ}

/-- The course of a message: its agenda, from the world that it comes into. -/
def courseOf (react : Reaction κ σ ν) (acts : κ → String → World κ σ → List (Act κ)) (raw : String)
    (w : World κ σ) : Course κ σ ν :=
  ({ world := w } : Course κ σ ν).run react acts
    (agenda w.board.watchers.entries (ticksOf raw))

theorem performed_courseOf (hworks : WorksBy react acts) (raw : String) (w : World κ σ) :
    Performed w (courseOf react acts raw w).acts (courseOf react acts raw w).world :=
  Course.performed_run hworks (.refl w) _

/-- **A message is the course of its agenda**, which is empty where the message does not decode. -/
theorem receive_course (hworks : WorksBy react acts) (hproper : Proper w.board.stores)
    (raw : String) :
    let course := courseOf react acts raw w
    let received := receive react raw w
    received.1 = course.world ∧ received.2.1 = course.notices ∧
      received.2.2 = match course.done with
        | .ok () => counted raw
        | .error a => .error (.abort a) := by
  obtain ⟨hworld, hnotices, hdone⟩ := Course.run_agenda (c := ({ world := w } : Course κ σ ν))
    hworks rfl (.refl w) hproper w.board.watchers.entries (ticksOf raw)
  intro course received
  rw [show course.world = _ from hworld, show course.notices = _ from hnotices,
    show course.done = _ from hdone]
  rw [show received = _ from receive_eq react raw w]
  exact ⟨rfl, rfl, rfl⟩

/-- A message is counted, refused or given up, as its course has gone. -/
theorem receive_cases (hworks : WorksBy react acts) (hproper : Proper w.board.stores)
    (raw : String) :
    let course := courseOf react acts raw w
    let answer := (receive react raw w).2.2
    (course.done = .ok () ∧ answer = .ok (ticksOf raw).length) ∨
      (ticksOf raw = [] ∧ course.done = .ok () ∧
        (answer = .error .decode ∨ answer = .error .emptyBatch)) ∨
      ∃ a, course.done = .error a ∧ answer = .error (.abort a) := by
  intro course answer
  have hanswer : answer = _ := (receive_course hworks hproper raw).2.2
  change answer = match course.done with
    | .ok () => counted raw
    | .error a => .error (.abort a) at hanswer
  cases hdone : course.done with
  | error a =>
    rw [hdone] at hanswer
    exact Or.inr (Or.inr ⟨a, rfl, hanswer⟩)
  | ok u =>
    rw [hdone] at hanswer
    rcases counted_cases raw with hok | ⟨hnone, hrefused⟩
    · exact Or.inl ⟨rfl, hanswer.trans hok⟩
    · exact Or.inr (Or.inl ⟨hnone, rfl, hanswer ▸ hrefused⟩)

/-- A message tells no one but the watchers that there are when it comes in, and tells all of them
of every tick unless one gives up. -/
theorem courseOf_told (react : Reaction κ σ ν) (acts : κ → String → World κ σ → List (Act κ))
    (raw : String) (w : World κ σ) :
    let course := courseOf react acts raw w
    (∀ x ∈ course.notices, x.watcher ∈ w.board.watchers.names) ∧
      (course.done = .ok () → course.notices.map Notice.told =
        (ticksOf raw).flatMap fun t => w.board.watchers.names.map (·, t.ticker)) := by
  obtain ⟨told, hprefix, htold, hall⟩ := Course.run_told react acts
    ({ world := w } : Course κ σ ν) (agenda w.board.watchers.entries (ticksOf raw))
  intro course
  rw [agenda_told] at hprefix hall
  have hnotices : course.notices.map Notice.told = told := htold
  refine ⟨fun x hx => ?_, fun hdone => hnotices.trans (hall hdone)⟩
  have hmem := hprefix.subset (hnotices ▸ List.mem_map_of_mem hx)
  obtain ⟨t, -, ht⟩ := List.mem_flatMap.1 hmem
  obtain ⟨name, hname, heq⟩ := List.mem_map.1 ht
  rw [show x.watcher = name from (Prod.mk.inj heq).1.symm]
  exact hname

/-- When the watchers begin to be told of a tick, every store has just been fed it. -/
theorem courseOf_split (acts : κ → String → World κ σ → List (Act κ)) {raw : String}
    {earlier later : List Tick} {t : Tick} (hticks : ticksOf raw = earlier ++ t :: later) :
    let entries := w.board.watchers.entries
    let reached := ({ world := w } : Course κ σ ν).run react acts (agenda entries earlier)
    reached.done = .ok () → courseOf react acts raw w =
      (({ reached with world := reached.world.fed t } : Course κ σ ν).run react acts
        (tells entries t.ticker)).run react acts (agenda entries later) := by
  intro entries reached hdone
  unfold courseOf
  rw [hticks, agenda_append, agenda_cons, Course.run_append, Course.run_append, Course.run_cons]
  rw [Course.step_offer hdone]

/-! ## One message after others -/

/-- What a board goes through: messages, and acts from elsewhere. -/
inductive Input (κ : Type) where
  | message (raw : String)
  | act (a : Act κ)

/-- A board after what it has gone through, with every act performed on it, by watchers and from
elsewhere. -/
structure Past (κ σ : Type) where
  world : World κ σ
  acts : List (Act κ) := []

namespace Past

def next (react : Reaction κ σ ν) (acts : κ → String → World κ σ → List (Act κ)) (p : Past κ σ) :
    Input κ → Past κ σ
  | .message raw =>
    ⟨(receive react raw p.world).1, p.acts ++ (courseOf react acts raw p.world).acts⟩
  | .act a => ⟨{ p.world with board := p.world.board.act a }, p.acts ++ [a]⟩

/-- A board after inputs, in turn. -/
def after (react : Reaction κ σ ν) (acts : κ → String → World κ σ → List (Act κ)) (w : World κ σ)
    (inputs : List (Input κ)) : Past κ σ := inputs.foldl (next react acts) { world := w }

theorem performed_next {p : Past κ σ} (hworks : WorksBy react acts)
    (hproper : Proper w.board.stores) (h : Performed w p.acts p.world) (input : Input κ) :
    Performed w (p.next react acts input).acts (p.next react acts input).world := by
  cases input with
  | act a => exact h.trans (performed_act p.world a)
  | message raw =>
    have hcourse := (receive_course hworks (h.proper hproper) raw).1
    have hnext := h.trans (performed_courseOf hworks raw p.world)
    rw [← hcourse] at hnext
    exact hnext

/-- **All that has been done to a board has made its roster what it is.** -/
theorem performed_after (hworks : WorksBy react acts) (hproper : Proper w.board.stores)
    (inputs : List (Input κ)) :
    Performed w (after react acts w inputs).acts (after react acts w inputs).world := by
  suffices hall : ∀ p : Past κ σ, Performed w p.acts p.world →
      Performed w (inputs.foldl (next react acts) p).acts
        (inputs.foldl (next react acts) p).world from
    hall { world := w } (.refl w)
  induction inputs with
  | nil => exact fun _ h => h
  | cons input rest ih => exact fun p h => ih _ (performed_next hworks hproper h input)

end Past

/-- **Who is told of a message.** Watchers work by acts, on a board where no window has length zero,
and messages and acts from elsewhere have come before. The message does what its agenda says, which
is made of the watchers that there are when it comes in. Tick by tick, every store has just been fed
the tick when these watchers begin to be told its ticker, in the order of the roster, whatever they
do to the roster and to the stores meanwhile. Unless one gives up, the message is counted or
refused; one that is counted has told all of them of every tick, and one that is refused has told no
one and changed nothing. The roster that a message comes upon is what all acts before have made it,
and those of the watchers during messages are among them: a watcher registered is there until its
name is unregistered, and a name unregistered is away until it is registered. -/
theorem receive_told (hworks : WorksBy react acts) (w₀ : World κ σ)
    (hproper : Proper w₀.board.stores) (inputs : List (Input κ)) (raw : String) :
    let past := Past.after react acts w₀ inputs
    let w := past.world
    let watchers := w.board.watchers
    let course := courseOf react acts raw w
    let received := receive react raw w
    (received.1 = course.world ∧ received.2.1 = course.notices ∧
      ∀ a, received.2.2 = .error (.abort a) ↔ course.done = .error a) ∧
    (∀ earlier t later, ticksOf raw = earlier ++ t :: later →
      let reached := ({ world := w } : Course κ σ ν).run react acts
        (agenda watchers.entries earlier)
      reached.done = .ok () →
        course = (({ reached with world := reached.world.fed t } : Course κ σ ν).run react acts
          (tells watchers.entries t.ticker)).run react acts (agenda watchers.entries later)) ∧
    (∀ n, received.2.2 = .ok n → n = (ticksOf raw).length ∧ received.2.1.map Notice.told =
      (ticksOf raw).flatMap fun t => watchers.names.map (·, t.ticker)) ∧
    (received.2.2 = .error .decode ∨ received.2.2 = .error .emptyBatch →
      received.1 = w ∧ received.2.1 = [] ∧ ticksOf raw = []) ∧
    (∀ x ∈ received.2.1, x.watcher ∈ watchers.names) ∧
    watchers = past.acts.foldl Roster.change w₀.board.watchers ∧
    (∀ name watcher earlier later, past.acts = earlier ++ .register name watcher :: later →
      name ∉ (earlier.foldl Roster.change w₀.board.watchers).names → .unregister name ∉ later →
      (name, watcher) ∈ watchers.entries) ∧
    (∀ name earlier later, past.acts = earlier ++ .unregister name :: later →
      (∀ watcher, .register name watcher ∉ later) → name ∉ watchers.names) := by
  intro past w watchers course received
  have hpast : Performed w₀ past.acts w := Past.performed_after hworks hproper inputs
  have hroster : watchers = past.acts.foldl Roster.change w₀.board.watchers := hpast.roster
  obtain ⟨hworld, hnotices, -⟩ : received.1 = course.world ∧ received.2.1 = course.notices ∧ _ :=
    receive_course hworks (hpast.proper hproper) raw
  have hanswer := receive_cases hworks (hpast.proper hproper) raw
  change (course.done = _ ∧ received.2.2 = _) ∨ (_ ∧ course.done = _ ∧ (received.2.2 = _ ∨
    received.2.2 = _)) ∨ ∃ a, course.done = _ ∧ received.2.2 = _ at hanswer
  obtain ⟨honly, hall⟩ := courseOf_told react acts raw w
  refine ⟨⟨hworld, hnotices, fun a => ?_⟩, fun _ _ _ hticks => courseOf_split acts hticks,
    fun n hn => ?_, fun hrefused => ?_, ?_, hroster, ?_, ?_⟩
  · rcases hanswer with ⟨hdone, hok⟩ | ⟨-, hdone, hrefused | hrefused⟩ | ⟨b, hdone, hgiven⟩
    · simp [hdone, hok]
    · simp [hdone, hrefused]
    · simp [hdone, hrefused]
    · simp [hdone, hgiven]
  · rcases hanswer with ⟨hdone, hok⟩ | ⟨-, -, hrefused | hrefused⟩ | ⟨b, -, hgiven⟩
    · rw [hok] at hn
      exact ⟨(Except.ok.inj hn).symm, hnotices ▸ hall hdone⟩
    · simp [hrefused] at hn
    · simp [hrefused] at hn
    · simp [hgiven] at hn
  · rcases hanswer with ⟨-, hok⟩ | ⟨hnone, -, -⟩ | ⟨b, -, hgiven⟩
    · simp [hok] at hrefused
    · have hcourse : course = { world := w } := by
        simp only [course, courseOf, hnone]
        rfl
      rw [hworld, hnotices, hcourse]
      exact ⟨rfl, rfl, hnone⟩
    · simp [hgiven] at hrefused
  · rw [hnotices]
    exact honly
  · intro name watcher earlier later hacts hfree hlater
    rw [hroster, hacts]
    exact Roster.mem_entries_of_register hfree hlater
  · intro name earlier later hacts hlater
    rw [hroster, hacts]
    exact Roster.not_mem_names_of_unregister hlater

/-- A watcher that registers another, one that unregisters the one after it, and one that forgets
the bars: each message tells the watchers it came upon. -/
theorem receive_told_twice :
    let raw := "[\x7b\"ev\":\"A\",\"sym\":\"SPCE\",\"v\":1,\"av\":9,\"op\":2,\"vw\":2," ++
      "\"o\":2,\"c\":2,\"h\":2,\"l\":2,\"s\":12000,\"e\":12999\x7d]"
    let board : Board Watcher := { (ofConfig {} : Board Watcher) with
      watchers := ⟨[("installer", .installer "late"), ("remover", .remover "reader"),
        ("reader", .reader), ("clearer", .clearer)], by simp⟩ }
    let past :=
      Past.after Watcher.react (fun watcher _ _ => watcher.acts) ⟨board, ()⟩ [.message raw]
    past.acts = [.register "late" .observer, .unregister "reader", .clear] ∧
      (receive Watcher.react raw ⟨board, ()⟩).2.1.map Notice.told = [("installer", "SPCE"),
        ("remover", "SPCE"), ("reader", "SPCE"), ("clearer", "SPCE")] ∧
      (receive Watcher.react raw past.world).2.1.map Notice.told = [("installer", "SPCE"),
        ("remover", "SPCE"), ("clearer", "SPCE"), ("late", "SPCE")] ∧
      ("late", .observer) ∈ past.world.board.watchers.entries ∧
      "reader" ∉ past.world.board.watchers.names := by
  intro raw board past
  have hproper : Proper board.stores :=
    (proper_ofConfig (by decide) : Proper (ofConfig {} : Board Watcher).stores)
  have hacts : past.acts = [.register "late" .observer, .unregister "reader", .clear] := by
    decide +kernel
  have hfirst : (receive Watcher.react raw ⟨board, ()⟩).2.2 = .ok 1 := by decide +kernel
  have hsecond : (receive Watcher.react raw past.world).2.2 = .ok 1 := by decide +kernel
  obtain ⟨-, -, htold, -⟩ := receive_told Watcher.worksBy ⟨board, ()⟩ hproper [] raw
  obtain ⟨-, -, hagain, -, -, -, hregistered, hunregistered⟩ :=
    receive_told Watcher.worksBy ⟨board, ()⟩ hproper [.message raw] raw
  refine ⟨hacts, (htold 1 hfirst).2.trans (by decide +kernel),
    (hagain 1 hsecond).2.trans (by decide +kernel), ?_, ?_⟩
  · exact hregistered "late" .observer [] [.unregister "reader", .clear] hacts (by decide)
      (by decide)
  · exact hunregistered "reader" [.register "late" .observer] [.clear] hacts (by simp)

end TapeReader.Board

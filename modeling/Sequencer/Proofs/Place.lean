import Mathlib.Data.List.Induction
import Sequencer.Proofs.Order
import Sequencer.Proofs.Reached

/-! Places in the forest of discoveries. A place is the way to a step from the roots: which root,
then which discovery of each step on the way. Discoveries come last among those of their finder, so
a place never changes hands, and what a step has found is settled once the step is. -/
namespace Sequencer

abbrev Place := List Nat

def Tree.entry : Tree κ → Entry κ
  | .node entry _ => entry

def Tree.found : Tree κ → Forest κ
  | .node _ found => found

def Tree.locate : Place → Tree κ → Option (Tree κ)
  | [], tree => some tree
  | n :: rest, tree => tree.found[n]?.bind (Tree.locate rest)

def Forest.locate : Place → Forest κ → Option (Tree κ)
  | [], _ => none
  | n :: rest, forest => forest[n]?.bind (Tree.locate rest)

variable {parent : Nat} {child : Entry κ}

theorem Forest.adoptMap (forest : Forest κ) :
    forest.adopt parent child = forest.map (Tree.adopt parent child) := by
  induction forest with
  | nil => simp only [adopt, List.map_nil]
  | cons tree rest ih => simp only [adopt, List.map_cons, ih]

@[simp] theorem Tree.entryAfterAdopt (tree : Tree κ) :
    (tree.adopt parent child).entry = tree.entry := by
  cases tree
  rw [adopt]
  rfl

theorem Tree.foundAfterAdopt (tree : Tree κ) : (tree.adopt parent child).found =
    tree.found.map (Tree.adopt parent child) ++
      if tree.entry.ticket = parent then [.node child []] else [] := by
  cases tree
  rw [adopt, Forest.adoptMap]
  rfl

theorem Tree.rootsAfterAdopt (tree : Tree κ) : (tree.adopt parent child).found.map Tree.entry =
    tree.found.map Tree.entry ++ if tree.entry.ticket = parent then [child] else [] := by
  have same : Tree.entry ∘ Tree.adopt parent child = Tree.entry := funext Tree.entryAfterAdopt
  rw [foundAfterAdopt, List.map_append, List.map_map, same]
  split <;> rfl

theorem Tree.locateAfterAdopt (place : Place) {tree part : Tree κ}
    (here : tree.locate place = some part) :
    (tree.adopt parent child).locate place = some (part.adopt parent child) := by
  induction place generalizing tree with
  | nil => exact congrArg (Option.map (Tree.adopt parent child)) here
  | cons n rest ih =>
    obtain ⟨next, found, on⟩ := Option.bind_eq_some_iff.mp here
    have still : (tree.adopt parent child).found[n]? = some (next.adopt parent child) := by
      rw [foundAfterAdopt, List.getElem?_append_left, List.getElem?_map, found, Option.map_some]
      rw [List.length_map]
      exact (List.getElem?_eq_some_iff.mp found).1
    rw [locate, still]
    exact ih on

theorem Tree.locateSnoc (place : Place) (n : Nat) {tree part : Tree κ}
    (here : tree.locate place = some part) : tree.locate (place ++ [n]) = part.found[n]? := by
  induction place generalizing tree with
  | nil =>
    cases here
    simp only [List.nil_append, locate, Option.bind_fun_some]
  | cons m rest ih =>
    obtain ⟨next, found, on⟩ := Option.bind_eq_some_iff.mp here
    rw [List.cons_append, locate, found]
    exact ih on

namespace Forest

variable {forest : Forest κ} {place : Place} {tree : Tree κ}

theorem locateAfterAdopt (here : forest.locate place = some tree) :
    (forest.adopt parent child).locate place = some (tree.adopt parent child) := by
  cases place with
  | nil => cases here
  | cons n rest =>
    obtain ⟨root, found, on⟩ := Option.bind_eq_some_iff.mp here
    rw [locate, adoptMap, List.getElem?_map, found]
    exact Tree.locateAfterAdopt rest on

theorem locateSnoc (n : Nat) (here : forest.locate place = some tree) :
    forest.locate (place ++ [n]) = tree.found[n]? := by
  cases place with
  | nil => cases here
  | cons m rest =>
    obtain ⟨root, found, on⟩ := Option.bind_eq_some_iff.mp here
    rw [List.cons_append, locate, found]
    exact Tree.locateSnoc rest n on

theorem locateAfterRoot (entry : Entry κ) (here : forest.locate place = some tree) :
    Forest.locate place (forest ++ [.node entry []]) = some tree := by
  cases place with
  | nil => cases here
  | cons n rest =>
    obtain ⟨root, found, on⟩ := Option.bind_eq_some_iff.mp here
    rw [locate, List.getElem?_append_left (List.getElem?_eq_some_iff.mp found).1, found]
    exact on

theorem locateChild (here : forest.locate place = some tree) (finder : tree.entry.ticket = parent) :
    (forest.adopt parent child).locate (place ++ [tree.found.length]) = some (.node child []) := by
  rw [locateSnoc _ (locateAfterAdopt here), Tree.foundAfterAdopt, if_pos finder,
    List.getElem?_append_right (Nat.le_of_eq (List.length_map _)), List.length_map, Nat.sub_self]
  rfl

theorem locateLeaf {entry : Entry κ} (here : forest.locate place = some (.node entry []))
    (other : entry.ticket ≠ parent) :
    (forest.adopt parent child).locate place = some (.node entry []) := by
  rw [locateAfterAdopt here, Tree.adopt, if_neg other, adopt, List.append_nil]

end Forest

/- What an event leaves of what stands at a place: the step, and all it has found unless it is the
one that finds now. -/
theorem Discovery.locateAfter (queue : QueueId) (event : Event κ ν ε) {before : Discovery κ}
    {place : Place} {tree : Tree κ} (here : before.forest.locate place = some tree) :
    ∃ next, (before.observe queue event).forest.locate place = some next ∧ next.entry = tree.entry ∧
      (before.active ≠ some tree.entry.ticket →
        next.found.map Tree.entry = tree.found.map Tree.entry) := by
  have same : ∃ next, before.forest.locate place = some next ∧ next.entry = tree.entry ∧
      (before.active ≠ some tree.entry.ticket →
        next.found.map Tree.entry = tree.found.map Tree.entry) := ⟨tree, here, rfl, fun _ => rfl⟩
  cases event with
  | appended id entry nested =>
    simp only [observe]
    split
    · cases active : before.active with
      | none => exact ⟨tree, Forest.locateAfterRoot entry here, rfl, fun _ => rfl⟩
      | some finder =>
        refine ⟨_, Forest.locateAfterAdopt here, tree.entryAfterAdopt, fun other => ?_⟩
        rw [tree.rootsAfterAdopt, if_neg fun same => other (by rw [same]), List.append_nil]
    · exact same
  | activated | settled | refused =>
    simp only [observe]
    split <;> exact same
  | _ => exact same

theorem Discovery.activeAfter (queue : QueueId) (event : Event κ ν ε) {before : Discovery κ}
    {ticket : Nat} (active : (before.observe queue event).active = some ticket) :
    before.active = some ticket ∨
      ∃ entry, event.activation? = some entry ∧ entry.ticket = ticket := by
  cases event with
  | activated id entry info =>
    simp only [observe] at active
    split at active
    · exact .inr ⟨entry, rfl, Option.some.inj active⟩
    · exact .inl active
  | appended id entry nested =>
    simp only [observe] at active
    split at active
    · cases here : before.active with
      | none => simp [here] at active
      | some parent => exact .inl (by simpa [here] using active)
    · exact .inl active
  | settled | refused =>
    simp only [observe] at active
    split at active
    · cases active
    · exact .inl active
  | _ => exact .inl active

namespace Log

theorem locateGrows {queue : QueueId} {log : Log κ ν ε} {place : Place} {tree : Tree κ}
    (here : (log.discovery queue).forest.locate place = some tree) (later : Log κ ν ε) :
    ∃ grown, (Log.discovery queue (log ++ later)).forest.locate place = some grown ∧
      grown.entry = tree.entry := by
  induction later using List.reverseRecOn with
  | nil => exact ⟨tree, by rw [List.append_nil]; exact here, rfl⟩
  | append_singleton later event ih =>
    obtain ⟨grown, there, same⟩ := ih
    obtain ⟨next, onward, still, -⟩ := Discovery.locateAfter queue event there
    rw [← List.append_assoc, discoveryAppend]
    exact ⟨next, onward, still.trans same⟩

theorem activeAfter {queue : QueueId} {log : Log κ ν ε} (later : Log κ ν ε) {ticket : Nat}
    (active : (Log.discovery queue (log ++ later)).active = some ticket) :
    (log.discovery queue).active = some ticket ∨
      ∃ entry ∈ later.activated, entry.ticket = ticket := by
  induction later using List.reverseRecOn with
  | nil =>
    rw [List.append_nil] at active
    exact .inl active
  | append_singleton later event ih =>
    rw [← List.append_assoc, discoveryAppend] at active
    simp only [activated, List.filterMap_append, List.mem_append]
    rcases Discovery.activeAfter queue event active with before | ⟨entry, activation, same⟩
    · exact (ih before).imp id fun ⟨entry, present, same⟩ => ⟨entry, .inl present, same⟩
    · exact .inr ⟨entry, .inr (by simp [activation]), same⟩

theorem locateStays {queue : QueueId} {log : Log κ ν ε} {place : Place} {tree : Tree κ}
    (here : (log.discovery queue).forest.locate place = some tree)
    (idle : (log.discovery queue).active ≠ some tree.entry.ticket) (later : Log κ ν ε)
    (never : ∀ entry ∈ later.activated, entry.ticket ≠ tree.entry.ticket) :
    ∃ last, (Log.discovery queue (log ++ later)).forest.locate place = some last ∧
      last.entry = tree.entry ∧ last.found.map Tree.entry = tree.found.map Tree.entry := by
  induction later using List.reverseRecOn with
  | nil =>
    rw [List.append_nil]
    exact ⟨tree, here, rfl, rfl⟩
  | append_singleton later event ih =>
    simp only [activated, List.filterMap_append, List.mem_append] at never
    have before := fun entry present => never entry (.inl present)
    obtain ⟨last, there, same, found⟩ := ih before
    have waits : (Log.discovery queue (log ++ later)).active ≠ some last.entry.ticket := by
      intro active
      rw [same] at active
      rcases activeAfter later active with now | ⟨entry, present, named⟩
      · exact idle now
      · exact before entry present named
    obtain ⟨next, onward, still, kept⟩ := Discovery.locateAfter queue event there
    rw [← List.append_assoc, discoveryAppend]
    exact ⟨next, onward, still.trans same, (kept waits).trans found⟩

end Log

def Point.starting? : Point κ ν → Option (Entry κ)
  | .inside (.startingStep _ _ entry _) => some entry
  | _ => none

namespace Standing

variable {queue : QueueId} {name : String}

def Conserved (a : Standing κ ν ε) : Prop :=
  (a.log.activated ++ a.log.withdrawn ++ a.agenda.pending).Perm a.log.arrivals

theorem Conserved.more {agenda next : Agenda κ} {log : Log κ ν ε} {point there : Point κ ν}
    (holds : Conserved ⟨agenda, log, point⟩) (events : Log κ ν ε)
    (moved : (events.activated ++ events.withdrawn ++ next.pending).Perm
      (agenda.pending ++ events.arrivals)) : Conserved ⟨next, log ++ events, there⟩ := by
  have parts : (Log.activated (log ++ events) ++ Log.withdrawn (log ++ events) ++ next.pending).Perm
      ((log.activated ++ log.withdrawn) ++
        (events.activated ++ events.withdrawn ++ next.pending)) := by
    simp only [Log.activated, Log.withdrawn, List.filterMap_append, List.flatMap_append,
      List.append_assoc]
    exact (List.perm_append_comm_assoc _ _ _).append_left _
  refine parts.trans ((moved.append_left _).trans ?_)
  rw [← List.append_assoc]
  simpa only [Log.arrivals, List.filterMap_append] using holds.append_right events.arrivals

theorem Conserved.quiet {agenda next : Agenda κ} {log : Log κ ν ε} {point there : Point κ ν}
    (holds : Conserved ⟨agenda, log, point⟩) (events : Log κ ν ε)
    (arrivals : events.arrivals = []) (activated : events.activated = [])
    (withdrawn : events.withdrawn = []) (same : next.pending = agenda.pending) :
    Conserved ⟨next, log ++ events, there⟩ :=
  holds.more events (.of_eq (by rw [arrivals, activated, withdrawn, same]; simp))

variable (queue name) in
theorem keptConserved : Kept queue name (Conserved (κ := κ) (ν := ν) (ε := ε)) where
  start := .refl _
  given act holds := by
    cases act with
    | append agenda log point step => exact holds.more _ (agenda.pendingAfterAppend step)
    | begin agenda log value => exact holds.quiet _ rfl rfl rfl rfl
    | discard | leave => exact holds
  reply act holds := by
    cases act with
    | accept | apply => exact holds.quiet _ rfl rfl rfl rfl
    | settle agenda log stage ending run step info value settles =>
      exact holds.quiet _ rfl rfl rfl agenda.pendingAfterSettle
    | fail agenda log | refuse agenda log =>
      exact holds.more _ (.of_eq (by simp [Event.withdrawal, agenda.withdrawn, Agenda.pending,
        Event.activation?, Event.arrival?, List.filterMap_cons]))
    | goOn agenda log run info value ending heard =>
      exact holds.quiet _ (by cases ending <;> rfl) (by cases ending <;> rfl)
        (by cases ending <;> rfl) rfl
    | giveUp agenda log run info error dropped ending heard =>
      rw [List.append_assoc]
      exact holds.quiet _ (by cases ending <;> rfl) (by cases ending <;> rfl)
        (by cases ending <;> rfl) rfl
    | finish agenda log run verdict ending heard =>
      rw [List.append_assoc]
      exact holds.quiet _ (by cases ending <;> cases verdict <;> rfl)
        (by cases ending <;> cases verdict <;> rfl) (by cases ending <;> cases verdict <;> rfl) rfl
    | _ => exact holds
  follow act holds := by
    cases act with
    | activate agenda log run value entry next taken =>
      obtain ⟨pipeline, buffer, -⟩ := Agenda.activateSome taken
      refine holds.more _ ?_
      simp only [Agenda.pending, pipeline, buffer]
      simpa [Event.activation?, Event.withdrawal, Event.arrival?, List.filterMap_cons] using
        List.perm_middle.symm
    | pass => exact holds
    | _ => exact holds.quiet _ rfl rfl rfl rfl

theorem Conserved.distinct {a : Standing κ ν ε} (holds : a.Conserved) (ticketed : a.Ticketed) :
    ((a.log.activated ++ a.log.withdrawn).map Entry.ticket).Nodup := by
  have once := (holds.map Entry.ticket).nodup_iff.mpr (ticketed ▸ List.nodup_range)
  rw [List.map_append] at once
  exact once.of_append_left

theorem Conserved.within {a : Standing κ ν ε} (holds : a.Conserved) :
    (a.log.activated ++ a.log.withdrawn).length ≤ a.log.arrivals.length := by
  have all := List.Perm.length_eq holds
  rw [List.length_append] at all
  omega

structure Placed (queue : QueueId) (a : Standing κ ν ε) : Prop where
  conserved : a.Conserved
  placed : ∀ entry ∈ a.log.arrivals, ∃ place found,
    (a.log.discovery queue).forest.locate place = some (.node entry found)
  active : ∀ {ticket}, (a.log.discovery queue).active = some ticket →
    ∃ entry ∈ a.log.arrivals, entry.ticket = ticket

theorem stillPlaced {log : Log κ ν ε} {entry : Entry κ} (later : Log κ ν ε)
    (placed : ∃ place found,
      (log.discovery queue).forest.locate place = some (.node entry found)) :
    ∃ place found,
      (Log.discovery queue (log ++ later)).forest.locate place = some (.node entry found) := by
  obtain ⟨place, found, here⟩ := placed
  obtain ⟨grown, there, same⟩ := Log.locateGrows here later
  obtain ⟨other, more⟩ := grown
  cases same
  exact ⟨place, more, there⟩

theorem Placed.more {agenda next : Agenda κ} {log : Log κ ν ε} {point there : Point κ ν}
    (holds : Placed queue ⟨agenda, log, point⟩) (events : Log κ ν ε)
    (conserved : Conserved ⟨next, log ++ events, there⟩) (arrivals : events.arrivals = [])
    (activated : ∀ entry ∈ events.activated, entry ∈ log.arrivals) :
    Placed queue ⟨next, log ++ events, there⟩ := by
  have same : Log.arrivals (log ++ events) = log.arrivals := log.readQuiet arrivals
  refine ⟨conserved, fun entry present => ?_, fun marked => ?_⟩
  · rw [same] at present
    exact stillPlaced events (holds.placed entry present)
  · rw [same]
    rcases Log.activeAfter events marked with before | ⟨entry, present, named⟩
    · exact holds.active before
    · exact ⟨entry, activated entry present, named⟩

theorem Placed.quiet {agenda next : Agenda κ} {log : Log κ ν ε} {point there : Point κ ν}
    (holds : Placed queue ⟨agenda, log, point⟩) (events : Log κ ν ε)
    (conserved : Conserved ⟨next, log ++ events, there⟩) (arrivals : events.arrivals = [])
    (activated : events.activated = []) : Placed queue ⟨next, log ++ events, there⟩ :=
  holds.more events conserved arrivals (by simp [activated])

theorem Placed.append {agenda : Agenda κ} {log : Log κ ν ε} {point : Point κ ν}
    (holds : Placed queue ⟨agenda, log, point⟩) (step : Step κ) (nested : Bool)
    (conserved : Conserved ⟨agenda.append step,
      log ++ [.appended queue (agenda.entry step) nested], point⟩) :
    Placed queue
      ⟨agenda.append step, log ++ [.appended queue (agenda.entry step) nested], point⟩ := by
  have arrived : Log.arrivals (log ++ [.appended queue (agenda.entry step) nested]) =
      log.arrivals ++ [agenda.entry step] := by simp [Log.arrivals, Event.arrival?]
  refine ⟨conserved, fun entry present => ?_, fun marked => ?_⟩
  · rw [arrived, List.mem_append, List.mem_singleton] at present
    rcases present with old | rfl
    · exact stillPlaced _ (holds.placed entry old)
    · cases active : (log.discovery queue).active with
      | none =>
        refine ⟨[(log.discovery queue).forest.length], [], ?_⟩
        rw [Log.discoveryOfRoot active]
        simp [Forest.locate, Tree.locate]
      | some parent =>
        obtain ⟨finder, present, named⟩ := holds.active active
        obtain ⟨place, found, here⟩ := holds.placed finder present
        refine ⟨place ++ [found.length], [], ?_⟩
        rw [Log.discoveryOfNested active]
        exact Forest.locateChild here named
  · rw [arrived]
    rcases Log.activeAfter _ marked with before | ⟨entry, present, -⟩
    · obtain ⟨entry, present, named⟩ := holds.active before
      exact ⟨entry, List.mem_append_left _ present, named⟩
    · cases present

structure Applies (a : Standing κ ν ε) : Prop where
  applied : ∀ entry ∈ a.log.applied, entry ∈ a.log.activated
  starting : ∀ entry ∈ a.point.starting?, entry ∈ a.log.activated

theorem Applies.more {agenda next : Agenda κ} {log : Log κ ν ε} {point there : Point κ ν}
    (holds : Applies ⟨agenda, log, point⟩) (events : Log κ ν ε)
    (applied : ∀ entry ∈ events.applied, entry ∈ log.activated)
    (starting : ∀ entry ∈ there.starting?, entry ∈ Log.activated (log ++ events)) :
    Applies ⟨next, log ++ events, there⟩ := by
  refine ⟨fun entry present => ?_, starting⟩
  simp only [Log.applied, Log.activated, List.filterMap_append, List.mem_append] at present ⊢
  exact .inl (present.elim (holds.applied entry) (applied entry))

theorem Applies.quiet {agenda next : Agenda κ} {log : Log κ ν ε} {point there : Point κ ν}
    (holds : Applies ⟨agenda, log, point⟩) (events : Log κ ν ε) (applied : events.applied = [])
    (elsewhere : there.starting? = none) : Applies ⟨next, log ++ events, there⟩ :=
  holds.more events (by simp [applied]) (by simp [elsewhere])

end Standing

end Sequencer

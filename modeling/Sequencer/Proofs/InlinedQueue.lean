import Sequencer.Proofs.Inlining

/-! The queue of both executions. While no step is active, the second queue holds what is laid for
the steps of the first one; the discoveries that are still to come stand behind the target there.
While a step is active this holds of its discoveries and of the pipeline apart, but when the target
itself is active, its discoveries are at the head of the second pipeline already. -/
namespace Sequencer

variable {κ ν ε : Type}

namespace Agenda

theorem appendsActive (steps : List (Step κ)) {agenda : Agenda κ} (busy : agenda.active ≠ none) :
    (steps.foldl append agenda).active = agenda.active ∧
      (steps.foldl append agenda).pipeline = agenda.pipeline ∧
      (steps.foldl append agenda).buffer.map Entry.toStep =
        agenda.buffer.map Entry.toStep ++ steps := by
  induction steps generalizing agenda with
  | nil => simp
  | cons step rest ih =>
    obtain ⟨mark, active⟩ := Option.ne_none_iff_exists'.mp busy
    obtain ⟨pipeline, buffer⟩ := appendActive active step
    have still : (agenda.append step).active ≠ none := by rw [agenda.activeAfterAppend]; exact busy
    obtain ⟨same, waiting, found⟩ := ih still
    refine ⟨same.trans (agenda.activeAfterAppend step), waiting.trans pipeline, found.trans ?_⟩
    rw [buffer]
    simp [entry]

end Agenda

namespace Inlining

variable (plan : Inlining κ)

inductive Lays (forest : Forest κ) : List (Entry κ) → List (Step (κ × Place)) → Prop where
  | nil : Lays forest [] []
  | cons (entry place rest steps) (here : forest.locate place = some (.node entry []))
      (behind : Lays forest rest steps) :
      Lays forest (entry :: rest) (plan.lay place entry.toStep ++ steps)

variable {plan}

theorem Lays.append {forest : Forest κ} {entries others : List (Entry κ)}
    {steps more : List (Step (κ × Place))} (laid : plan.Lays forest entries steps)
    (also : plan.Lays forest others more) :
    plan.Lays forest (entries ++ others) (steps ++ more) := by
  induction laid with
  | nil => exact also
  | cons entry place rest steps here behind ih =>
    rw [List.cons_append, List.append_assoc]
    exact .cons entry place _ _ here ih

theorem Lays.single {forest : Forest κ} {entry : Entry κ} {place : Place}
    (here : forest.locate place = some (.node entry [])) :
    plan.Lays forest [entry] (plan.lay place entry.toStep) := by
  simpa using Lays.cons entry place [] [] here .nil

theorem Lays.adopt {forest : Forest κ} {entries : List (Entry κ)}
    {steps : List (Step (κ × Place))} (laid : plan.Lays forest entries steps) {parent : Nat}
    (child : Entry κ) (other : ∀ entry ∈ entries, entry.ticket ≠ parent) :
    plan.Lays (forest.adopt parent child) entries steps := by
  induction laid with
  | nil => exact .nil
  | cons entry place rest steps here behind ih =>
    rw [List.forall_mem_cons] at other
    exact .cons entry place rest steps (Forest.locateLeaf here other.1) (ih other.2)

theorem discoveriesSnoc (steps : List (Step κ)) (step : Step κ) :
    plan.discoveries (steps ++ [step]) =
      plan.discoveries steps ++ [step.placed (plan.target ++ [steps.length])] := by
  simp [discoveries, List.mapIdx_append]

theorem layElsewhere {place : Place} (other : place ≠ plan.target) (step : Step κ) :
    plan.lay place step = [step.placed place] := by
  simp [lay, other]

variable (plan) in
structure Waits (agenda : Agenda κ) (log : Log κ ν ε) (mate : Agenda (κ × Place)) : Prop where
  bare : agenda.buffer = []
  empty : mate.buffer = []
  laid : plan.Lays (log.discovery plan.queue).forest agenda.pipeline
    (mate.pipeline.map Entry.toStep)

variable (plan) in
/- How the second queue holds what is laid for the buffer and the pipeline of the first one, while
the step at a place is active. -/
inductive Holds (place : Place) (agenda : Agenda κ) (mate : Agenda (κ × Place))
    (buffer pipeline : List (Step (κ × Place))) : Prop where
  | elsewhere (other : place ≠ plan.target) (found : mate.buffer.map Entry.toStep = buffer)
      (waiting : mate.pipeline.map Entry.toStep = pipeline)
  | target (same : place = plan.target)
      (found : buffer = plan.discoveries (agenda.buffer.map Entry.toStep))
      (empty : mate.buffer = [])
      (waiting : mate.pipeline.map Entry.toStep = plan.discoveries plan.found ++ pipeline)

variable (plan) in
structure Works (place : Place) (agenda : Agenda κ) (log : Log κ ν ε) (mate : Agenda (κ × Place)) :
    Prop where
  busy : agenda.active ≠ none
  also : mate.active ≠ none
  finder : ∃ entry found,
    (log.discovery plan.queue).forest.locate place = some (.node entry found) ∧
    (log.discovery plan.queue).active = some entry.ticket ∧
    found.map Tree.entry = agenda.buffer
  laid : ∃ buffer pipeline, plan.Lays (log.discovery plan.queue).forest agenda.buffer buffer ∧
    plan.Lays (log.discovery plan.queue).forest agenda.pipeline pipeline ∧
    plan.Holds place agenda mate buffer pipeline

variable {agenda : Agenda κ} {log : Log κ ν ε} {mate : Agenda (κ × Place)} {place : Place}

/- An append of the active step. What it adds to the first buffer, it adds to the second one as
laid, unless it is the target, whose discoveries are queued already. -/
theorem Works.append (works : plan.Works place agenda log mate)
    (order : Order plan.queue agenda log)
    (ticketed : log.arrivals.map Entry.ticket = List.range agenda.arrivals) (step : Step κ)
    (nested : Bool) :
    plan.Works place (agenda.append step)
      (log ++ [.appended plan.queue (agenda.entry step) nested])
      ((plan.put (some place) plan.queue agenda.buffer.length step).foldl Agenda.append mate) := by
  obtain ⟨entry, found, here, marked, roots⟩ := works.finder
  obtain ⟨buffer, pipeline, foundLaid, waitingLaid, holds⟩ := works.laid
  obtain ⟨mark, active⟩ := Option.ne_none_iff_exists'.mp works.busy
  obtain ⟨waiting, more⟩ := Agenda.appendActive active step
  have discovery := Log.discoveryOfNested marked (agenda.entry step) nested
  have count : found.length = agenda.buffer.length := by rw [← roots, List.length_map]
  -- the new step gets the next place behind the active one, and no waiting step is that one
  have child : ((log.discovery plan.queue).forest.adopt entry.ticket (agenda.entry step)).locate
      (place ++ [agenda.buffer.length]) = some (.node (agenda.entry step) []) :=
    count ▸ Forest.locateChild here rfl
  have apart : ∀ other ∈ agenda.pending, other.ticket ≠ entry.ticket := by
    obtain ⟨earlier, last, activated, same, -⟩ := order.busy works.busy
    have none := (List.nodup_cons.mp (order.apart ticketed activated)).1
    rw [← Option.some.inj (marked.symm.trans same)] at none
    exact fun other present same => none (same ▸ List.mem_map_of_mem present)
  rw [Agenda.pending, List.forall_mem_append] at apart
  have laid := (foundLaid.adopt (agenda.entry step) apart.1).append (.single child)
  have still := waitingLaid.adopt (agenda.entry step) apart.2
  refine ⟨by rw [agenda.activeAfterAppend]; exact works.busy, ?_, ?_, ?_⟩
  · rw [(Agenda.appendsActive _ works.also).1]
    exact works.also
  · rw [discovery]
    refine ⟨entry, _, Forest.locateAfterAdopt here, rfl, ?_⟩
    refine (Tree.rootsAfterAdopt (.node entry found)).trans ?_
    have self : (Tree.node entry found).entry.ticket = entry.ticket := rfl
    rw [if_pos self, more]
    exact congrArg (· ++ [agenda.entry step]) roots
  · rw [discovery, more, waiting]
    refine ⟨_, _, laid, still, ?_⟩
    cases holds with
    | elsewhere other buffered waits =>
      obtain ⟨-, unmoved, grown⟩ := Agenda.appendsActive
        (plan.put (some place) plan.queue agenda.buffer.length step) works.also
      refine .elsewhere other ?_ (by rw [unmoved, waits])
      rw [grown, buffered]
      simp [put, other, Agenda.entry]
    | target same buffered empty waits =>
      subst same
      have none : plan.put (some plan.target) plan.queue agenda.buffer.length step = [] := by
        simp [put]
      rw [none]
      refine .target rfl ?_ empty waits
      rw [more, List.map_append, List.map_singleton, discoveriesSnoc, buffered, List.length_map,
        layElsewhere (by simp)]

theorem Waits.activate (waits : plan.Waits agenda log mate) {index : UInt32} {entry : Entry κ}
    {next : Agenda κ} (taken : agenda.activate index = some (entry, next)) (info : StepInfo)
    (call : Call) :
    ∃ place twin more, mate.activate index = some (twin, more) ∧
      twin.toStep = entry.toStep.placed place ∧ next.buffer = [] ∧
      plan.Works place next
        (log ++ [.activated plan.queue entry info, .asked plan.queue call]) more := by
  obtain ⟨pipeline, buffer, active, -⟩ := Agenda.activateSome taken
  have discovery : Log.discovery plan.queue
      (log ++ [.activated plan.queue entry info, .asked plan.queue call]) =
        ⟨(log.discovery plan.queue).forest, some entry.ticket⟩ := by
    rw [Log.discoveryAppend]
    simp [Discovery.observe]
  have laid := waits.laid
  rw [pipeline] at laid
  generalize whole : mate.pipeline.map Entry.toStep = steps at laid
  cases laid with
  | cons _ place _ rest here behind =>
    rw [lay, List.cons_append] at whole
    cases waiting : mate.activate index with
    | none =>
      rw [Agenda.activateNone waiting] at whole
      cases whole
    | some also =>
      obtain ⟨twin, more⟩ := also
      obtain ⟨line, found, marked, -⟩ := Agenda.activateSome waiting
      rw [line, List.map_cons] at whole
      obtain ⟨same, rest⟩ := List.cons.inj whole
      refine ⟨place, twin, more, rfl, same, buffer.trans waits.bare, ?_, ?_, ?_, ?_⟩
      · rw [active]
        exact Option.some_ne_none _
      · rw [marked]
        exact Option.some_ne_none _
      · rw [discovery]
        exact ⟨entry, [], here, rfl, (buffer.trans waits.bare).symm⟩
      · rw [discovery, buffer, waits.bare]
        refine ⟨[], _, .nil, behind, ?_⟩
        by_cases target : place = plan.target
        · rw [if_pos target] at rest
          refine .target target ?_ (found.trans waits.empty) rest
          rw [buffer, waits.bare]
          rfl
        · rw [if_neg target] at rest
          exact .elsewhere target (by rw [found, waits.empty]; rfl) rest

theorem Waits.drained (waits : plan.Waits agenda log mate) {index : UInt32}
    (ended : agenda.activate index = none) : mate.activate index = none := by
  have laid := waits.laid
  rw [Agenda.activateNone ended] at laid
  cases waiting : mate.activate index with
  | none => rfl
  | some also =>
    rw [(Agenda.activateSome waiting).1, List.map_cons] at laid
    cases laid

theorem Works.settle (works : plan.Works place agenda log mate) {later : Log κ ν ε}
    (same : (later.discovery plan.queue).forest = (log.discovery plan.queue).forest)
    (complete : place = plan.target → agenda.buffer.map Entry.toStep = plan.found) :
    plan.Waits agenda.settle later mate.settle := by
  obtain ⟨buffer, pipeline, foundLaid, waitingLaid, holds⟩ := works.laid
  refine ⟨agenda.settled.2, mate.settled.2, ?_⟩
  rw [same, agenda.settled.1, mate.settled.1, Agenda.pending, Agenda.pending, List.map_append]
  have laid := foundLaid.append waitingLaid
  cases holds with
  | elsewhere _ found waiting =>
    rw [found, waiting]
    exact laid
  | target here found empty waiting =>
    rw [empty, waiting, ← complete here, ← found]
    exact laid

def Twins (entry : Entry κ) (twin : Entry (κ × Place)) : Prop :=
  ∃ place, twin.toStep = entry.toStep.placed place

theorem Lays.twins {forest : Forest κ} {entries : List (Entry κ)} {mates : List (Entry (κ × Place))}
    (laid : plan.Lays forest entries (mates.map Entry.toStep))
    (barren : ∀ entry ∈ entries, forest.locate plan.target = some (.node entry []) →
      plan.found = []) : List.Forall₂ Twins entries mates := by
  generalize whole : mates.map Entry.toStep = steps at laid
  induction laid generalizing mates with
  | nil =>
    rw [List.map_eq_nil_iff.mp whole]
    exact .nil
  | cons entry place rest steps here behind ih =>
    rw [List.forall_mem_cons] at barren
    have alone : plan.lay place entry.toStep = [entry.toStep.placed place] := by
      by_cases target : place = plan.target
      · subst target
        simp [lay, discoveries, barren.1 here]
      · exact layElsewhere target _
    rw [alone] at whole
    obtain ⟨twin, mates, rfl, same, others⟩ := List.map_eq_cons_iff.mp whole
    exact .cons ⟨place, same⟩ (ih barren.2 others)

variable (plan) in
structure Fits (last : Log κ ν ε) : Prop where
  target : ∃ entry found,
    (last.discovery plan.queue).forest.locate plan.target = some (.node entry found) ∧
      plan.found = found.map fun tree => tree.entry.toStep
  distinct : ((last.activated ++ last.withdrawn).map Entry.ticket).Nodup

theorem Fits.stays {later : Log κ ν ε} (fits : plan.Fits (log ++ later)) {tree : Tree κ}
    (here : (log.discovery plan.queue).forest.locate plan.target = some tree)
    (idle : (log.discovery plan.queue).active ≠ some tree.entry.ticket)
    (never : ∀ entry ∈ later.activated, entry.ticket ≠ tree.entry.ticket) :
    plan.found = (tree.found.map Tree.entry).map Entry.toStep := by
  obtain ⟨entry, found, there, named⟩ := fits.target
  obtain ⟨last, also, -, same⟩ := Log.locateStays here idle later never
  cases Option.some.inj (there.symm.trans also)
  rw [named, ← same, List.map_map]
  rfl

theorem Works.complete (works : plan.Works place agenda log mate)
    (order : Order plan.queue agenda log) {last : Log κ ν ε} (fits : plan.Fits last)
    {info : StepInfo} {spliced : Nat} {result : Except RunError ν}
    (within : log ++ [.settled plan.queue info spliced result] <+: last)
    (target : place = plan.target) : agenda.buffer.map Entry.toStep = plan.found := by
  obtain ⟨later, rfl⟩ := within
  obtain ⟨finder, found, here, marked, roots⟩ := works.finder
  obtain ⟨earlier, active, activated, same, -⟩ := order.busy works.busy
  have settled : Log.discovery plan.queue (log ++ [.settled plan.queue info spliced result]) =
      ⟨(log.discovery plan.queue).forest, none⟩ := by
    rw [Log.discoveryAppend]
    simp [Discovery.observe]
  have never (other : Entry κ) (present : other ∈ Log.activated later) :
      other.ticket ≠ finder.ticket := by
    have once := fits.distinct
    rw [List.map_append] at once
    have apart := once.of_append_left
    simp only [Log.activated, List.filterMap_append, List.map_append, List.nodup_append'] at apart
    rw [Option.some.inj (marked.symm.trans same)]
    intro again
    have before : active.ticket ∈ log.activated.map Entry.ticket :=
      List.mem_map_of_mem (by rw [activated]; simp)
    exact apart.2.2 (List.mem_append_left _ before) (List.mem_map.mpr ⟨other, present, again⟩)
  rw [target] at here
  have there : (Log.discovery plan.queue
      (log ++ [.settled plan.queue info spliced result])).forest.locate plan.target =
        some (.node finder found) := by rw [settled]; exact here
  rw [fits.stays there (by rw [settled]; simp) never, ← roots]
  rfl

theorem Fits.barren {later : Log κ ν ε} (fits : plan.Fits (log ++ later)) {entry : Entry κ}
    (here : (log.discovery plan.queue).forest.locate plan.target = some (.node entry []))
    (idle : (log.discovery plan.queue).active ≠ some entry.ticket)
    (out : entry ∈ later.withdrawn) : plan.found = [] := by
  refine fits.stays here idle fun other present same => ?_
  have once := fits.distinct
  simp only [Log.activated, Log.withdrawn, List.filterMap_append, List.flatMap_append,
    List.map_append] at once
  have activated : entry.ticket ∈ (Log.activated later).map Entry.ticket :=
    List.mem_map.mpr ⟨other, present, same⟩
  exact List.disjoint_of_nodup_append once (List.mem_append_right _ activated)
    (List.mem_append_right _ (List.mem_map_of_mem out))

end Inlining

end Sequencer

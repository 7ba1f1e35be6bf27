import Sequencer.Proofs.Forest
import Sequencer.Proofs.Marks

/-! Nested-first order. Until a failure takes the waiting steps out, the activated steps and then
the pending ones are the preorder of the discovery forest. The active step has led to just what
stands in the buffer, and no pending step has led to anything yet. -/
namespace Sequencer

def Event.places : Event κ ν ε → Bool
  | .appended _ _ _ | .activated _ _ _ | .settled _ _ _ _ | .refused _ _ _ => true
  | _ => false

namespace Log

def discovery (queue : QueueId) (log : Log κ ν ε) : Discovery κ :=
  log.foldl (fun found event => Discovery.observe queue event found) {}

def Unbroken (log : Log κ ν ε) : Prop :=
  ∀ queue remaining, Event.withdrawn queue remaining ∉ log

theorem discoveryAppend (queue : QueueId) (log events : Log κ ν ε) :
    (log ++ events).discovery queue =
      events.foldl (fun found event => Discovery.observe queue event found) (log.discovery queue) :=
  List.foldl_append

theorem eventUnseen (queue : QueueId) {event : Event κ ν ε} (idle : event.places = false)
    (found : Discovery κ) : Discovery.observe queue event found = found ∧
      event.activation? = none ∧ event.arrival? = none := by
  cases event with
  | appended | activated | settled | refused => cases idle
  | _ => exact ⟨rfl, rfl, rfl⟩

theorem readUnseen (queue : QueueId) (log events : Log κ ν ε)
    (idle : ∀ event ∈ events, event.places = false) :
    (log ++ events).discovery queue = log.discovery queue ∧
      (log ++ events).activated = log.activated ∧ (log ++ events).arrivals = log.arrivals := by
  induction events generalizing log with
  | nil =>
    rw [List.append_nil]
    exact ⟨rfl, rfl, rfl⟩
  | cons event rest ih =>
    rw [List.forall_mem_cons] at idle
    obtain ⟨same, activated, arrivals⟩ := ih (log ++ [event]) idle.2
    obtain ⟨unseen, inactive, placed⟩ := eventUnseen queue idle.1 (log.discovery queue)
    rw [List.append_cons, same, activated, arrivals, discoveryAppend]
    refine ⟨unseen, ?_, ?_⟩
    · simp [Log.activated, inactive]
    · simp [Log.arrivals, placed]

theorem discoveryOfRoot {queue : QueueId} {log : Log κ ν ε}
    (idle : (log.discovery queue).active = none) (entry : Entry κ) (nested : Bool) :
    Log.discovery queue (log ++ [.appended queue entry nested]) =
      ⟨(log.discovery queue).forest ++ [.node entry []], none⟩ := by
  rw [discoveryAppend]
  simp [Discovery.observe, idle]

theorem discoveryOfNested {queue : QueueId} {log : Log κ ν ε} {parent : Nat}
    (active : (log.discovery queue).active = some parent) (entry : Entry κ) (nested : Bool) :
    Log.discovery queue (log ++ [.appended queue entry nested]) =
      ⟨(log.discovery queue).forest.adopt parent entry, some parent⟩ := by
  rw [discoveryAppend]
  simp [Discovery.observe, active]

theorem Unbroken.earlier {log later : Log κ ν ε} (unbroken : later.Unbroken)
    (grown : log <+: later) : log.Unbroken :=
  fun queue remaining present => unbroken queue remaining (grown.subset present)

theorem Unbroken.more {log : Log κ ν ε} (unbroken : log.Unbroken) (events : Log κ ν ε)
    (none : events.Unbroken) : Log.Unbroken (log ++ events) := by
  intro queue remaining present
  rcases List.mem_append.mp present with old | new
  · exact unbroken queue remaining old
  · exact none queue remaining new

theorem Unbroken.withdrawn {log : Log κ ν ε} (unbroken : log.Unbroken) : log.withdrawn = [] := by
  rw [Log.withdrawn, List.flatMap_eq_nil_iff]
  intro event present
  cases event with
  | withdrawn queue remaining => exact absurd present (unbroken queue remaining)
  | _ => rfl

end Log

theorem World.discoveryOfHistory (world : World κ ν ε) (queue : QueueId) :
    Discovery.ofHistory queue world.history = (world.log queue).discovery queue := by
  rw [Discovery.ofHistory, Log.discovery, World.log, List.foldl_filter, List.foldl_reverse]
  congr
  funext event found
  cases event <;> simp only [Event.queue?, Discovery.observe, Option.some.injEq, decide_eq_true_eq,
    reduceCtorEq, decide_false, Bool.false_eq_true, ite_self] <;> split <;> rfl

theorem World.activationsOfHistory (world : World κ ν ε) (queue : QueueId) :
    activations queue world.history = (world.log queue).activated := by
  rw [activations, Log.activated, World.log, List.filterMap_filter]
  congr
  funext event
  cases event <;> simp [Event.queue?, Event.activation?]

structure Order (queue : QueueId) (agenda : Agenda κ) (log : Log κ ν ε) : Prop where
  preorder : log.activated ++ agenda.pending = (log.discovery queue).forest.preorder
  arrivals : (log.discovery queue).forest.preorder.Perm log.arrivals
  idle : agenda.active = none → (log.discovery queue).active = none
  busy : agenda.active ≠ none → ∃ earlier entry, log.activated = earlier ++ [entry] ∧
    (log.discovery queue).active = some entry.ticket ∧
    (log.discovery queue).forest.under entry.ticket = agenda.buffer
  leaves : ∀ entry ∈ agenda.pending, (log.discovery queue).forest.under entry.ticket = []

namespace Order

variable {queue : QueueId} {agenda : Agenda κ} {log : Log κ ν ε}

theorem tickets (order : Order queue agenda log)
    (ticketed : log.arrivals.map Entry.ticket = List.range agenda.arrivals) :
    (log.discovery queue).forest.tickets.Perm (List.range agenda.arrivals) := by
  rw [← ticketed]
  exact order.arrivals.map Entry.ticket

theorem distinct (order : Order queue agenda log)
    (ticketed : log.arrivals.map Entry.ticket = List.range agenda.arrivals) :
    ((log.activated ++ agenda.pending).map Entry.ticket).Nodup := by
  rw [order.preorder]
  exact (order.tickets ticketed).nodup_iff.mpr List.nodup_range

theorem apart (order : Order queue agenda log)
    (ticketed : log.arrivals.map Entry.ticket = List.range agenda.arrivals)
    {earlier : List (Entry κ)} {active : Entry κ} (last : log.activated = earlier ++ [active]) :
    ((active :: agenda.pending).map Entry.ticket).Nodup := by
  have distinct := order.distinct ticketed
  rw [last, List.append_assoc, List.singleton_append, List.map_append] at distinct
  exact distinct.of_append_right

theorem fresh (order : Order queue agenda log)
    (ticketed : log.arrivals.map Entry.ticket = List.range agenda.arrivals) :
    agenda.arrivals ∉ (log.discovery queue).forest.tickets := by
  rw [(order.tickets ticketed).mem_iff, List.mem_range]
  exact Nat.lt_irrefl _

theorem unseen (order : Order queue agenda log) (events : Log κ ν ε)
    (idle : ∀ event ∈ events, event.places = false) : Order queue agenda (log ++ events) := by
  obtain ⟨same, activated, arrivals⟩ := Log.readUnseen queue log events idle
  refine ⟨?_, ?_, ?_, ?_, ?_⟩
  · rw [same, activated]
    exact order.preorder
  · rw [same, arrivals]
    exact order.arrivals
  · rw [same]
    exact order.idle
  · rw [same, activated]
    exact order.busy
  · rw [same]
    exact order.leaves

theorem appendRoot (order : Order queue agenda log)
    (ticketed : log.arrivals.map Entry.ticket = List.range agenda.arrivals)
    (step : Step κ) (idle : agenda.active = none) (nested : Bool) :
    Order queue (agenda.append step) (log ++ [.appended queue (agenda.entry step) nested]) := by
  have found := Log.discoveryOfRoot (order.idle idle) (agenda.entry step) nested
  have waiting := Agenda.pendingIdle idle step
  have still : (agenda.append step).active = none := (agenda.activeAfterAppend step).trans idle
  refine ⟨?_, ?_, ?_, fun busy => absurd still busy, ?_⟩
  · rw [found, waiting, Forest.preorderAppend, Forest.preorderOfSingle, ← order.preorder]
    simp [Log.activated, Event.activation?]
  · rw [found, Forest.preorderAppend, Forest.preorderOfSingle]
    simpa [Log.arrivals, Event.arrival?] using order.arrivals.append_right [agenda.entry step]
  · intro _
    rw [found]
  · intro entry present
    rw [found, Forest.underAppend, Forest.underOfSingle, List.append_nil]
    rw [waiting, List.mem_append, List.mem_singleton] at present
    rcases present with old | rfl
    · exact order.leaves entry old
    · exact (Forest.adoptAbsent _ (agenda.entry step) _ (order.fresh ticketed)).2

theorem appendNested (order : Order queue agenda log)
    (ticketed : log.arrivals.map Entry.ticket = List.range agenda.arrivals)
    (step : Step κ) (busy : agenda.active ≠ none) (nested : Bool) :
    Order queue (agenda.append step) (log ++ [.appended queue (agenda.entry step) nested]) := by
  obtain ⟨earlier, active, last, marked, under⟩ := order.busy busy
  have found := Log.discoveryOfNested marked (agenda.entry step) nested
  obtain ⟨mark, present⟩ := Option.ne_none_iff_exists'.mp busy
  obtain ⟨pipeline, buffer⟩ := Agenda.appendActive present step
  have still : (agenda.append step).active ≠ none := by
    rw [agenda.activeAfterAppend]
    exact busy
  have same : Log.activated (log ++ [.appended queue (agenda.entry step) nested]) =
      log.activated := log.readQuiet rfl
  have whole : (log.discovery queue).forest.preorder = earlier ++ active ::
      ((log.discovery queue).forest.under active.ticket ++ agenda.pipeline) := by
    rw [← order.preorder, last, under, Agenda.pending, List.append_assoc, List.singleton_append]
  have fresh := order.fresh ticketed
  have apart (other : Entry κ) (present : other ∈ agenda.pending) :
      other.ticket ≠ active.ticket := by
    have none := (List.nodup_cons.mp (order.apart ticketed last)).1
    exact fun same => none (same ▸ List.mem_map_of_mem present)
  have distinct := order.distinct ticketed
  rw [order.preorder] at distinct
  -- what the active step has led to is the buffer, so the spot behind it is the end of the buffer
  obtain ⟨placed, grown⟩ := Forest.adoptBehind distinct whole (agenda.entry step)
  have elsewhere (other : Nat) (apart : other ≠ active.ticket) :=
    Forest.adoptElsewhere (agenda.entry step) apart (log.discovery queue).forest
  refine ⟨?_, ?_, fun idle => absurd idle still, fun _ => ⟨earlier, active, ?_, ?_, ?_⟩, ?_⟩
  · rw [found, same, placed, last, under, Agenda.pending, pipeline, buffer]
    simp
  · rw [found]
    have adopted := (Forest.adoptPresent active.ticket (agenda.entry step) _ distinct
      (by simp [Forest.tickets, whole])).perm
    refine adopted.trans ?_
    simpa [Log.arrivals, Event.arrival?] using order.arrivals.append_right [agenda.entry step]
  · rw [same, last]
  · rw [found]
  · rw [found, grown, under, buffer]
  · intro other present
    rw [(agenda.pendingAfterAppend step).mem_iff, List.mem_append, List.mem_singleton] at present
    rw [found]
    rcases present with old | rfl
    · exact elsewhere other.ticket (apart other old) (order.leaves other old)
    · refine elsewhere agenda.arrivals (fun same => fresh ?_) ?_
      · simp [same, Forest.tickets, whole]
      · exact (Forest.adoptAbsent _ (agenda.entry step) _ fresh).2

theorem activate (order : Order queue agenda log) (idle : agenda.buffer = []) {index : UInt32}
    {entry : Entry κ} {next : Agenda κ} (taken : agenda.activate index = some (entry, next))
    (info : StepInfo) (call : Call) :
    Order queue next (log ++ [.activated queue entry info, .asked queue call]) := by
  obtain ⟨pipeline, buffer, active, -⟩ := Agenda.activateSome taken
  have found : Log.discovery queue (log ++ [.activated queue entry info, .asked queue call]) =
      ⟨(log.discovery queue).forest, some entry.ticket⟩ := by
    rw [Log.discoveryAppend]
    simp [Discovery.observe]
  have last := log.activatedNext queue entry info call
  have waiting : agenda.pending = entry :: next.pending := by
    rw [Agenda.pending, idle, pipeline, Agenda.pending, buffer, idle, List.nil_append,
      List.nil_append]
  refine ⟨?_, ?_, fun none => ?_, fun _ => ⟨log.activated, entry, last, ?_, ?_⟩, ?_⟩
  · rw [found, last, ← order.preorder, waiting, List.append_assoc, List.singleton_append]
  · rw [found]
    simpa [Log.arrivals, List.filterMap_cons, Event.arrival?] using order.arrivals
  · rw [active] at none
    contradiction
  · rw [found]
  · rw [found, buffer, idle]
    exact order.leaves entry (by simp [waiting])
  · intro other present
    rw [found]
    exact order.leaves other (by simp [waiting, present])

/- Settling moves the discoveries to the head, where they already stood in the order. -/
theorem settle (order : Order queue agenda log) (events : Log κ ν ε)
    (idle : (log ++ events).discovery queue = ⟨(log.discovery queue).forest, none⟩)
    (activated : events.activated = []) (arrivals : events.arrivals = []) :
    Order queue agenda.settle (log ++ events) := by
  have waiting := agenda.pendingAfterSettle
  refine ⟨?_, ?_, fun _ => ?_, fun busy => absurd rfl busy, ?_⟩
  · rw [idle, waiting, ← order.preorder, Log.activated, log.readQuiet activated]
  · rw [idle, Log.arrivals, log.readQuiet arrivals]
    exact order.arrivals
  · rw [idle]
  · rw [idle, waiting]
    exact order.leaves

end Order

namespace Standing

variable {queue : QueueId} {name : String}

structure Ordered (queue : QueueId) (a : Standing κ ν ε) : Prop where
  marked : a.Marked
  ticketed : a.Ticketed
  order : a.log.Unbroken → Order queue a.agenda a.log

theorem orderedByRest (queue : QueueId) : Order queue ({} : Agenda κ) ([] : Log κ ν ε) where
  preorder := by simp [Log.discovery, Forest.preorder, Agenda.pending, Agenda.buffer,
    Agenda.pipeline, Lane.listOfEmpty]
  arrivals := by simp [Log.discovery, Forest.preorder]
  idle _ := rfl
  busy busy := absurd rfl busy
  leaves _ present := by
    simp [Agenda.pending, Agenda.buffer, Agenda.pipeline, Lane.listOfEmpty] at present

variable (queue name) in
theorem keptOrdered : Kept queue name (Ordered (κ := κ) (ν := ν) (ε := ε) queue) where
  start := ⟨(keptMarked queue name).start, rfl, fun _ => orderedByRest queue⟩
  given act holds := by
    refine ⟨(keptMarked queue name).given act holds.marked,
      (keptTicketed queue name).given act holds.ticketed, fun unbroken => ?_⟩
    have order := holds.order (unbroken.earlier act.grows)
    cases act with
    | append agenda log point step =>
      cases active : agenda.active with
      | none => exact order.appendRoot holds.ticketed step active _
      | some mark => exact order.appendNested holds.ticketed step (by simp [active]) _
    | discard agenda log => exact order
    | leave agenda log stage => exact order
    | begin agenda log value =>
      exact order.unseen _ (by simp [Event.places])
  reply act holds := by
    refine ⟨(keptMarked queue name).reply act holds.marked,
      (keptTicketed queue name).reply act holds.ticketed, fun unbroken => ?_⟩
    have order := holds.order (unbroken.earlier act.grows)
    cases act with
    | accept agenda log value id => exact order.unseen _ (by simp [Event.places])
    | apply agenda log run value entry info step => exact order.unseen _ (by simp [Event.places])
    | settle agenda log stage ending run step info value settles =>
      exact order.settle _ (by simp [Log.discoveryAppend, Discovery.observe]) rfl rfl
    | refuse agenda log run value entry info failure =>
      exact absurd (by simp) (unbroken queue agenda.pending)
    | fail agenda log stage ending run step info error settles =>
      exact absurd (by simp) (unbroken queue agenda.pending)
    | goOn agenda log run info value ending heard =>
      exact order.unseen _ (by cases ending <;> simp [Ending.complaint?, Event.places])
    | giveUp agenda log run info error dropped ending heard =>
      dsimp only
      rw [List.append_assoc]
      exact order.unseen _ (by cases ending <;> simp [Ending.complaint?, Event.places])
    | finish agenda log run verdict ending heard =>
      dsimp only
      rw [List.append_assoc]
      exact order.unseen _ (by
        cases ending <;> cases verdict <;> simp [Ending.complaint?, Verdict.event, Event.places])
    | _ => exact order
  follow act holds := by
    refine ⟨(keptMarked queue name).follow act holds.marked,
      (keptTicketed queue name).follow act holds.ticketed, fun unbroken => ?_⟩
    have order := holds.order (unbroken.earlier act.grows)
    cases act with
    | activate agenda log run value entry next taken =>
      exact order.activate (holds.marked.idle holds.marked.mark) taken _ _
    | pass agenda log run delivery entry rest index dropped other => exact order
    | _ => exact order.unseen _ (by simp [Event.places])

end Standing

end Sequencer

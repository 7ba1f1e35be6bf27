import Mathlib.Data.List.Forall2
import Sequencer.Proofs.Joining
import Sequencer.Proofs.Lockstep
import Sequencer.Proofs.Marks

/-! Two executions that are the same up to the kinds of their steps: some are async in the second
one that are not in the first. Everything goes together: entries as twins, infos and errors by what
they say apart from a kind, or from a label that is made of it, events one by one. Code goes
together if it asks the same and ends the same way whatever it is handed of what goes together, so
it makes nothing of kinds and labels. It may wait where its twin does not. -/
namespace Sequencer

variable {κ κ' ν ε β γ : Type}

structure Casting (κ κ' : Type) where
  twin : Step κ → Step κ' → Prop
  described : ∀ {step mate}, twin step mate → mate.description = step.description
  kinds : ∀ {step mate}, twin step mate →
    mate.kind = step.kind ∨ step.kind = .value ∧ mate.kind = .async

inductive Relabels : String → String → Prop where
  | same (label) : Relabels label label
  | recast (index : UInt32) :
      Relabels (Kind.value.name ++ " step #" ++ toString index.toNat)
        (Kind.async.name ++ " step #" ++ toString index.toNat)

structure StepInfo.UpToKinds (info also : StepInfo) : Prop where
  index : also.index = info.index
  depth : also.depth = info.depth
  kind : also.kind = info.kind ∧ also.label = info.label ∨
    info.kind = Kind.value.name ∧ also.kind = Kind.async.name
  label : Relabels info.label also.label

structure Active.UpToKinds (mark other : Active) : Prop where
  index : other.index = mark.index
  depth : other.depth = mark.depth
  label : Relabels mark.label other.label

mutual
inductive Failure.UpToKinds : Failure → Failure → Prop where
  | message (text) : Failure.UpToKinds (.message text) (.message text)
  | context (text cause mate) (causes : Failure.UpToKinds cause mate) :
      Failure.UpToKinds (.context text cause) (.context text mate)
  | run (error mate) (errors : RunError.UpToKinds error mate) :
      Failure.UpToKinds (.run error) (.run mate)

inductive RunError.UpToKinds : RunError → RunError → Prop where
  | failed (label also cause mate) (labels : Relabels label also)
      (causes : Failure.UpToKinds cause mate) :
      RunError.UpToKinds (.stepFailed label cause) (.stepFailed also mate)
  | panicked (label also message) (labels : Relabels label also) :
      RunError.UpToKinds (.stepPanicked label message) (.stepPanicked also message)
  | recorder (cause mate) (causes : Failure.UpToKinds cause mate) :
      RunError.UpToKinds (.recorder cause) (.recorder mate)
end

inductive Results : Except RunError ν → Except RunError ν → Prop where
  | ok (value) : Results (.ok value) (.ok value)
  | error (error mate) (errors : RunError.UpToKinds error mate) :
      Results (.error error) (.error mate)

inductive StepStatus.UpToKinds : StepStatus → StepStatus → Prop where
  | completed (spliced) : UpToKinds (.completed spliced) (.completed spliced)
  | failed (error mate) (errors : RunError.UpToKinds error mate) :
      UpToKinds (.failed error.text) (.failed mate.text)

inductive RunStatus.UpToKinds : RunStatus → RunStatus → Prop where
  | completed (applied) : UpToKinds (.completed applied) (.completed applied)
  | failed (error mate dropped) (errors : RunError.UpToKinds error mate) :
      UpToKinds (.failed error.text dropped) (.failed mate.text dropped)

inductive Call.UpToKinds : Call → Call → Prop where
  | startRun (name) : UpToKinds (.startRun name) (.startRun name)
  | startStep (run info also) (infos : StepInfo.UpToKinds info also) :
      UpToKinds (.startStep run info) (.startStep run also)
  | completeStep (step status mate) (statuses : StepStatus.UpToKinds status mate) :
      UpToKinds (.completeStep step status) (.completeStep step mate)
  | completeRun (run status mate) (statuses : RunStatus.UpToKinds status mate) :
      UpToKinds (.completeRun run status) (.completeRun run mate)

inductive Ending.UpToKinds (meets : β → γ → Prop) : Ending β → Ending γ → Prop where
  | returned (answer mate) (meet : meets answer mate) :
      UpToKinds meets (.returned answer) (.returned mate)
  | failed (failure mate) (failures : Failure.UpToKinds failure mate) :
      UpToKinds meets (.failed failure) (.failed mate)
  | panicked (payload) : UpToKinds meets (.panicked payload) (.panicked payload)

mutual
theorem Failure.UpToKinds.same : (failure : Failure) → failure.UpToKinds failure
  | .message text => .message text
  | .context text cause => .context text cause cause (Failure.UpToKinds.same cause)
  | .run error => .run error error (RunError.UpToKinds.same error)

theorem RunError.UpToKinds.same : (error : RunError) → error.UpToKinds error
  | .stepFailed label cause =>
    .failed label label cause cause (.same label) (Failure.UpToKinds.same cause)
  | .stepPanicked label message => .panicked label label message (.same label)
  | .recorder cause => .recorder cause cause (Failure.UpToKinds.same cause)
end

theorem Ending.UpToKinds.same (ending : Ending β) : ending.UpToKinds Eq ending := by
  cases ending with
  | returned answer => exact .returned answer answer rfl
  | failed failure => exact .failed failure failure (Failure.UpToKinds.same failure)
  | panicked payload => exact .panicked payload

variable (casting : Casting κ κ')

structure Entry.UpToKinds (entry : Entry κ) (mate : Entry κ') : Prop where
  twins : casting.twin entry.toStep mate.toStep
  depth : mate.depth = entry.depth
  ticket : mate.ticket = entry.ticket

abbrev Casting.Lines : List (Entry κ) → List (Entry κ') → Prop :=
  List.Forall₂ (Entry.UpToKinds casting)

structure Agenda.UpToKinds (agenda : Agenda κ) (mate : Agenda κ') : Prop where
  pipeline : casting.Lines agenda.pipeline mate.pipeline
  buffer : casting.Lines agenda.buffer mate.buffer
  active : Option.Rel Active.UpToKinds agenda.active mate.active
  arrivals : mate.arrivals = agenda.arrivals

structure Queue.UpToKinds (queue : Queue κ) (mate : Queue κ') : Prop where
  name : mate.name = queue.name
  taken : mate.taken = queue.taken
  agenda : queue.agenda.UpToKinds casting mate.agenda

inductive Event.UpToKinds : Event κ ν ε → Event κ' ν ε → Prop where
  | appended (queue entry mate nested) (entries : Entry.UpToKinds casting entry mate) :
      UpToKinds (.appended queue entry nested) (.appended queue mate nested)
  | asked (queue call mate) (calls : Call.UpToKinds call mate) :
      UpToKinds (.asked queue call) (.asked queue mate)
  | started (queue run queued) : UpToKinds (.started queue run queued) (.started queue run queued)
  | activated (queue entry mate info also) (entries : Entry.UpToKinds casting entry mate)
      (infos : StepInfo.UpToKinds info also) :
      UpToKinds (.activated queue entry info) (.activated queue mate also)
  | applied (queue step entry mate info also input) (entries : Entry.UpToKinds casting entry mate)
      (infos : StepInfo.UpToKinds info also) :
      UpToKinds (.applied queue step entry info input) (.applied queue step mate also input)
  | settled (queue info also spliced result mate) (infos : StepInfo.UpToKinds info also)
      (results : Results result mate) :
      UpToKinds (.settled queue info spliced result) (.settled queue also spliced mate)
  | refused (queue info also error mate) (infos : StepInfo.UpToKinds info also)
      (errors : RunError.UpToKinds error mate) :
      UpToKinds (.refused queue info error) (.refused queue also mate)
  | withdrawn (queue remaining others) (lines : casting.Lines remaining others) :
      UpToKinds (.withdrawn queue remaining) (.withdrawn queue others)
  | notified (queue entry twin label also error mate) (entries : Entry.UpToKinds casting entry twin)
      (labels : Relabels label also) (errors : RunError.UpToKinds error mate) :
      UpToKinds (.notified queue entry label error) (.notified queue twin also mate)
  | observerPanicked (label also payload) (labels : Relabels label also) :
      UpToKinds (.observerPanicked label payload) (.observerPanicked also payload)
  | dropped (queue count) : UpToKinds (.dropped queue count) (.dropped queue count)
  | stepUnrecorded (queue info also failure mate) (infos : StepInfo.UpToKinds info also)
      (failures : Failure.UpToKinds failure mate) :
      UpToKinds (.stepUnrecorded queue info failure) (.stepUnrecorded queue also mate)
  | runUnrecorded (queue failure mate) (failures : Failure.UpToKinds failure mate) :
      UpToKinds (.runUnrecorded queue failure) (.runUnrecorded queue mate)
  | completed (queue applied value) :
      UpToKinds (.completed queue applied value) (.completed queue applied value)
  | failed (queue error mate dropped) (errors : RunError.UpToKinds error mate) :
      UpToKinds (.failed queue error dropped) (.failed queue mate dropped)
  | noted (remark) : UpToKinds (.noted remark) (.noted remark)

structure World.UpToKinds (first : World κ ν ε) (second : World κ' ν ε) : Prop where
  queues : ∀ id, (first.queue id).UpToKinds casting (second.queue id)
  history : List.Forall₂ (Event.UpToKinds casting) first.history second.history

inductive Program.UpToKinds (meets : β → γ → Prop) :
    Program κ ν ε β → Program κ' ν ε γ → Prop where
  | ended (first second) (ends : Ending.UpToKinds meets first second) :
      UpToKinds meets first.code second.code
  | append (queue step mate first second) (twins : casting.twin step mate)
      (on : UpToKinds meets first second) :
      UpToKinds meets (.append queue step first) (.append queue mate second)
  | ask (queue first second)
      (on : ∀ {early late}, Queue.UpToKinds casting early late →
        UpToKinds meets (first early.status) (second late.status)) :
      UpToKinds meets (.ask queue first) (.ask queue second)
  | look (queue first second)
      (on : ∀ {early late}, Queue.UpToKinds casting early late →
        UpToKinds meets (first early.snapshot) (second late.snapshot)) :
      UpToKinds meets (.look queue first) (.look queue second)
  | note (remark first second) (on : UpToKinds meets first second) :
      UpToKinds meets (.note remark first) (.note remark second)
  | discard (queue first second) (on : ∀ taken, UpToKinds meets (first taken) (second taken)) :
      UpToKinds meets (.discard queue first) (.discard queue second)
  | run (queue initial first second) (none : UpToKinds meets (first none) (second none))
      (on : ∀ {early late}, Results early late →
        UpToKinds meets (first (some early)) (second (some late))) :
      UpToKinds meets (.run queue initial first) (.run queue initial second)
  | left (first second) (on : UpToKinds meets first second) :
      UpToKinds meets (.suspend first) second
  | right (first second) (on : UpToKinds meets first second) :
      UpToKinds meets first (.suspend second)

structure Recorder.UpToKinds (first : Recorder κ ν ε) (second : Recorder κ' ν ε) : Prop where
  startRun : ∀ name, (first.startRun name).UpToKinds casting Eq (second.startRun name)
  startStep : ∀ run {info also}, StepInfo.UpToKinds info also →
    (first.startStep run info).UpToKinds casting Eq (second.startStep run also)
  completeStep : ∀ step {info also status mate}, StepInfo.UpToKinds info also →
    StepStatus.UpToKinds status mate →
    (first.completeStep info step status).UpToKinds casting Eq (second.completeStep also step mate)
  completeRun : ∀ run {status mate}, RunStatus.UpToKinds status mate →
    (first.completeRun run status).UpToKinds casting Eq (second.completeRun run mate)

/- The work of an async step is the code that gives its program, and then this program. -/
structure Behaviour.UpToKinds (first : Behaviour κ ν ε) (second : Behaviour κ' ν ε) : Prop where
  neutral : second.neutral = first.neutral
  work : ∀ {step mate}, casting.twin step mate → step.isObserver = false → ∀ queue value,
    (first.work step queue value).UpToKinds casting Eq (second.work mate queue value)
  watch : ∀ {step mate}, casting.twin step mate → step.isObserver = true →
    ∀ queue {result answer}, Results result answer →
    (first.watch step.code queue result).UpToKinds casting Eq (second.watch mate.code queue answer)
  recorder : ∀ queue, (first.recorder queue).UpToKinds casting (second.recorder queue)

variable {casting}

theorem Casting.observes {step : Step κ} {mate : Step κ'} (twins : casting.twin step mate) :
    mate.isObserver = step.isObserver := by
  unfold Step.isObserver
  rcases casting.kinds twins with same | ⟨value, async⟩
  · rw [same]
  · rw [value, async]
    rfl

theorem Casting.relabels {step : Step κ} {mate : Step κ'} (twins : casting.twin step mate)
    (index : UInt32) : Relabels (step.label index) (mate.label index) := by
  unfold Step.label
  rw [casting.described twins]
  cases step.description with
  | some text => exact .same text
  | none =>
    rcases casting.kinds twins with same | ⟨value, async⟩
    · rw [same]
      exact .same _
    · rw [value, async]
      exact .recast index

theorem Ending.UpToKinds.results {label also : String} (labels : Relabels label also)
    {early late : Ending ν} (ends : early.UpToKinds Eq late) :
    Results (early.result label) (late.result also) := by
  cases ends with
  | returned answer mate meet =>
    cases meet
    exact .ok answer
  | failed failure mate failures =>
    exact .error _ _ (.failed label also failure mate labels failures)
  | panicked payload => exact .error _ _ (.panicked label also payload.message labels)

namespace Entry.UpToKinds

variable {entry : Entry κ} {mate : Entry κ'} (entries : entry.UpToKinds casting mate)
include entries

theorem info (index : UInt32) : (entry.info index).UpToKinds (mate.info index) where
  index := rfl
  depth := entries.depth
  kind := by
    rcases casting.kinds entries.twins with same | ⟨value, async⟩
    · refine .inl ⟨congrArg Kind.name same, ?_⟩
      simp only [Entry.info, Step.label, casting.described entries.twins, same]
    · exact .inr ⟨congrArg Kind.name value, congrArg Kind.name async⟩
  label := casting.relabels entries.twins index

end Entry.UpToKinds

namespace Agenda.UpToKinds

variable {agenda : Agenda κ} {mate : Agenda κ'} (alike : agenda.UpToKinds casting mate)
include alike

theorem depth : mate.depth = agenda.depth := by
  have active := alike.active
  unfold Agenda.depth
  generalize agenda.active = mark, mate.active = other at active ⊢
  cases active with
  | none => rfl
  | some marks => exact congrArg (· + 1) marks.depth

theorem busy : mate.active.isSome = agenda.active.isSome := by
  have active := alike.active
  generalize agenda.active = mark, mate.active = other at active ⊢
  cases active <;> rfl

theorem entry {step : Step κ} {other : Step κ'} (twins : casting.twin step other) :
    (agenda.entry step).UpToKinds casting (mate.entry other) :=
  ⟨twins, alike.depth, alike.arrivals⟩

theorem append {step : Step κ} {other : Step κ'} (twins : casting.twin step other) :
    (agenda.append step).UpToKinds casting (mate.append other) := by
  have last : casting.Lines [agenda.entry step] [mate.entry other] :=
    .cons (alike.entry twins) .nil
  have arrivals : (mate.append other).arrivals = (agenda.append step).arrivals := by
    rw [Agenda.arrivalsAfterAppend, Agenda.arrivalsAfterAppend, alike.arrivals]
  have active :
      Option.Rel Active.UpToKinds (agenda.append step).active (mate.append other).active := by
    rw [Agenda.activeAfterAppend, Agenda.activeAfterAppend]
    exact alike.active
  rcases Agenda.appendTogether alike.busy step other with
    ⟨pipeline, buffer, others, found⟩ | ⟨pipeline, buffer, others, found⟩
  · exact ⟨by rw [pipeline, others]; exact List.rel_append alike.pipeline last,
      by rw [buffer, found]; exact alike.buffer, active, arrivals⟩
  · exact ⟨by rw [pipeline, others]; exact alike.pipeline,
      by rw [buffer, found]; exact List.rel_append alike.buffer last, active, arrivals⟩

theorem pending : casting.Lines agenda.pending mate.pending :=
  List.rel_append alike.buffer alike.pipeline

theorem settle : agenda.settle.UpToKinds casting mate.settle where
  pipeline := by
    rw [agenda.settled.1, mate.settled.1]
    exact alike.pending
  buffer := by
    rw [agenda.settled.2, mate.settled.2]
    exact .nil
  active := .none
  arrivals := alike.arrivals

theorem emptied : agenda.takeRemaining.2.UpToKinds casting mate.takeRemaining.2 where
  pipeline := .nil
  buffer := .nil
  active := .none
  arrivals := alike.arrivals

theorem activates (index : UInt32) :
    (agenda.activate index = none ∧ mate.activate index = none) ∨
      ∃ entry next other later, agenda.activate index = some (entry, next) ∧
        mate.activate index = some (other, later) ∧ entry.UpToKinds casting other ∧
        next.UpToKinds casting later := by
  have lines := alike.pipeline
  cases activation : agenda.activate index with
  | none =>
    rw [Agenda.activateNone activation] at lines
    have ended := List.forall₂_nil_left_iff.mp lines
    cases likewise : mate.activate index with
    | none => exact .inl ⟨rfl, rfl⟩
    | some taken => cases ended.symm.trans (Agenda.activateSome likewise).1
  | some taken =>
    obtain ⟨entry, next⟩ := taken
    obtain ⟨front, buffer, active, arrivals⟩ := Agenda.activateSome activation
    cases likewise : mate.activate index with
    | none =>
      rw [front, Agenda.activateNone likewise] at lines
      cases lines
    | some picked =>
      obtain ⟨other, later⟩ := picked
      obtain ⟨head, found, mark, counted⟩ := Agenda.activateSome likewise
      rw [front, head] at lines
      obtain ⟨entries, rest⟩ := List.forall₂_cons.mp lines
      have infos := entries.info index
      refine .inr ⟨entry, next, other, later, rfl, rfl, entries, rest, ?_, ?_, ?_⟩
      · rw [buffer, found]
        exact alike.buffer
      · rw [active, mark]
        exact .some ⟨rfl, entries.depth, infos.label⟩
      · rw [arrivals, counted, alike.arrivals]

end Agenda.UpToKinds

namespace World.UpToKinds

variable {first : World κ ν ε} {second : World κ' ν ε} (alike : first.UpToKinds casting second)
include alike

theorem agenda (id : QueueId) : (first.agenda id).UpToKinds casting (second.agenda id) :=
  (alike.queues id).agenda

theorem setAgenda (id : QueueId) {agenda : Agenda κ} {mate : Agenda κ'}
    (agendas : agenda.UpToKinds casting mate) :
    (first.setAgenda id agenda).UpToKinds casting (second.setAgenda id mate) where
  queues other := by
    rw [queueOfSet, queueOfSet]
    split
    · next same =>
      subst same
      exact ⟨(alike.queues other).name, (alike.queues other).taken, agendas⟩
    · exact alike.queues other
  history := alike.history

theorem take (id : QueueId) : (first.take id).UpToKinds casting (second.take id) where
  queues other := by
    rw [queueOfTake, queueOfTake]
    split
    · next same =>
      subst same
      exact ⟨(alike.queues other).name, rfl, (alike.queues other).agenda⟩
    · exact alike.queues other
  history := alike.history

theorem record {event : Event κ ν ε} {other : Event κ' ν ε}
    (events : event.UpToKinds casting other) :
    (first.record event).UpToKinds casting (second.record other) :=
  ⟨alike.queues, .cons events alike.history⟩

theorem settle (id : QueueId) : (first.settle id).UpToKinds casting (second.settle id) :=
  alike.setAgenda id (alike.agenda id).settle

theorem append (id : QueueId) {step : Step κ} {mate : Step κ'} (twins : casting.twin step mate) :
    (first.append id step).UpToKinds casting (second.append id mate) := by
  have agendas := alike.agenda id
  have appended := (alike.setAgenda id (agendas.append twins)).record
    (.appended id _ _ (first.agenda id).active.isSome (agendas.entry twins))
  dsimp only [World.append]
  rw [agendas.busy]
  exact appended

end World.UpToKinds

end Sequencer

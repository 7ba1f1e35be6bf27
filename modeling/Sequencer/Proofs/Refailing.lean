import Sequencer.Proofs.ConcertRun

/-! Two executions in which the steps of one queue fail in different ways, each after the same
appends. All else that they do has to be the same, but for what observers and recorders make of an
error beyond its step: they may not let a queue depend on that. -/
namespace Sequencer

variable {κ ν ε β : Type}

def Concord.refailing (queue : QueueId) : Concord κ κ ε where
  heard _ := false
  twin := Eq
  observes same := congrArg Step.isObserver same.symm
  leeway id := { lenient := decide (id = queue) }
  passive none := none.elim

namespace Concord

variable {queue : QueueId} {leeway : Leeway} (tight : leeway.shifts = false)
include tight

theorem entryRefailing {entry mate : Entry κ}
    (alike : Entry.UpToLeeway (refailing queue : Concord κ κ ε) leeway entry mate) :
    mate = entry := by
  obtain ⟨step, depth, ticket⟩ := entry
  obtain ⟨twins, depths, tickets⟩ := alike
  obtain ⟨also, other, stamp⟩ := mate
  cases show step = also from twins
  cases show other = depth from depths
  cases show stamp = ticket from tickets tight
  rfl

theorem linesRefailing {lines others : List (Entry κ)}
    (alike : (refailing queue : Concord κ κ ε).Lines leeway lines others) : others = lines := by
  induction alike with
  | nil => rfl
  | twins entry mate rest others entries _ ih => rw [entryRefailing tight entries, ih]
  | extra mate rest others more => exact Leeway.notTight more tight

theorem infoRefailing {info also : StepInfo}
    (alike : StepInfo.UpToLeeway (refailing queue : Concord κ κ ε) leeway info also) :
    also = info := by
  obtain ⟨entry, mate, index, other, entries, indexes⟩ := alike
  rw [entryRefailing tight entries, indexes tight]

theorem markRefailing {mark also : Option Active}
    (alike : Option.Rel (Active.UpToLeeway (refailing queue : Concord κ κ ε) leeway) mark also) :
    also = mark := by
  cases alike with
  | none => rfl
  | some alike =>
    cases alike with
    | same => rfl
    | intro info also infos => rw [infoRefailing tight infos]

end Concord

structure Queue.Same (queue mate : Queue κ) : Prop where
  name : mate.name = queue.name
  taken : mate.taken = queue.taken
  pipeline : mate.agenda.pipeline = queue.agenda.pipeline
  buffer : mate.agenda.buffer = queue.agenda.buffer
  active : mate.agenda.active = queue.agenda.active

namespace Queue

variable {queue mate : Queue κ}

theorem UpToLeeway.refailing {id : QueueId} {leeway : Leeway} (tight : leeway.shifts = false)
    (alike : queue.UpToLeeway (.refailing id : Concord κ κ ε) leeway mate) : queue.Same mate where
  name := alike.name
  taken := alike.taken
  pipeline := Concord.linesRefailing tight alike.agenda.pipeline
  buffer := Concord.linesRefailing tight alike.agenda.buffer
  active := Concord.markRefailing tight alike.agenda.active

theorem Same.status (same : queue.Same mate) : mate.status = queue.status := by
  unfold Queue.status Agenda.status
  rw [← Agenda.lengthOfPending, ← Agenda.lengthOfPending, Agenda.pending, Agenda.pending, same.name,
    same.pipeline, same.buffer, same.active]

theorem Same.snapshot (same : queue.Same mate) : mate.snapshot = queue.snapshot := by
  unfold Queue.snapshot Agenda.snapshot
  rw [Agenda.pending, Agenda.pending, same.name, same.pipeline, same.buffer, same.active]

end Queue

theorem RunError.UpToLeeway.refailing {error also : RunError} {queue : QueueId} {leeway : Leeway}
    (tight : leeway = {})
    (alike : RunError.UpToLeeway (.refailing queue : Concord κ κ ε) leeway error also) :
    also = error := by
  cases alike with
  | recorder => rfl
  | failed info also failure infos =>
    rw [Concord.infoRefailing (congrArg Leeway.shifts tight) infos]
  | panicked info also message infos =>
    rw [Concord.infoRefailing (congrArg Leeway.shifts tight) infos]
  | either info also error mate infos lenient =>
    rw [tight] at lenient
    cases lenient

def RunError.blurred : RunError → RunError
  | .stepFailed step _ | .stepPanicked step _ => .stepFailed step (.message "")
  | .recorder failure => .recorder failure

def Call.blurred : Call → Call
  | .completeStep step (.failed _) => .completeStep step (.failed "")
  | .completeRun run (.failed _ count) => .completeRun run (.failed "" count)
  | call => call

namespace Event

def blurred : Event κ ν ε → Event κ ν ε
  | .asked queue call => .asked queue call.blurred
  | .settled queue info spliced result =>
    .settled queue info spliced (result.mapError RunError.blurred)
  | .notified queue entry label error => .notified queue entry label error.blurred
  | .failed queue error count => .failed queue error.blurred count
  | event => event

def blurredAt (queue : QueueId) (event : Event κ ν ε) : Event κ ν ε :=
  if event.queue? = some queue then event.blurred else event

/- An event with the errors of the queue blurred. What code says on its own account, how an observer
ends and what a recorder says of its own failure is left out. -/
def retold (queue : QueueId) : Event κ ν ε → Option (Event κ ν ε)
  | .observerPanicked _ _ | .stepUnrecorded _ _ _ | .runUnrecorded _ _ | .noted _ => none
  | event => some (event.blurredAt queue)

theorem blurredSame {queue id : QueueId} {event other : Event κ ν ε}
    (mine : event.queue? = some id) (also : other.queue? = some id)
    (blurred : other.blurred = event.blurred) (exact : ¬ id = queue → other = event) :
    other.blurredAt queue = event.blurredAt queue := by
  unfold blurredAt
  rw [mine, also]
  split
  · exact blurred
  · next elsewhere => exact exact fun same => elsewhere (congrArg some same)

end Event

namespace RunError

variable {queue : QueueId} {error also : RunError}

theorem blurredOfStep {label : String} (step : error.step? = some label) :
    error.blurred = .stepFailed label (.message "") := by
  cases error with
  | stepFailed | stepPanicked => cases step; rfl
  | recorder => cases step

theorem UpToLeeway.blurred {leeway : Leeway} (tight : leeway.shifts = false)
    (alike : RunError.UpToLeeway (.refailing queue : Concord κ κ ε) leeway error also) :
    also.blurred = error.blurred := by
  cases alike with
  | recorder => rfl
  | failed info also failure infos => rw [Concord.infoRefailing tight infos]
  | panicked info also message infos => rw [Concord.infoRefailing tight infos]
  | either info also error mate infos _ step other =>
    rw [blurredOfStep step, blurredOfStep other, Concord.infoRefailing tight infos]

theorem UpToLeeway.elsewhere {id : QueueId}
    (alike : RunError.UpToLeeway (.refailing queue : Concord κ κ ε)
      ((Concord.refailing queue : Concord κ κ ε).leeway id) error also)
    (elsewhere : ¬ id = queue) : also = error :=
  alike.refailing (congrArg (Leeway.mk false) (decide_eq_false elsewhere))

end RunError

theorem Event.UpToLeeway.retold {queue : QueueId} {event other : Event κ ν ε}
    (alike : event.UpToLeeway (.refailing queue) other) :
    other.retold queue = event.retold queue := by
  cases alike with
  | appended id entry mate nested entries => rw [Concord.entryRefailing rfl entries]
  | startRun | dropped | noted => rfl
  | started id run also queued waiting exact =>
    obtain ⟨rfl, rfl⟩ := exact rfl
    rfl
  | activated id entry mate info also entries infos =>
    rw [Concord.entryRefailing rfl entries, Concord.infoRefailing rfl infos]
  | startStep id run also info news exact infos =>
    rw [exact rfl, Concord.infoRefailing rfl infos]
  | applied id step also entry mate info news input exact entries infos =>
    rw [exact rfl, Concord.entryRefailing rfl entries, Concord.infoRefailing rfl infos]
  | refused id info also error _ infos => rw [Concord.infoRefailing rfl infos]
  | withdrawn id remaining others lines => rw [Concord.linesRefailing rfl lines]
  | completed id applied also value exact => rw [exact rfl]
  | settled id info news spliced also result mate exact infos results =>
    rw [exact rfl, Concord.infoRefailing rfl infos]
    cases results with
    | ok value => rfl
    | error error mate errors =>
      refine congrArg some (blurredSame rfl rfl ?_ fun elsewhere => ?_)
      · exact congrArg (Event.settled id info spliced <| .error ·) (errors.blurred rfl)
      · rw [errors.elsewhere elsewhere]
  | notified id entry mate info also error news entries infos errors =>
    rw [Concord.entryRefailing rfl entries, Concord.infoRefailing rfl infos]
    refine congrArg some (blurredSame rfl rfl ?_ fun elsewhere => ?_)
    · rw [blurred, blurred, errors.blurred rfl]
    · rw [errors.elsewhere elsewhere]
  | failed id error also dropped errors =>
    refine congrArg some (blurredSame rfl rfl ?_ fun elsewhere => ?_)
    · rw [blurred, blurred, errors.blurred rfl]
    · rw [errors.elsewhere elsewhere]
  | completeStep id step also status mate exact =>
    obtain ⟨rfl, statuses⟩ := exact rfl
    cases statuses with
    | completed => rfl
    | failed error also errors =>
      exact congrArg some (blurredSame rfl rfl rfl fun elsewhere => by
        rw [errors.elsewhere elsewhere])
  | completeRun id run also status mate exact =>
    obtain ⟨rfl, statuses⟩ := exact rfl
    cases statuses with
    | completed => rfl
    | failed error also dropped errors =>
      exact congrArg some (blurredSame rfl rfl rfl fun elsewhere => by
        rw [errors.elsewhere elsewhere])

theorem Concord.Recounts.retold {queue : QueueId} {old early late : List (Event κ ν ε)}
    (recounts : (refailing queue : Concord κ κ ε).Recounts old old early late) :
    late.filterMap (Event.retold queue) = early.filterMap (Event.retold queue) := by
  have unheard {event : Event κ ν ε} (aside : event.Aside fun _ => false) :
      event.retold queue = none := by
    cases aside <;> rfl
  exact recounts.reads Event.UpToLeeway.retold unheard unheard (fun shifts => nomatch shifts) rfl

end Sequencer

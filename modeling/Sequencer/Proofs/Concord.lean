import Sequencer.Proofs.Joining
import Sequencer.Proofs.Lockstep
import Sequencer.Proofs.Marks

/-! Two executions that are the same up to the leeway of their queues. Steps go together as twins,
and twins may be of different kinds. On a queue with leeway the second execution may have more
observers, which do nothing to any queue but shift the indexes and the default labels, or steps may
fail in another way. Code is the same up to that if it asks the same of the queues in spite of all
that it is then handed: it is to make nothing of what twins, their errors and corresponding states
of a queue do not have in common. -/
namespace Sequencer

variable {κ κ' ν ε β γ : Type}

/- In what the executions may differ on a queue: there may be more observers in the second one, so
that indexes and ids shift; and steps may fail in another way. -/
structure Leeway where
  shifts : Bool := false
  lenient : Bool := false
  deriving DecidableEq

/- Where indexes shift, the observers that are told of an error either heed nothing in it but what
the errors of twins have in common, or no one promises what they do. -/
structure Concord (κ κ' ε : Type) where
  heard : ε → Bool
  twin : Step κ → Step κ' → Prop
  observes : ∀ {step mate}, twin step mate → mate.isObserver = step.isObserver
  leeway : QueueId → Leeway := fun _ => {}
  extra : Step κ' → Prop := fun _ => False
  passive : ∀ {step}, extra step → step.isObserver = true
  steady : Bool := true

variable (concord : Concord κ κ' ε)

structure Entry.UpToLeeway (leeway : Leeway) (entry : Entry κ) (mate : Entry κ') : Prop where
  twins : concord.twin entry.toStep mate.toStep
  depth : mate.depth = entry.depth
  ticket : leeway.shifts = false → mate.ticket = entry.ticket

inductive Concord.Lines (leeway : Leeway) : List (Entry κ) → List (Entry κ') → Prop where
  | nil : Lines leeway [] []
  | twins (entry mate rest others) (entries : Entry.UpToLeeway concord leeway entry mate)
      (lines : Lines leeway rest others) : Lines leeway (entry :: rest) (mate :: others)
  | extra (mate rest others) (more : leeway.shifts = true) (extra : concord.extra mate.toStep)
      (lines : Lines leeway rest others) : Lines leeway rest (mate :: others)

inductive StepInfo.UpToLeeway (leeway : Leeway) : StepInfo → StepInfo → Prop where
  | intro (entry mate index also) (entries : Entry.UpToLeeway concord leeway entry mate)
      (indexes : leeway.shifts = false → also = index) :
      UpToLeeway leeway (entry.info index) (mate.info also)

inductive Active.UpToLeeway (leeway : Leeway) : Active → Active → Prop where
  | same (mark) : UpToLeeway leeway mark mark
  | intro (info also) (infos : StepInfo.UpToLeeway concord leeway info also) :
      UpToLeeway leeway ⟨info.index, info.label, info.depth⟩ ⟨also.index, also.label, also.depth⟩

structure Agenda.UpToLeeway (leeway : Leeway) (agenda : Agenda κ) (mate : Agenda κ') : Prop where
  pipeline : concord.Lines leeway agenda.pipeline mate.pipeline
  buffer : concord.Lines leeway agenda.buffer mate.buffer
  active : Option.Rel (Active.UpToLeeway concord leeway) agenda.active mate.active
  arrivals : leeway.shifts = false → mate.arrivals = agenda.arrivals

structure Queue.UpToLeeway (leeway : Leeway) (queue : Queue κ) (mate : Queue κ') : Prop where
  name : mate.name = queue.name
  taken : mate.taken = queue.taken
  agenda : queue.agenda.UpToLeeway concord leeway mate.agenda

/- The errors of two steps that failed alike, or that failed at all where any way of failing is as
good as any other. -/
inductive RunError.UpToLeeway (leeway : Leeway) : RunError → RunError → Prop where
  | recorder (failure) (tight : leeway.shifts = false) :
      UpToLeeway leeway (.recorder failure) (.recorder failure)
  | failed (info also failure) (infos : StepInfo.UpToLeeway concord leeway info also) :
      UpToLeeway leeway (.stepFailed info.label failure) (.stepFailed also.label failure)
  | panicked (info also message) (infos : StepInfo.UpToLeeway concord leeway info also) :
      UpToLeeway leeway (.stepPanicked info.label message) (.stepPanicked also.label message)
  | either (info also error mate) (infos : StepInfo.UpToLeeway concord leeway info also)
      (lenient : leeway.lenient = true) (step : error.step? = some info.label)
      (other : mate.step? = some also.label) : UpToLeeway leeway error mate

inductive Concord.Results (leeway : Leeway) : Except RunError ν → Except RunError ν → Prop where
  | ok (value) : Results leeway (.ok value) (.ok value)
  | error (first second) (errors : RunError.UpToLeeway concord leeway first second) :
      Results leeway (.error first) (.error second)

inductive StepStatus.UpToLeeway (leeway : Leeway) : StepStatus → StepStatus → Prop where
  | completed (spliced) : UpToLeeway leeway (.completed spliced) (.completed spliced)
  | failed (error also) (errors : RunError.UpToLeeway concord leeway error also) :
      UpToLeeway leeway (.failed error.text) (.failed also.text)

inductive RunStatus.UpToLeeway (leeway : Leeway) : RunStatus → RunStatus → Prop where
  | completed (applied) : UpToLeeway leeway (.completed applied) (.completed applied)
  | failed (error also dropped) (errors : RunError.UpToLeeway concord leeway error also) :
      UpToLeeway leeway (.failed error.text dropped) (.failed also.text dropped)

inductive Ending.UpToFailing (lenient : Bool) : Ending β → Ending β → Prop where
  | same (ending) : UpToFailing lenient ending ending
  | failing (first second) (exempt : lenient = true) (failed : ¬ first.Granted)
      (also : ¬ second.Granted) : UpToFailing lenient first second

inductive Program.UpToLeeway (meets : Ending β → Ending γ → Prop) :
    Program κ ν ε β → Program κ' ν ε γ → Prop where
  | ended (first second) (meet : meets first second) : UpToLeeway meets first.code second.code
  | append (queue step mate first second) (twins : concord.twin step mate)
      (on : UpToLeeway meets first second) :
      UpToLeeway meets (.append queue step first) (.append queue mate second)
  | extra (queue step first second) (shifts : (concord.leeway queue).shifts = true)
      (extra : concord.extra step) (on : UpToLeeway meets first second) :
      UpToLeeway meets first (.append queue step second)
  | ask (queue first second)
      (on : ∀ {early late}, Queue.UpToLeeway concord (concord.leeway queue) early late →
        UpToLeeway meets (first early.status) (second late.status)) :
      UpToLeeway meets (.ask queue first) (.ask queue second)
  | look (queue first second)
      (on : ∀ {early late}, Queue.UpToLeeway concord (concord.leeway queue) early late →
        UpToLeeway meets (first early.snapshot) (second late.snapshot)) :
      UpToLeeway meets (.look queue first) (.look queue second)
  | note (remark first second) (on : UpToLeeway meets first second) :
      UpToLeeway meets (.note remark first) (.note remark second)
  | discard (queue first second) (on : ∀ taken, UpToLeeway meets (first taken) (second taken)) :
      UpToLeeway meets (.discard queue first) (.discard queue second)
  -- a queue with leeway has been taken, so there is no result of it
  | run (queue initial first second) (none : UpToLeeway meets (first none) (second none))
      (on : ∀ {early late}, concord.Results {} early late →
        UpToLeeway meets (first (some early)) (second (some late))) :
      UpToLeeway meets (.run queue initial first) (.run queue initial second)
  | left (first rest second) (idles : first.Idles concord.heard rest)
      (on : ∀ world, UpToLeeway meets (rest world) second) : UpToLeeway meets first second
  | right (first second rest) (idles : second.Idles concord.heard rest)
      (on : ∀ world, UpToLeeway meets first (rest world)) : UpToLeeway meets first second

/- Two recorders of one queue that take no more notice of a step than twins have in common, and of
an error than the errors of twins have. -/
structure Recorder.UpToLeeway (leeway : Leeway) (first : Recorder κ ν ε)
    (second : Recorder κ' ν ε) :
    Prop where
  startRun : ∀ name, (first.startRun name).UpToLeeway concord Eq (second.startRun name)
  startStep : ∀ run {info also}, StepInfo.UpToLeeway concord leeway info also →
    (first.startStep run info).UpToLeeway concord Eq (second.startStep run also)
  completeStep : ∀ step {info also status mate}, StepInfo.UpToLeeway concord leeway info also →
    StepStatus.UpToLeeway concord leeway status mate →
    (first.completeStep info step status).UpToLeeway concord
      (Ending.Heeded true) (second.completeStep also step mate)
  completeRun : ∀ run {status mate}, RunStatus.UpToLeeway concord leeway status mate →
    (first.completeRun run status).UpToLeeway concord (Ending.Heeded true)
      (second.completeRun run mate)

structure Behaviour.UpToLeeway (first : Behaviour κ ν ε) (second : Behaviour κ' ν ε) : Prop where
  neutral : second.neutral = first.neutral
  work : ∀ {step mate}, concord.twin step mate → step.isObserver = false → ∀ queue value,
    (first.work step queue value).UpToLeeway concord
      (Ending.UpToFailing (concord.leeway queue).lenient) (second.work mate queue value)
  watch : ∀ {step mate}, concord.twin step mate → step.isObserver = true → ∀ queue value,
    (first.watch step.code queue (.ok value)).UpToLeeway concord (fun _ _ => True)
      (second.watch mate.code queue (.ok value))
  told : ∀ {step mate}, concord.twin step mate → step.isObserver = true →
    ∀ queue {error also}, ((concord.leeway queue).shifts = true → concord.steady = true) →
    RunError.UpToLeeway concord (concord.leeway queue) error also →
    (first.watch step.code queue (.error error)).UpToLeeway concord (fun _ _ => True)
      (second.watch mate.code queue (.error also))
  extra : ∀ {step}, concord.extra step → ∀ queue result, (concord.leeway queue).shifts = true →
    (second.watch step.code queue result).Mute concord.heard fun _ => True
  recorder : ∀ queue, (concord.leeway queue).shifts = false →
    (first.recorder queue).UpToLeeway concord (concord.leeway queue) (second.recorder queue)
  mute : ∀ queue, (concord.leeway queue).shifts = true →
    (first.recorder queue).Mute concord.heard ∧ (second.recorder queue).Mute concord.heard

/- Corresponding events. Where indexes shift, ids and counts of the library do not correspond. -/
inductive Event.UpToLeeway : Event κ ν ε → Event κ' ν ε → Prop where
  | appended (queue entry mate nested)
      (entries : Entry.UpToLeeway concord (concord.leeway queue) entry mate) :
      UpToLeeway (.appended queue entry nested) (.appended queue mate nested)
  | startRun (queue name) :
      UpToLeeway (.asked queue (.startRun name)) (.asked queue (.startRun name))
  | started (queue run other queued waiting)
      (exact : (concord.leeway queue).shifts = false → other = run ∧ waiting = queued) :
      UpToLeeway (.started queue run queued) (.started queue other waiting)
  | activated (queue entry mate info also)
      (entries : Entry.UpToLeeway concord (concord.leeway queue) entry mate)
      (infos : StepInfo.UpToLeeway concord (concord.leeway queue) info also) :
      UpToLeeway (.activated queue entry info) (.activated queue mate also)
  | startStep (queue run other info also)
      (exact : (concord.leeway queue).shifts = false → other = run)
      (infos : StepInfo.UpToLeeway concord (concord.leeway queue) info also) :
      UpToLeeway (.asked queue (.startStep run info)) (.asked queue (.startStep other also))
  | applied (queue step other entry mate info also input)
      (exact : (concord.leeway queue).shifts = false → other = step)
      (entries : Entry.UpToLeeway concord (concord.leeway queue) entry mate)
      (infos : StepInfo.UpToLeeway concord (concord.leeway queue) info also) :
      UpToLeeway (.applied queue step entry info input) (.applied queue other mate also input)
  | settled (queue info also spliced other result mate)
      (exact : (concord.leeway queue).shifts = false → other = spliced)
      (infos : StepInfo.UpToLeeway concord (concord.leeway queue) info also)
      (results : concord.Results (concord.leeway queue) result mate) :
      UpToLeeway (.settled queue info spliced result) (.settled queue also other mate)
  | completeStep (queue step other status mate)
      (exact : (concord.leeway queue).shifts = false →
        other = step ∧ StepStatus.UpToLeeway concord (concord.leeway queue) status mate) :
      UpToLeeway (.asked queue (.completeStep step status))
        (.asked queue (.completeStep other mate))
  | refused (queue info also error) (tight : (concord.leeway queue).shifts = false)
      (infos : StepInfo.UpToLeeway concord (concord.leeway queue) info also) :
      UpToLeeway (.refused queue info error) (.refused queue also error)
  | withdrawn (queue remaining others)
      (lines : concord.Lines (concord.leeway queue) remaining others) :
      UpToLeeway (.withdrawn queue remaining) (.withdrawn queue others)
  | notified (queue entry mate info also error other)
      (entries : Entry.UpToLeeway concord (concord.leeway queue) entry mate)
      (infos : StepInfo.UpToLeeway concord (concord.leeway queue) info also)
      (errors : RunError.UpToLeeway concord (concord.leeway queue) error other) :
      UpToLeeway (.notified queue entry info.label error) (.notified queue mate also.label other)
  | dropped (queue count) : UpToLeeway (.dropped queue count) (.dropped queue count)
  | completeRun (queue run other status mate)
      (exact : (concord.leeway queue).shifts = false →
        other = run ∧ RunStatus.UpToLeeway concord (concord.leeway queue) status mate) :
      UpToLeeway (.asked queue (.completeRun run status)) (.asked queue (.completeRun other mate))
  | completed (queue applied other value)
      (exact : (concord.leeway queue).shifts = false → other = applied) :
      UpToLeeway (.completed queue applied value) (.completed queue other value)
  | failed (queue error also dropped)
      (errors : RunError.UpToLeeway concord (concord.leeway queue) error also) :
      UpToLeeway (.failed queue error dropped) (.failed queue also dropped)
  | noted (remark) : UpToLeeway (.noted remark) (.noted remark)

inductive Event.Aside (heard : ε → Bool) : Event κ ν ε → Prop where
  | observerPanicked (label payload) : Aside heard (.observerPanicked label payload)
  | stepUnrecorded (queue info failure) : Aside heard (.stepUnrecorded queue info failure)
  | runUnrecorded (queue failure) : Aside heard (.runUnrecorded queue failure)
  | noted (remark) (unheard : heard remark = false) : Aside heard (.noted remark)

inductive Event.Extra (queue : QueueId) : Event κ' ν ε → Prop where
  | appended (entry : Entry κ') (nested) (extra : concord.extra entry.toStep) :
      Extra queue (.appended queue entry nested)
  | activated (entry : Entry κ') (index) (extra : concord.extra entry.toStep) :
      Extra queue (.activated queue entry (entry.info index))
  | startStep (run) (entry : Entry κ') (index) (extra : concord.extra entry.toStep) :
      Extra queue (.asked queue (.startStep run (entry.info index)))
  | applied (step) (entry : Entry κ') (index input) (extra : concord.extra entry.toStep) :
      Extra queue (.applied queue step entry (entry.info index) input)
  | settled (entry : Entry κ') (index spliced value) (extra : concord.extra entry.toStep) :
      Extra queue (.settled queue (entry.info index) spliced (.ok value))
  | completeStep (step spliced) :
      Extra queue (.asked queue (.completeStep step (.completed spliced)))
  | notified (entry : Entry κ') (label error) (extra : concord.extra entry.toStep) :
      Extra queue (.notified queue entry label error)

inductive Concord.Recounts (old : List (Event κ ν ε)) (past : List (Event κ' ν ε)) :
    List (Event κ ν ε) → List (Event κ' ν ε) → Prop where
  | start : Recounts old past old past
  | both (event other early late) (alike : event.UpToLeeway concord other)
      (before : Recounts old past early late) : Recounts old past (event :: early) (other :: late)
  | first (event early late) (aside : event.Aside concord.heard)
      (before : Recounts old past early late) : Recounts old past (event :: early) late
  | second (event early late) (aside : event.Aside concord.heard)
      (before : Recounts old past early late) : Recounts old past early (event :: late)
  | extra (queue event early late) (shifts : (concord.leeway queue).shifts = true)
      (extra : event.Extra concord queue) (before : Recounts old past early late) :
      Recounts old past early (event :: late)

structure World.UpToLeeway (old : List (Event κ ν ε)) (past : List (Event κ' ν ε))
    (first : World κ ν ε)
    (second : World κ' ν ε) : Prop where
  queues : ∀ id, (first.queue id).UpToLeeway concord (concord.leeway id) (second.queue id)
  taken : ∀ id, concord.leeway id ≠ {} → (first.queue id).taken = true
  history : concord.Recounts old past first.history second.history

variable {concord}

theorem StepInfo.UpToLeeway.depth {leeway : Leeway} {info also : StepInfo}
    (infos : StepInfo.UpToLeeway concord leeway info also) : also.depth = info.depth := by
  cases infos with
  | intro entry mate index also entries _ => exact entries.depth

theorem Ending.UpToFailing.results {leeway : Leeway} {info also : StepInfo}
    (infos : StepInfo.UpToLeeway concord leeway info also) {early late : Ending ν}
    (alike : early.UpToFailing leeway.lenient late) :
    concord.Results leeway (early.result info.label) (late.result also.label) := by
  have named (ending : Ending ν) (failed : ¬ ending.Granted) (label : String) :
      ∃ error, ending.result label = .error error ∧ error.step? = some label := by
    cases ending with
    | returned answer => exact absurd ⟨answer, rfl⟩ failed
    | failed | panicked => exact ⟨_, rfl, rfl⟩
  cases alike with
  | same =>
    cases early with
    | returned answer => exact .ok answer
    | failed failure => exact .error _ _ (.failed info also failure infos)
    | panicked payload => exact .error _ _ (.panicked info also payload.message infos)
  | failing _ lenient failed mishap =>
    obtain ⟨error, result, step⟩ := named early failed info.label
    obtain ⟨mate, other, label⟩ := named late mishap also.label
    rw [result, other]
    exact .error _ _ (.either info also error mate infos lenient step label)

theorem Concord.Recounts.reads {f : Event κ ν ε → Option β} {g : Event κ' ν ε → Option β}
    {old early : List (Event κ ν ε)} {past late : List (Event κ' ν ε)}
    (recounts : concord.Recounts old past early late)
    (alike : ∀ {event other}, Event.UpToLeeway concord event other → g other = f event)
    (first : ∀ {event}, event.Aside concord.heard → f event = none)
    (second : ∀ {event}, event.Aside concord.heard → g event = none)
    (extra : ∀ {queue event}, (concord.leeway queue).shifts = true →
      event.Extra concord queue → g event = none)
    (before : past.filterMap g = old.filterMap f) : late.filterMap g = early.filterMap f := by
  induction recounts with
  | start => exact before
  | both event other early late events _ ih =>
    rw [List.filterMap_cons, List.filterMap_cons, alike events, ih]
  | first event early late aside _ ih => rw [ih, List.filterMap_cons, first aside]
  | second event early late aside _ ih => rw [List.filterMap_cons, second aside, ih]
  | extra queue event early late shifts more _ ih =>
    rw [List.filterMap_cons, extra shifts more, ih]

theorem Event.UpToLeeway.queue {event : Event κ ν ε} {other : Event κ' ν ε}
    (alike : event.UpToLeeway concord other) : other.queue? = event.queue? := by
  cases alike <;> rfl

namespace Concord.Lines

variable {leeway : Leeway} {first : List (Entry κ)} {second : List (Entry κ')}

theorem append {rest : List (Entry κ)} {others : List (Entry κ')}
    (lines : concord.Lines leeway first second) (more : concord.Lines leeway rest others) :
    concord.Lines leeway (first ++ rest) (second ++ others) := by
  induction lines with
  | nil => exact more
  | twins entry mate rest others entries _ ih => exact .twins entry mate _ _ entries ih
  | extra mate rest others shifts extra _ ih => exact .extra mate _ _ shifts extra ih

theorem length (lines : concord.Lines leeway first second) (tight : leeway.shifts = false) :
    second.length = first.length := by
  induction lines with
  | nil => rfl
  | twins entry mate rest others entries _ ih => simp only [List.length_cons, ih]
  | extra mate rest others more => cases more.symm.trans tight

end Concord.Lines

namespace Agenda.UpToLeeway

variable {leeway : Leeway} {agenda : Agenda κ} {mate : Agenda κ'}
  (alike : agenda.UpToLeeway concord leeway mate)
include alike

theorem depth : mate.depth = agenda.depth := by
  have active := alike.active
  unfold Agenda.depth
  generalize agenda.active = mark, mate.active = other at active ⊢
  cases active with
  | none => rfl
  | some alike =>
    cases alike with
    | same => rfl
    | intro info also infos => exact congrArg (· + 1) infos.depth

theorem busy : mate.active.isSome = agenda.active.isSome := by
  have active := alike.active
  generalize agenda.active = mark, mate.active = other at active ⊢
  cases active <;> rfl

theorem entry {step : Step κ} {other : Step κ'} (twins : concord.twin step other) :
    (agenda.entry step).UpToLeeway concord leeway (mate.entry other) :=
  ⟨twins, alike.depth, alike.arrivals⟩

theorem append {step : Step κ} {other : Step κ'} (twins : concord.twin step other) :
    (agenda.append step).UpToLeeway concord leeway (mate.append other) := by
  have last := Concord.Lines.twins _ _ _ _ (alike.entry twins) .nil
  have arrivals (exact : leeway.shifts = false) :
      (mate.append other).arrivals = (agenda.append step).arrivals := by
    rw [Agenda.arrivalsAfterAppend, Agenda.arrivalsAfterAppend, alike.arrivals exact]
  have active : Option.Rel (Active.UpToLeeway concord leeway) (agenda.append step).active
      (mate.append other).active := by
    rw [Agenda.activeAfterAppend, Agenda.activeAfterAppend]
    exact alike.active
  rcases Agenda.appendTogether alike.busy step other with
    ⟨pipeline, buffer, others, found⟩ | ⟨pipeline, buffer, others, found⟩
  · exact ⟨by rw [pipeline, others]; exact alike.pipeline.append last,
      by rw [buffer, found]; exact alike.buffer, active, arrivals⟩
  · exact ⟨by rw [pipeline, others]; exact alike.pipeline,
      by rw [buffer, found]; exact alike.buffer.append last, active, arrivals⟩

theorem extra (more : leeway.shifts = true) {step : Step κ'} (extra : concord.extra step) :
    agenda.UpToLeeway concord leeway (mate.append step) := by
  have active :
      Option.Rel (Active.UpToLeeway concord leeway) agenda.active (mate.append step).active := by
    rw [Agenda.activeAfterAppend]
    exact alike.active
  have arrivals (exact : leeway.shifts = false) : (mate.append step).arrivals = agenda.arrivals :=
    nomatch more.symm.trans exact
  have last : concord.Lines leeway [] [mate.entry step] := .extra _ _ _ more extra .nil
  cases here : mate.active with
  | none =>
    obtain ⟨others, found⟩ := mate.appendIdle here step
    exact ⟨by rw [others]; simpa using alike.pipeline.append last,
      by rw [found]; exact alike.buffer,
      active, arrivals⟩
  | some mark =>
    obtain ⟨others, found⟩ := mate.appendActive here step
    exact ⟨by rw [others]; exact alike.pipeline,
      by rw [found]; simpa using alike.buffer.append last,
      active, arrivals⟩

theorem pending : concord.Lines leeway agenda.pending mate.pending :=
  alike.buffer.append alike.pipeline

theorem settle : agenda.settle.UpToLeeway concord leeway mate.settle where
  pipeline := by
    rw [agenda.settled.1, mate.settled.1]
    exact alike.pending
  buffer := by
    rw [agenda.settled.2, mate.settled.2]
    exact .nil
  active := .none
  arrivals := alike.arrivals

theorem emptied : agenda.takeRemaining.2.UpToLeeway concord leeway mate.takeRemaining.2 where
  pipeline := .nil
  buffer := .nil
  active := .none
  arrivals := alike.arrivals

theorem activated {entry : Entry κ} {next : Agenda κ} {other : Entry κ'} {later : Agenda κ'}
    {index also : UInt32} (taken : agenda.activate index = some (entry, next))
    (picked : mate.activate also = some (other, later))
    (entries : entry.UpToLeeway concord leeway other)
    (lines : concord.Lines leeway next.pipeline later.pipeline)
    (indexes : leeway.shifts = false → also = index) : next.UpToLeeway concord leeway later := by
  obtain ⟨-, buffer, active, arrivals⟩ := Agenda.activateSome taken
  obtain ⟨-, found, mark, counted⟩ := Agenda.activateSome picked
  refine ⟨lines, by rw [buffer, found]; exact alike.buffer, ?_, fun exact => ?_⟩
  · rw [active, mark]
    exact .some (.intro _ _ (.intro entry other index also entries indexes))
  · rw [arrivals, counted, alike.arrivals exact]

end Agenda.UpToLeeway

namespace World.UpToLeeway

variable {old : List (Event κ ν ε)} {past : List (Event κ' ν ε)} {first : World κ ν ε}
  {second : World κ' ν ε} (alike : first.UpToLeeway concord old past second)
include alike

theorem agenda (id : QueueId) :
    (first.agenda id).UpToLeeway concord (concord.leeway id) (second.agenda id) :=
  (alike.queues id).agenda

theorem setAgenda {id : QueueId} {agenda : Agenda κ} {mate : Agenda κ'}
    (agendas : agenda.UpToLeeway concord (concord.leeway id) mate) :
    (first.setAgenda id agenda).UpToLeeway concord old past (second.setAgenda id mate) where
  queues other := by
    rw [queueOfSet, queueOfSet]
    split
    · next same =>
      subst same
      exact ⟨(alike.queues other).name, (alike.queues other).taken, agendas⟩
    · exact alike.queues other
  taken other special := (queueAfterSet first id other agenda).2.trans (alike.taken other special)
  history := alike.history

theorem take (id : QueueId) : (first.take id).UpToLeeway concord old past (second.take id) where
  queues other := by
    rw [queueOfTake, queueOfTake]
    split
    · next same =>
      subst same
      exact ⟨(alike.queues other).name, rfl, (alike.queues other).agenda⟩
    · exact alike.queues other
  taken other special := by
    rw [(queueAfterTake first id other).2, alike.taken other special, Bool.or_true]
  history := alike.history

theorem record {event : Event κ ν ε} {other : Event κ' ν ε}
    (events : event.UpToLeeway concord other) :
    (first.record event).UpToLeeway concord old past (second.record other) :=
  ⟨alike.queues, alike.taken, .both event other _ _ events alike.history⟩

theorem recordFirst {event : Event κ ν ε} (aside : event.Aside concord.heard) :
    (first.record event).UpToLeeway concord old past second :=
  ⟨alike.queues, alike.taken, .first event _ _ aside alike.history⟩

theorem recordSecond {event : Event κ' ν ε} (aside : event.Aside concord.heard) :
    first.UpToLeeway concord old past (second.record event) :=
  ⟨alike.queues, alike.taken, .second event _ _ aside alike.history⟩

theorem recordExtra {queue : QueueId} {event : Event κ' ν ε}
    (shifts : (concord.leeway queue).shifts = true)
    (extra : event.Extra concord queue) : first.UpToLeeway concord old past (second.record event) :=
  ⟨alike.queues, alike.taken, .extra queue event _ _ shifts extra alike.history⟩

theorem settle (id : QueueId) : (first.settle id).UpToLeeway concord old past (second.settle id) :=
  alike.setAgenda (alike.agenda id).settle

theorem append (id : QueueId) {step : Step κ} {mate : Step κ'} (twins : concord.twin step mate) :
    (first.append id step).UpToLeeway concord old past (second.append id mate) := by
  have agendas := alike.agenda id
  have appended := (alike.setAgenda (agendas.append twins)).record
    (.appended id _ _ (first.agenda id).active.isSome (agendas.entry twins))
  dsimp only [World.append]
  rw [agendas.busy]
  exact appended

theorem appendExtra {id : QueueId} (shifts : (concord.leeway id).shifts = true) {step : Step κ'}
    (extra : concord.extra step) : first.UpToLeeway concord old past (second.append id step) := by
  have agendas := (alike.agenda id).extra shifts extra
  refine ⟨fun other => ?_, alike.taken, .extra id _ _ _ shifts (.appended _ _ extra) alike.history⟩
  unfold World.append
  rw [queueOfRecord, queueOfSet]
  split
  · next same =>
    subst same
    exact ⟨(alike.queues other).name, (alike.queues other).taken, agendas⟩
  · exact alike.queues other

theorem unmoved {next : World κ ν ε} (unmoved : first.Unmoved concord.heard next) :
    next.UpToLeeway concord old past second := by
  induction unmoved with
  | same => exact alike
  | remark next remark _ unheard ih => exact ih.recordFirst (.noted remark unheard)

theorem unmovedAlso {next : World κ' ν ε} (unmoved : second.Unmoved concord.heard next) :
    first.UpToLeeway concord old past next := by
  induction unmoved with
  | same => exact alike
  | remark next remark _ unheard ih => exact ih.recordSecond (.noted remark unheard)

theorem notingSecond {late : Option (Event κ' ν ε)}
    (aside : ∀ event ∈ late, event.Aside concord.heard) :
    first.UpToLeeway concord old past (second.noting late) := by
  cases late with
  | none => exact alike
  | some event => exact alike.recordSecond (aside event rfl)

theorem noting {early : Option (Event κ ν ε)} {late : Option (Event κ' ν ε)}
    (aside : ∀ event ∈ early, event.Aside concord.heard)
    (also : ∀ event ∈ late, event.Aside concord.heard) :
    (first.noting early).UpToLeeway concord old past (second.noting late) := by
  have noted : (first.noting early).UpToLeeway concord old past second := by
    cases early with
    | none => exact alike
    | some event => exact alike.recordFirst (aside event rfl)
  exact noted.notingSecond also

end World.UpToLeeway

end Sequencer

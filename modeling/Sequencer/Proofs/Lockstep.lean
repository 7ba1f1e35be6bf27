import Sequencer.Proofs.Idling

/-! Machines whose code is the same up to idling go on in lockstep. Where the library has called
out, both executions stand at the same stage, with ids that go together; between two calls it does
the same in both. So one step of either is answered by the idle steps of the other and its own. -/
namespace Sequencer

variable {κ κ' ν ε τ : Type} {bond : Bond κ κ' ν ε τ}

namespace World

theorem queueOfSet (world : World κ ν ε) (id other : QueueId) (agenda : Agenda κ) :
    (world.setAgenda id agenda).queue other =
      if other = id then { world.queue id with agenda } else world.queue other := by
  simp only [World.queue, setAgenda, Queue.readAdjusted]

theorem queueOfTake (world : World κ ν ε) (id other : QueueId) :
    (world.take id).queue other =
      if other = id then { world.queue id with taken := true } else world.queue other := by
  simp only [World.queue, take, Queue.readAdjusted]

@[simp] theorem queueOfRecord (world : World κ ν ε) (event : Event κ ν ε) (id : QueueId) :
    (world.record event).queue id = world.queue id := rfl

def noting (world : World κ ν ε) (event? : Option (Event κ ν ε)) : World κ ν ε :=
  event?.elim world world.record

variable {first : World κ ν ε} {second : World κ' ν ε} {id : QueueId}

namespace UpToNames

variable (alike : first.UpToNames bond second)
include alike

theorem agenda (own : bond.apart id = none) :
    second.agenda id = (first.agenda id).recode bond.recode :=
  congrArg Queue.agenda (alike.shared own)

theorem taken (id : QueueId) : (second.queue id).taken = (first.queue id).taken := by
  cases here : bond.apart id with
  | none => exact congrArg Queue.taken (alike.shared here)
  | some fact =>
    obtain ⟨-, taken, also⟩ := alike.apart here
    rw [taken, also]

theorem sharedUntaken (untaken : ¬ (first.queue id).taken = true) : bond.apart id = none := by
  cases here : bond.apart id with
  | none => rfl
  | some fact => exact absurd (alike.apart here).2.1 untaken

theorem setAgenda (own : bond.apart id = none) (agenda : Agenda κ) :
    (first.setAgenda id agenda).UpToNames bond
      (second.setAgenda id (agenda.recode bond.recode)) where
  shared {other} shared := by
    rw [queueOfSet, queueOfSet, alike.shared own, alike.shared shared]
    split <;> rfl
  apart {other fact} here := by
    have elsewhere : other ≠ id := fun same => by simp [same, own] at here
    simpa [queueOfSet, elsewhere] using alike.apart here
  history := alike.history

theorem take (own : bond.apart id = none) : (first.take id).UpToNames bond (second.take id) where
  shared {other} shared := by
    rw [queueOfTake, queueOfTake, alike.shared own, alike.shared shared]
    split <;> rfl
  apart {other fact} here := by
    have elsewhere : other ≠ id := fun same => by simp [same, own] at here
    simpa [queueOfTake, elsewhere] using alike.apart here
  history := alike.history

theorem settle (own : bond.apart id = none) :
    (first.settle id).UpToNames bond (second.settle id) := by
  rw [World.settle, World.settle, alike.agenda own, ← Agenda.recodeSettle]
  exact alike.setAgenda own _

theorem record {event : Event κ ν ε} {other : Event κ' ν ε}
    (events : Event.UpToNames bond.recode bond.ties (bond.apart · = none) event other) :
    (first.record event).UpToNames bond (second.record other) where
  shared shared := alike.shared shared
  apart {id fact} here := by
    have elsewhere : event.queue? ≠ some id := fun own => by simp [events.shared own] at here
    simpa [elsewhere] using alike.apart here
  history := by
    simp only [World.record, List.filterMap_cons, bond.told events, alike.history]

theorem recordSame (event : Event κ ν ε) (mine : event.queue? = some id)
    (own : bond.apart id = none) :
    (first.record event).UpToNames bond (second.record (event.recode bond.recode)) :=
  alike.record (.same event fun _ same => Option.some.inj (mine.symm.trans same) ▸ own)

theorem recordFree (event : Event κ ν ε) (free : event.queue? = none) :
    (first.record event).UpToNames bond (second.record (event.recode bond.recode)) :=
  alike.record (.same event fun _ mine => nomatch free.symm.trans mine)

theorem untold {event : Event κ ν ε} (untold : event.Untold bond.heard bond.ties)
    (own : ∀ queue, event.queue? = some queue → bond.apart queue = none) :
    (first.record event).UpToNames bond second where
  shared shared := alike.shared shared
  apart {id fact} here := by
    have elsewhere : event.queue? ≠ some id := fun mine => by simp [own id mine] at here
    simpa [elsewhere] using alike.apart here
  history := (List.filterMap_cons_none (bond.untold untold)).trans alike.history

theorem untoldAlso {event : Event κ' ν ε} (untold : event.Untold bond.heard bond.ties) :
    first.UpToNames bond (second.record event) where
  shared shared := alike.shared shared
  apart here := alike.apart here
  history := alike.history.trans (List.filterMap_cons_none (bond.untoldAlso untold)).symm

theorem append (own : bond.apart id = none) (step : Step κ) :
    (first.append id step).UpToNames bond (second.append id (step.recode bond.recode)) := by
  have set := (alike.setAgenda own ((first.agenda id).append step)).recordSame
    (.appended id ((first.agenda id).entry step) (first.agenda id).active.isSome) rfl own
  rw [Agenda.recodeAppend] at set
  rw [World.append, World.append, alike.agenda own]
  exact set

theorem unmoved {next : World κ ν ε} (unmoved : first.Unmoved bond.heard next) :
    next.UpToNames bond second := by
  induction unmoved with
  | same => exact alike
  | remark next remark _ unheard ih => exact ih.untold (.noted remark unheard) nofun

theorem unmovedAlso {next : World κ' ν ε} (unmoved : second.Unmoved bond.heard next) :
    first.UpToNames bond next := by
  induction unmoved with
  | same => exact alike
  | remark next remark _ unheard ih => exact ih.untoldAlso (.noted remark unheard)

theorem noting {early : Option (Event κ ν ε)} {late : Option (Event κ' ν ε)}
    (untold : ∀ event ∈ early, event.Untold bond.heard bond.ties)
    (own : ∀ event ∈ early, ∀ queue, event.queue? = some queue → bond.apart queue = none)
    (also : ∀ event ∈ late, event.Untold bond.heard bond.ties) :
    (first.noting early).UpToNames bond (second.noting late) := by
  have noted : (first.noting early).UpToNames bond second := by
    cases early with
    | none => exact alike
    | some event => exact alike.untold (untold event rfl) (own event rfl)
  cases late with
  | none => exact noted
  | some event => exact noted.untoldAlso (also event rfl)

end UpToNames

end World

variable (bond) in
structure Run.Tied (run : Run) (id : Int) : Prop where
  shared : bond.apart run.queue = none
  ids : (bond.ties.tie run.queue).runs run.id id

inductive Delivery.UpToNames (tied : Int → Int → Prop) : Delivery → Delivery → Prop where
  | refused (error) : UpToNames tied ⟨error, none⟩ ⟨error, none⟩
  | failed (error step other info) (ids : tied step other) :
      UpToNames tied ⟨error, some (step, info)⟩ ⟨error, some (other, info)⟩

variable (bond) in
inductive Stage.UpToNames : (first : Stage κ ν) → (second : Stage κ' ν) →
    (Ending (first.Answer ε) → Ending (second.Answer ε) → Prop) → Prop where
  | outside : UpToNames .outside .outside Eq
  | startingRun (queue value) (own : bond.apart queue = none) :
      UpToNames (.startingRun queue value) (.startingRun queue value)
        (Ending.Answered (bond.ties.tie queue).runs)
  | startingStep (run id value entry info) (tied : run.Tied bond id) :
      UpToNames (.startingStep run value entry info)
        (.startingStep { run with id } value (entry.recode bond.recode) info)
        (Ending.Answered (bond.ties.tie run.queue).steps)
  | applying (run id step other info) (tied : run.Tied bond id)
      (steps : (bond.ties.tie run.queue).steps step other) :
      UpToNames (.applying run step info) (.applying { run with id } other info) Eq
  | calling (run id step other info) (tied : run.Tied bond id)
      (steps : (bond.ties.tie run.queue).steps step other) :
      UpToNames (.calling run step info) (.calling { run with id } other info)
        (Ending.Called bond.heard bond.recode)
  | awaiting (run id step other info) (tied : run.Tied bond id)
      (steps : (bond.ties.tie run.queue).steps step other) :
      UpToNames (.awaiting run step info) (.awaiting { run with id } other info) Eq
  | observing (run id step other info value) (tied : run.Tied bond id)
      (steps : (bond.ties.tie run.queue).steps step other) :
      UpToNames (.observing run step info value) (.observing { run with id } other info value) Eq
  | delivering (run id delivery other label rest index dropped) (tied : run.Tied bond id)
      (deliveries : delivery.UpToNames (bond.ties.tie run.queue).steps other) :
      UpToNames (.delivering run delivery label rest index dropped)
        (.delivering { run with id } other label (rest.map (Entry.recode bond.recode)) index
          dropped)
        Eq
  | completingStep (run id info verdict) (tied : run.Tied bond id) :
      UpToNames (.completingStep run info verdict) (.completingStep { run with id } info verdict)
        (Ending.Heeded (bond.ties.loose run.queue))
  | completingRun (run id verdict) (tied : run.Tied bond id) :
      UpToNames (.completingRun run verdict) (.completingRun { run with id } verdict)
        (Ending.Heeded (bond.ties.loose run.queue))

theorem Stage.UpToNames.panicked {first : Stage κ ν} {second : Stage κ' ν}
    {meets : Ending (first.Answer ε) → Ending (second.Answer ε) → Prop}
    (alike : Stage.UpToNames bond first second meets) (payload : Payload) :
    meets (.panicked payload) (.panicked payload) := by
  cases alike with
  | startingRun | startingStep => exact .panicked payload
  | calling => exact .panicked payload
  | completingStep | completingRun => exact .same _
  | outside | applying | awaiting | observing | delivering => rfl

variable (bond) in
inductive Frame.UpToNames : Frame κ ν ε → Frame κ' ν ε → Prop where
  | intro (first second code other meets) (stages : Stage.UpToNames bond first second meets)
      (codes : code.UpToIdling bond.heard bond.recode meets other) :
      UpToNames ⟨first, code⟩ ⟨second, other⟩

variable (bond) in
inductive Caller.UpToNames : Caller κ ν ε → Caller κ' ν ε → Prop where
  | intro (first second resume other meets) (stages : Stage.UpToNames bond first second meets)
      (codes : ∀ result, (resume result).UpToIdling bond.heard bond.recode meets (other result)) :
      UpToNames ⟨first, resume⟩ ⟨second, other⟩

inductive Turn.Over : Turn κ ν ε → Turn κ' ν ε → Prop where
  | returned (result) : Over (.returned result) (.returned result)
  | unwound (payload) : Over (.unwound payload) (.unwound payload)

variable (bond) in
inductive Turn.UpToNames : Turn κ ν ε → Turn κ' ν ε → Prop where
  | enter (first second) (frames : first.UpToNames bond second) :
      UpToNames (.enter first) (.enter second)
  | ended (first second) (ended : first.Over second) : UpToNames first second
  | left : UpToNames .left .left

namespace Scheduler

variable (bond) in
structure UpToNames (first : World κ ν ε × Turn κ ν ε) (second : World κ' ν ε × Turn κ' ν ε) :
    Prop where
  worlds : first.1.UpToNames bond second.1
  turns : first.2.UpToNames bond second.2

variable {first : Behaviour κ ν ε} {second : Behaviour κ' ν ε} {world : World κ ν ε}
  {other : World κ' ν ε} {run : Run} {id : Int}

theorem startRunUpToNames (behaviours : first.UpToNames bond second)
    (worlds : world.UpToNames bond other)
    {queue : QueueId} (own : bond.apart queue = none) (value : ν) :
    (startRun first world queue value).1.UpToNames bond (startRun second other queue value).1 ∧
      (startRun first world queue value).2.UpToNames bond
        (startRun second other queue value).2 := by
  have same : other.nameOf queue = world.nameOf queue := congrArg Queue.name (worlds.shared own)
  rw [startRun, startRun, same]
  exact ⟨worlds.recordSame (.asked queue _) rfl own,
    .intro _ _ _ _ _ (.startingRun queue value own) ((behaviours.recorder own).startRun _)⟩

theorem completeRunUpToNames (behaviours : first.UpToNames bond second)
    (worlds : world.UpToNames bond other)
    (tied : run.Tied bond id) (verdict : Verdict ν) :
    UpToNames bond (completeRun first world run verdict)
      (completeRun second other { run with id } verdict) where
  worlds := worlds.record (.completeRun _ _ _ _ tied.shared tied.ids)
  turns := .enter _ _ <| .intro _ _ _ _ _ (.completingRun run id verdict tied) <|
    (behaviours.recorder tied.shared).completeRun tied.ids _

theorem proceedUpToNames (behaviours : first.UpToNames bond second)
    (worlds : world.UpToNames bond other)
    (tied : run.Tied bond id) (value : ν) :
    UpToNames bond (proceed first world run value)
      (proceed second other { run with id } value) := by
  simp only [proceed, worlds.agenda tied.shared, Agenda.recodeActivate]
  cases (world.agenda run.queue).activate run.index with
  | none => exact completeRunUpToNames behaviours worlds tied _
  | some taken =>
    obtain ⟨entry, agenda⟩ := taken
    have activated := (worlds.setAgenda tied.shared agenda).recordSame
      (.activated run.queue entry (entry.info run.index)) rfl tied.shared
    exact ⟨activated.record (.startStep _ _ _ _ tied.shared tied.ids), .enter _ _ <|
      .intro _ _ _ _ _ (.startingStep run id value entry _ tied) <|
        (behaviours.recorder tied.shared).startStep tied.ids _⟩

theorem applyUpToNames (behaviours : first.UpToNames bond second)
    (worlds : world.UpToNames bond other)
    (tied : run.Tied bond id) {step also : Int}
    (steps : (bond.ties.tie run.queue).steps step also) (value : ν) (entry : Entry κ)
    (info : StepInfo) :
    UpToNames bond (apply first world run step value entry info)
      (apply second other { run with id } also value (entry.recode bond.recode) info) := by
  refine ⟨worlds.record (.applied _ _ _ _ _ _ tied.shared steps), ?_⟩
  dsimp only [apply, Entry.recode, Step.recode]
  cases entry.kind with
  | value =>
    exact .enter _ _ <| .intro _ _ _ _ _ (.applying run id step also info tied steps) <|
      behaviours.body _ tied.shared _
  | async =>
    exact .enter _ _ <| .intro _ _ _ _ _ (.calling run id step also info tied steps) <|
      behaviours.call _ tied.shared _
  | observer =>
    exact .enter _ _ <| .intro _ _ _ _ _ (.observing run id step also info value tied steps) <|
      behaviours.watch _ tied.shared _

theorem completeStepUpToNames (run : Run) (behaviours : first.UpToNames bond second)
    (worlds : world.UpToNames bond other) (tied : run.Tied bond id) {step also : Int}
    (steps : (bond.ties.tie run.queue).steps step also) (info : StepInfo) (status : StepStatus)
    (verdict : Verdict ν) :
    UpToNames bond (completeStep first world run step info status verdict)
      (completeStep second other { run with id } also info status verdict) where
  worlds := worlds.record (.completeStep _ _ _ _ tied.shared steps)
  turns := .enter _ _ <| .intro _ _ _ _ _ (.completingStep run id info verdict tied) <|
    (behaviours.recorder tied.shared).completeStep steps _ _

theorem deliveredUpToNames (behaviours : first.UpToNames bond second)
    (worlds : world.UpToNames bond other)
    (tied : run.Tied bond id) {delivery also : Delivery}
    (deliveries : delivery.UpToNames (bond.ties.tie run.queue).steps also) (dropped : Nat) :
    UpToNames bond (delivered first world run delivery dropped)
      (delivered second other { run with id } also dropped) := by
  have told := worlds.recordSame (.dropped run.queue dropped) rfl tied.shared
  cases deliveries with
  | refused error => exact completeRunUpToNames behaviours told tied _
  | failed error step also info steps =>
    exact completeStepUpToNames run behaviours told tied steps _ _ _

theorem deliverUpToNames (behaviours : first.UpToNames bond second)
    (worlds : world.UpToNames bond other)
    (tied : run.Tied bond id) {delivery also : Delivery}
    (deliveries : delivery.UpToNames (bond.ties.tie run.queue).steps also) (rest : List (Entry κ))
    (index : UInt32) (dropped : Nat) :
    UpToNames bond (deliver first world run delivery rest index dropped)
      (deliver second other { run with id } also (rest.map (Entry.recode bond.recode)) index
        dropped) := by
  induction rest generalizing index dropped with
  | nil => exact deliveredUpToNames behaviours worlds tied deliveries dropped
  | cons entry rest ih =>
    have same : also.error = delivery.error := by cases deliveries <;> rfl
    have observes : (entry.recode bond.recode).isObserver = entry.isObserver := rfl
    simp only [List.map_cons, deliver, observes]
    split
    · rw [same]
      exact ⟨worlds.recordSame (.notified run.queue entry (entry.label index) delivery.error) rfl
          tied.shared,
        .enter _ _ <| .intro _ _ _ _ _
          (.delivering run id delivery also _ rest _ dropped tied deliveries)
          (behaviours.watch _ tied.shared _)⟩
    · exact ih _ _

theorem withdrawUpToNames (run : Run) (behaviours : first.UpToNames bond second)
    (worlds : world.UpToNames bond other) (tied : run.Tied bond id) {delivery also : Delivery}
    (deliveries : delivery.UpToNames (bond.ties.tie run.queue).steps also) (index : UInt32) :
    UpToNames bond (withdraw first world run delivery index)
      (withdraw second other { run with id } also index) := by
  simp only [withdraw, worlds.agenda tied.shared, Agenda.recodeRemaining]
  have taken := worlds.setAgenda tied.shared (world.agenda run.queue).takeRemaining.2
  exact deliverUpToNames behaviours (taken.recordSame (.withdrawn run.queue _) rfl tied.shared) tied
    deliveries _ _ _

theorem settleUpToNames (behaviours : first.UpToNames bond second)
    (worlds : world.UpToNames bond other)
    (tied : run.Tied bond id) {step also : Int}
    (steps : (bond.ties.tie run.queue).steps step also) (info : StepInfo)
    (result : Except RunError ν) :
    UpToNames bond (settle first world run step info result)
      (settle second other { run with id } also info result) := by
  have spliced : (other.agenda run.queue).found.size = (world.agenda run.queue).found.size := by
    rw [worlds.agenda tied.shared]
    rfl
  have settled := (worlds.settle tied.shared).recordSame
    (.settled run.queue info (world.agenda run.queue).found.size result) rfl tied.shared
  have on : Run.Tied bond { run with index := run.index + 1 } id := ⟨tied.shared, tied.ids⟩
  simp only [settle, spliced]
  cases result with
  | ok value =>
    exact completeStepUpToNames { run with index := run.index + 1 } behaviours settled on steps
      _ _ _
  | error error =>
    exact withdrawUpToNames { run with index := run.index + 1 } behaviours settled on
      (.failed error step also info steps) _

theorem refuseUpToNames (behaviours : first.UpToNames bond second)
    (worlds : world.UpToNames bond other)
    (tied : run.Tied bond id) (info : StepInfo) (error : RunError) :
    UpToNames bond (refuse first world run info error)
      (refuse second other { run with id } info error) :=
  have told :=
    (worlds.settle tied.shared).recordSame (.refused run.queue info error) rfl tied.shared
  withdrawUpToNames run behaviours told tied (.refused error) _

theorem stepCompletedUpToNames (behaviours : first.UpToNames bond second)
    (worlds : world.UpToNames bond other)
    (tied : run.Tied bond id) (verdict : Verdict ν) :
    UpToNames bond (stepCompleted first world run verdict)
      (stepCompleted second other { run with id } verdict) := by
  cases verdict with
  | completed value => exact proceedUpToNames behaviours worlds tied value
  | failed error dropped => exact completeRunUpToNames behaviours worlds tied _

theorem runCompletedUpToNames (worlds : world.UpToNames bond other) (tied : run.Tied bond id)
    (verdict : Verdict ν) :
    UpToNames bond (runCompleted world run verdict)
      (runCompleted other { run with id } verdict) := by
  refine ⟨?_, .ended _ _ (.returned _)⟩
  cases verdict with
  | completed value =>
    exact worlds.recordSame (.completed run.queue run.index value) rfl tied.shared
  | failed error dropped =>
    exact worlds.recordSame (.failed run.queue error dropped) rfl tied.shared

theorem stepHeard (behaviour : Behaviour κ ν ε) (world : World κ ν ε) (run : Run) (info : StepInfo)
    (verdict : Verdict ν) {ending : Ending Unit} (well : ending.Heard) :
    conclude behaviour world (.completingStep run info verdict) ending =
      stepCompleted behaviour
        (world.noting (ending.complaint?.map (.stepUnrecorded run.queue info))) run verdict := by
  cases ending with
  | returned | failed => rfl
  | panicked => cases well

theorem runHeard (behaviour : Behaviour κ ν ε) (world : World κ ν ε) (run : Run)
    (verdict : Verdict ν) {ending : Ending Unit} (well : ending.Heard) :
    conclude behaviour world (.completingRun run verdict) ending =
      runCompleted (world.noting (ending.complaint?.map (.runUnrecorded run.queue))) run
        verdict := by
  cases ending with
  | returned | failed => rfl
  | panicked => cases well

theorem completingStepUpToNames (behaviours : first.UpToNames bond second)
    (worlds : world.UpToNames bond other)
    (tied : run.Tied bond id) (info : StepInfo) (verdict : Verdict ν) {early late : Ending Unit}
    (meet : early.Heeded (bond.ties.loose run.queue) late) :
    UpToNames bond (conclude first world (.completingStep run info verdict) early)
      (conclude second other (.completingStep { run with id } info verdict) late) := by
  cases meet with
  | same =>
    cases early with
    | returned _ => exact stepCompletedUpToNames behaviours worlds tied verdict
    | failed failure =>
      exact stepCompletedUpToNames behaviours
        (worlds.recordSame (.stepUnrecorded run.queue info failure) rfl tied.shared) tied verdict
    | panicked payload => exact ⟨worlds, .ended _ _ (.unwound payload)⟩
  | either _ loose well also =>
    rw [stepHeard _ _ _ _ _ well, stepHeard _ _ _ _ _ also]
    refine stepCompletedUpToNames behaviours (worlds.noting ?_ ?_ ?_) tied verdict
    all_goals
      intro event complained
      obtain ⟨failure, -, rfl⟩ := Option.map_eq_some_iff.mp complained
    · exact .stepUnrecorded _ info failure loose
    · exact fun _ mine => Option.some.inj mine ▸ tied.shared
    · exact .stepUnrecorded _ info failure loose

theorem completingRunUpToNames (worlds : world.UpToNames bond other) (tied : run.Tied bond id)
    (verdict : Verdict ν) {early late : Ending Unit}
    (meet : early.Heeded (bond.ties.loose run.queue) late) :
    UpToNames bond (conclude first world (.completingRun run verdict) early)
      (conclude second other (.completingRun { run with id } verdict) late) := by
  cases meet with
  | same =>
    cases early with
    | returned _ => exact runCompletedUpToNames worlds tied verdict
    | failed failure =>
      exact runCompletedUpToNames
        (worlds.recordSame (.runUnrecorded run.queue failure) rfl tied.shared)
        tied verdict
    | panicked payload => exact ⟨worlds, .ended _ _ (.unwound payload)⟩
  | either _ loose well also =>
    rw [runHeard _ _ _ _ well, runHeard _ _ _ _ also]
    refine runCompletedUpToNames (worlds.noting ?_ ?_ ?_) tied verdict
    all_goals
      intro event complained
      obtain ⟨failure, -, rfl⟩ := Option.map_eq_some_iff.mp complained
    · exact .runUnrecorded _ failure loose
    · exact fun _ mine => Option.some.inj mine ▸ tied.shared
    · exact .runUnrecorded _ failure loose

theorem concludeUpToNames (behaviours : first.UpToNames bond second)
    (worlds : world.UpToNames bond other)
    {stage : Stage κ ν} {mate : Stage κ' ν}
    {meets : Ending (stage.Answer ε) → Ending (mate.Answer ε) → Prop}
    (stages : Stage.UpToNames bond stage mate meets) {early : Ending (stage.Answer ε)}
    {late : Ending (mate.Answer ε)} (meet : meets early late) :
    UpToNames bond (conclude first world stage early) (conclude second other mate late) := by
  cases stages with
  | outside =>
    cases meet
    cases early with
    | panicked payload => exact ⟨worlds, .ended _ _ (.unwound payload)⟩
    | returned _ | failed _ => exact ⟨worlds, .left⟩
  | startingRun queue value own =>
    cases meet with
    | returned id also ids =>
      have queued : (other.agenda queue).len = (world.agenda queue).len := by
        rw [worlds.agenda own]
        rfl
      dsimp only [conclude]
      rw [queued]
      exact proceedUpToNames behaviours (worlds.record (.started queue id also _ own ids))
        ⟨own, ids⟩
        value
    | failed failure => exact ⟨worlds, .ended _ _ (.returned _)⟩
    | panicked payload => exact ⟨worlds, .ended _ _ (.unwound payload)⟩
  | startingStep run id value entry info tied =>
    cases meet with
    | returned step also steps => exact applyUpToNames behaviours worlds tied steps value entry info
    | failed failure => exact refuseUpToNames behaviours worlds tied info _
    | panicked payload => exact ⟨worlds, .ended _ _ (.unwound payload)⟩
  | applying run id step also info tied steps =>
    cases meet
    exact settleUpToNames behaviours worlds tied steps info _
  | awaiting run id step also info tied steps =>
    cases meet
    exact settleUpToNames behaviours worlds tied steps info _
  | calling run id step also info tied steps =>
    cases meet with
    | returned program mate alike =>
      exact ⟨worlds, .enter _ _ <| .intro _ _ _ _ _
        (.awaiting run id step also info tied steps) alike⟩
    | failed failure =>
      exact settleUpToNames behaviours worlds tied steps info (.error (.stepFailed _ failure))
    | panicked payload =>
      exact settleUpToNames behaviours worlds tied steps info
        (.error (.stepPanicked _ payload.message))
  | observing run id step also info value tied steps =>
    cases meet
    cases early with
    | panicked payload =>
      exact settleUpToNames behaviours
        (worlds.recordFree (.observerPanicked _ payload) rfl) tied steps
        info (.ok value)
    | returned _ | failed _ => exact settleUpToNames behaviours worlds tied steps info (.ok value)
  | delivering run id delivery also label rest index dropped tied deliveries =>
    cases meet
    cases early with
    | panicked payload =>
      exact deliverUpToNames behaviours (worlds.recordFree (.observerPanicked _ payload) rfl) tied
        deliveries _ _ _
    | returned _ | failed _ => exact deliverUpToNames behaviours worlds tied deliveries _ _ _
  | completingStep run id info verdict tied =>
    exact completingStepUpToNames behaviours worlds tied info verdict meet
  | completingRun run id verdict tied =>
    exact completingRunUpToNames worlds tied verdict meet

end Scheduler

variable (bond) in
inductive Stack (base : List (Caller κ ν ε) → List (Caller κ' ν ε) → Prop) :
    List (Caller κ ν ε) → List (Caller κ' ν ε) → Prop where
  | base (callers mates) (based : base callers mates) : Stack base callers mates
  | cons (caller mate callers mates) (alike : caller.UpToNames bond mate)
      (stack : Stack base callers mates) : Stack base (caller :: callers) (mate :: mates)

variable {base : List (Caller κ ν ε) → List (Caller κ' ν ε) → Prop}

variable (bond base) in
structure Machine.UpToNames (first : Machine κ ν ε) (second : Machine κ' ν ε) : Prop where
  worlds : first.world.UpToNames bond second.world
  frames : first.frame.UpToNames bond second.frame
  stacked : Stack bond base first.callers second.callers

variable (bond base) in
inductive Progress.Match : Progress κ ν ε → Progress κ' ν ε → Prop where
  | going (first second machine other) (early : first.machine? = some machine)
      (late : second.machine? = some other) (machines : machine.UpToNames bond base other) :
      Match first second
  | based (world other turn mate callers mates) (worlds : world.UpToNames bond other)
      (ended : turn.Over mate) (based : base callers mates) :
      Match (Machine.resume callers (world, turn)) (Machine.resume mates (other, mate))
  | left (world other) (worlds : world.UpToNames bond other) :
      Match (.ended world .left) (.ended other .left)

theorem Machine.resumeUpToNames {callers : List (Caller κ ν ε)} {mates : List (Caller κ' ν ε)}
    (stacked : Stack bond base callers mates) {first : World κ ν ε × Turn κ ν ε}
    {second : World κ' ν ε × Turn κ' ν ε} (alike : Scheduler.UpToNames bond first second) :
    (Machine.resume callers first).Match bond base (Machine.resume mates second) := by
  obtain ⟨world, turn⟩ := first
  obtain ⟨other, also⟩ := second
  obtain ⟨worlds, turns⟩ := alike
  cases turns with
  | enter frame mate frames => exact .going _ _ _ _ rfl rfl ⟨worlds, frames, stacked⟩
  | left => exact .left world other worlds
  | ended _ _ ended =>
    cases stacked with
    | base _ _ based => exact .based world other _ _ _ _ worlds ended based
    | cons caller mate callers mates alike stacked =>
      obtain ⟨stage, mate, resume, also, meets, stages, codes⟩ := alike
      cases ended with
      | returned result =>
        exact .going _ _ _ _ rfl rfl ⟨worlds, .intro _ _ _ _ _ stages (codes _), stacked⟩
      | unwound payload =>
        exact .going _ _ _ _ rfl rfl ⟨worlds, .intro _ _ _ _ _ stages
          (.ended (.panicked payload) (.panicked payload) (stages.panicked payload)), stacked⟩

theorem Machine.startUpToNames {first : Behaviour κ ν ε} {second : Behaviour κ' ν ε}
    (behaviours : first.UpToNames bond second) {world : World κ ν ε} {other : World κ' ν ε}
    (worlds : world.UpToNames bond other) {callers : List (Caller κ ν ε)}
    {mates : List (Caller κ' ν ε)}
    (stacked : Stack bond base callers mates) {queue : QueueId} (own : bond.apart queue = none)
    (initial : Option ν) :
    (Machine.start first world callers queue initial).UpToNames bond base
      (Machine.start second other mates queue initial) := by
  rw [Machine.start, Machine.start, behaviours.neutral]
  obtain ⟨worlds, frames⟩ :=
    Scheduler.startRunUpToNames behaviours worlds own (initial.getD second.neutral)
  exact ⟨worlds, frames, stacked⟩

/- One step of the first machine is matched by the second one, which may first have to catch up
with idle steps, or may have to wait. The induction is on how the code in front idles. -/
theorem Machine.lockstep {first : Behaviour κ ν ε} {second : Behaviour κ' ν ε}
    (behaviours : first.UpToNames bond second) {stage : Stage κ ν} {mate : Stage κ' ν}
    {meets : Ending (stage.Answer ε) → Ending (mate.Answer ε) → Prop}
    (stages : Stage.UpToNames bond stage mate meets) {code : Program κ ν ε (stage.Answer ε)}
    {also : Program κ' ν ε (mate.Answer ε)}
    (codes : code.UpToIdling bond.heard bond.recode meets also)
    (calm : ∀ queue, code.touched? = some queue → bond.apart queue = none)
    {callers : List (Caller κ ν ε)} {mates : List (Caller κ' ν ε)}
    (stacked : Stack bond base callers mates) {world : World κ ν ε} {other : World κ' ν ε}
    (worlds : world.UpToNames bond other) {progress : Progress κ' ν ε}
    (here : progress.machine? = some ⟨other, ⟨mate, also⟩, mates⟩) :
    ∃ last, Progress.Goes second progress last ∧
      ((Machine.mk world ⟨stage, code⟩ callers).advance first).Match bond base last := by
  induction codes generalizing other progress with
  | ended early late meet =>
    refine ⟨_, .single (.advance _ _ here), ?_⟩
    rw [Machine.advanceEnding, Machine.advanceEnding]
    exact Machine.resumeUpToNames stacked
      (Scheduler.concludeUpToNames behaviours worlds stages meet)
  | append queue step code also codes =>
    exact ⟨_, .single (.advance _ _ here), .going _ _ _ _ rfl rfl
      ⟨worlds.append (calm queue rfl) step, .intro _ _ _ _ _ stages codes, stacked⟩⟩
  | ask queue code also codes =>
    refine ⟨_, .single (.advance _ _ here), .going _ _ _ _ rfl rfl
      ⟨worlds, .intro _ _ _ _ _ stages ?_, stacked⟩⟩
    rw [worlds.shared (calm queue rfl)]
    exact codes _
  | look queue code also codes =>
    refine ⟨_, .single (.advance _ _ here), .going _ _ _ _ rfl rfl
      ⟨worlds, .intro _ _ _ _ _ stages ?_, stacked⟩⟩
    rw [worlds.shared (calm queue rfl), Queue.recodeSnapshot]
    exact codes _
  | note remark code also codes =>
    exact ⟨_, .single (.advance _ _ here), .going _ _ _ _ rfl rfl
      ⟨worlds.recordFree (.noted remark) rfl, .intro _ _ _ _ _ stages codes, stacked⟩⟩
  | discard queue code also codes =>
    refine ⟨_, .single (.advance _ _ here), ?_⟩
    dsimp only [Machine.advance]
    rw [worlds.taken]
    split
    · exact .going _ _ _ _ rfl rfl ⟨worlds, .intro _ _ _ _ _ stages (codes _), stacked⟩
    · next untaken =>
      exact .going _ _ _ _ rfl rfl
        ⟨worlds.take (worlds.sharedUntaken untaken), .intro _ _ _ _ _ stages (codes _), stacked⟩
  | run queue initial code also codes =>
    refine ⟨_, .single (.advance _ _ here), ?_⟩
    dsimp only [Machine.advance]
    rw [worlds.taken]
    split
    · exact .going _ _ _ _ rfl rfl ⟨worlds, .intro _ _ _ _ _ stages (codes _), stacked⟩
    · next untaken =>
      have own := worlds.sharedUntaken untaken
      exact .going _ _ _ _ rfl rfl (Machine.startUpToNames behaviours (worlds.take own)
        (.cons _ _ _ _ (.intro _ _ _ _ _ stages codes) stacked) own initial)
  | left code rest also idles codes =>
    obtain ⟨next, unmoved, going⟩ := idles.advance first world callers
    exact ⟨progress, .refl, .going _ _ _ _ going here
      ⟨worlds.unmoved unmoved, .intro _ _ _ _ _ stages (codes _), stacked⟩⟩
  | right code also rest idles codes ih =>
    obtain ⟨next, unmoved, going⟩ := idles.advance second other mates
    obtain ⟨last, path, paired⟩ := ih other calm (worlds.unmovedAlso unmoved) going
    exact ⟨last, .head (.advance _ _ here) path, paired⟩

end Sequencer

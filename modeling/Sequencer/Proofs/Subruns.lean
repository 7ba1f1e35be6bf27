import Sequencer.Proofs.Cancellation

/-! Runs that code makes of other queues. A run on top of callers goes as it would go alone, and
hands its result or its panic down to the caller. To any other queue it does what those do who
append. A recorder that panics breaks its own run off and fails the step whose code made the run. -/
namespace Sequencer
open Standing

def Outcome.turn : Outcome ν → Turn κ ν ε
  | .returned result => .returned result
  | .panicked payload => .unwound payload
  | .left => .left

namespace Machine

variable {behaviour : Behaviour κ ν ε}

def atop (machine : Machine κ ν ε) (callers : List (Caller κ ν ε)) : Machine κ ν ε :=
  { machine with callers := machine.callers ++ callers }

theorem resumeAtop {own callers : List (Caller κ ν ε)} {after : World κ ν ε × Turn κ ν ε}
    {next : Machine κ ν ε} (going : (resume own after).machine? = some next) :
    (resume (own ++ callers) after).machine? = some (next.atop callers) := by
  obtain ⟨world, turn⟩ := after
  cases turn with
  | enter frame => cases going; rfl
  | left => cases going
  | returned result | unwound payload =>
    cases own with
    | nil => cases going
    | cons caller rest => cases going; rfl

theorem resumeEndedAtop {own callers : List (Caller κ ν ε)} {after : World κ ν ε × Turn κ ν ε}
    {world : World κ ν ε} {outcome : Outcome ν} (ended : resume own after = .ended world outcome) :
    resume (own ++ callers) after = resume callers (world, outcome.turn) := by
  obtain ⟨left, turn⟩ := after
  cases turn with
  | enter frame => cases ended
  | left => cases ended; rfl
  | returned result | unwound payload =>
    cases own with
    | nil => cases ended; rfl
    | cons caller rest => cases ended

theorem advanceAtop (callers : List (Caller κ ν ε)) {machine next : Machine κ ν ε}
    (going : (machine.advance behaviour).machine? = some next) :
    ((machine.atop callers).advance behaviour).machine? = some (next.atop callers) := by
  obtain ⟨world, ⟨stage, code⟩, own⟩ := machine
  cases code with
  | done answer | fail failure | panic payload => exact resumeAtop going
  | append queue step next | ask queue next | look queue next | note remark next =>
    cases going
    rfl
  | suspend next =>
    rw [advanceSuspend] at going
    cases going
    exact advanceSuspend behaviour world (own ++ callers) next
  | discard queue next =>
    dsimp only [advance, atop] at going ⊢
    split at going <;> cases going
    · next taken => rw [if_pos taken]; rfl
    · next untaken => rw [if_neg untaken]; rfl
  | run queue initial next =>
    dsimp only [advance, atop] at going ⊢
    split at going <;> cases going
    · next taken => rw [if_pos taken]; rfl
    · next untaken => rw [if_neg untaken]; rfl

theorem endedAtop (callers : List (Caller κ ν ε)) {machine : Machine κ ν ε} {world : World κ ν ε}
    {outcome : Outcome ν} (ended : machine.advance behaviour = .ended world outcome) :
    (machine.atop callers).advance behaviour = resume callers (world, outcome.turn) := by
  obtain ⟨here, ⟨stage, code⟩, own⟩ := machine
  cases code with
  | done answer | fail failure | panic payload => exact resumeEndedAtop ended
  | append queue step next | ask queue next | look queue next | note remark next => cases ended
  | suspend next | discard queue next | run queue initial next =>
    dsimp only [advance] at ended
    split at ended <;> cases ended

theorem Passes.atop {machine : Machine κ ν ε} {passed : List (Machine κ ν ε)} {world : World κ ν ε}
    {outcome : Outcome ν} (passes : machine.Passes behaviour passed world outcome)
    (callers : List (Caller κ ν ε)) {progress : Progress κ ν ε}
    (here : progress.machine? = some (machine.atop callers)) :
    Progress.Goes behaviour progress (resume callers (world, outcome.turn)) := by
  induction passes generalizing progress with
  | last machine world outcome ended =>
    exact endedAtop callers ended ▸ .single (.advance progress _ here)
  | step machine next passed world outcome going _ ih =>
    exact .head (.advance progress _ here) (ih (advanceAtop callers going))

theorem runsAtop {world left : World κ ν ε} {queue : QueueId} {initial : Option ν}
    {outcome : Outcome ν}
    (runs : (start behaviour world [] queue initial).Runs behaviour (.ended left outcome))
    (callers : List (Caller κ ν ε)) :
    (start behaviour world callers queue initial).Runs behaviour
      (resume callers (left, outcome.turn)) := by
  obtain ⟨passed, passes⟩ := runsPasses runs rfl
  exact passes.atop callers rfl

theorem runGrows {world : World κ ν ε} {other queue : QueueId} (apart : other ≠ queue)
    {initial : Option ν} {progress : Progress κ ν ε}
    (runs : (start behaviour (world.take other) [] other initial).Runs behaviour progress)
    (untouched : (progress.world.queue queue).taken = (world.queue queue).taken) :
    world.Grows queue progress.world := by
  have path : Ensemble.Reaches behaviour _ _ := Progress.goesReaches runs
  let begun : Ensemble κ ν ε :=
    ⟨(start behaviour (world.take other) [] other initial).world,
      [(start behaviour (world.take other) [] other initial).task]⟩
  have own : ownStages queue begun.stages = [] := by
    simp [begun, ownStages, Ensemble.stages, Task.stages, Machine.task, start, Scheduler.startRun,
      Stage.queue?, apart]
  have taken : (begun.world.queue queue).taken = (world.queue queue).taken :=
    (World.queueAfterTake world other queue).2.trans (by simp [Ne.symm apart])
  have agenda : begun.world.agenda queue = world.agenda queue :=
    World.agendaAfterTake world other queue
  have log : begun.world.log queue = world.log queue := by
    refine (World.logAfterRecord _ _ queue).trans (if_neg ?_)
    simpa [Event.queue?] using apart
  have grown : begun.world.Grows queue progress.world := by
    cases was : (world.queue queue).taken with
    | true =>
      have here : begun.At queue (.finished none) := ⟨own, taken.trans was⟩
      exact (Ensemble.overStays path here rfl).2.1
    | false =>
      have here : begun.At queue .free := ⟨own, taken.trans was⟩
      exact Ensemble.untakenGrows path here (untouched.trans was)
  unfold World.Grows at grown ⊢
  rwa [agenda, log] at grown

end Machine

def Stage.body? : Stage κ ν → Option (Run × Int × StepInfo)
  | .applying run step info | .calling run step info | .awaiting run step info =>
    some (run, step, info)
  | _ => none

theorem Scheduler.bodyPanics (behaviour : Behaviour κ ν ε) (world : World κ ν ε)
    {stage : Stage κ ν} {run : Run} {step : Int} {info : StepInfo}
    (body : stage.body? = some (run, step, info)) (payload : Payload) :
    conclude behaviour world stage (.panicked payload) =
      settle behaviour world run step info
        (.error (.stepPanicked info.label payload.message)) := by
  cases stage <;> cases body <;> rfl

/- The failure of a step is the first thing its queue learns, and no other queue learns of it. -/
theorem Scheduler.settleFails (behaviour : Behaviour κ ν ε) (world : World κ ν ε) (run : Run)
    (step : Int) (info : StepInfo) (error : RunError) :
    let left := (settle behaviour world run step info (.error error)).1
    world.Apart run.queue left ∧
    world.log run.queue ++ [.settled run.queue info (world.agenda run.queue).found.size
      (.error error), .withdrawn run.queue (world.agenda run.queue).pending] <+:
        left.log run.queue := by
  obtain ⟨next, apart, -, log, leads⟩ :=
    settleDelivers behaviour world run step info error
  exact ⟨apart.trans leads.apart, log ▸ followsGrow leads.path⟩

def Point.Bound (error : RunError) : Point κ ν → Prop
  | .delivering _ delivery _ _ _ | .inside (.delivering _ delivery _ _ _ _) =>
    delivery.error = error
  | .inside (.completingStep _ _ verdict) | .inside (.completingRun _ verdict) =>
    ∃ dropped, verdict = .failed error dropped
  | .finished (some result) => result = .error error
  | .finished none => True
  | _ => False

namespace Standing

variable {queue : QueueId} {name : String}

def Doomed (queue : QueueId) (a : Standing κ ν ε) : Prop :=
  ∀ info spliced error, .settled queue info spliced (.error error) ∈ a.log → a.point.Bound error

theorem Doomed.unsettled {agenda next : Agenda κ} {log : Log κ ν ε} {point after : Point κ ν}
    (doomed : Doomed queue ⟨agenda, log, point⟩) (events : Log κ ν ε)
    (none : ∀ info spliced error, .settled queue info spliced (.error error) ∉ events)
    (further : ∀ error, point.Bound error → after.Bound error) :
    Doomed queue ⟨next, log ++ events, after⟩ := by
  intro info spliced error present
  refine further error (doomed info spliced error ?_)
  exact (List.mem_append.mp present).resolve_right (none info spliced error)

theorem unboundSettles {stage : Stage κ ν} {ending : Ending (stage.Answer ε)} {run : Run}
    {step : Int} {info : StepInfo} {result : Except RunError ν}
    (settles : Settles stage ending run step info result) (error : RunError) :
    ¬ (Point.inside stage).Bound error := by
  cases settles <;> exact id

variable (queue name) in
theorem keptDoomed : Kept queue name (Doomed (κ := κ) (ν := ν) (ε := ε) queue) where
  start := nofun
  given act doomed := by
    cases act with
    | append agenda log point step => exact doomed.unsettled _ (by simp) fun _ => id
    | begin agenda log value => exact doomed.unsettled _ (by simp) fun _ => False.elim
    | discard agenda log | leave agenda log stage => exact fun _ _ _ _ => trivial
  reply act doomed := by
    cases act with
    | accept agenda log value id => exact doomed.unsettled _ (by simp) fun _ => False.elim
    | apply agenda log run value entry info step =>
      exact doomed.unsettled _ (by simp) fun _ => False.elim
    | refuse agenda log run value entry info failure =>
      exact doomed.unsettled _ (by simp) fun _ => False.elim
    | reject agenda log value failure =>
      exact fun info spliced error present => (doomed info spliced error present).elim
    | call agenda log run step info program =>
      exact fun info spliced error present => (doomed info spliced error present).elim
    | settle agenda log stage ending run step info value settles =>
      exact doomed.unsettled _ (by simp) fun error bound =>
        (unboundSettles settles error bound).elim
    | fail agenda log stage ending run step info error settles =>
      intro other spliced thrown present
      rcases List.mem_append.mp present with old | new
      · exact (unboundSettles settles thrown (doomed other spliced thrown old)).elim
      · have same : error = thrown := by simp_all
        exact same
    | told agenda log run delivery label rest index dropped ending => exact doomed
    | goOn agenda log run info value ending heard =>
      exact doomed.unsettled _ (by simp) fun error ⟨_, bound⟩ => nomatch bound
    | giveUp agenda log run info error dropped ending heard =>
      unfold Doomed
      rw [List.append_assoc]
      exact doomed.unsettled _ (by simp) fun _ => id
    | finish agenda log run verdict ending heard =>
      unfold Doomed
      rw [List.append_assoc]
      refine doomed.unsettled _ (by cases verdict <;> simp [Verdict.event]) ?_
      rintro error ⟨dropped, rfl⟩
      rfl
  follow act doomed := by
    cases act with
    | drained agenda log run value ended =>
      exact doomed.unsettled _ (by simp) fun _ => False.elim
    | activate agenda log run value entry next taken =>
      exact doomed.unsettled _ (by simp) fun _ => False.elim
    | pass agenda log run delivery entry rest index dropped other => exact doomed
    | notify agenda log run delivery entry rest index dropped observer =>
      exact doomed.unsettled _ (by simp) fun _ => id
    | deliveredStep agenda log run error step info index dropped =>
      exact doomed.unsettled _ (by simp) fun thrown same => ⟨dropped, by rw [← same]⟩
    | deliveredStart agenda log run error index dropped =>
      exact doomed.unsettled _ (by simp) fun thrown same => ⟨dropped + 1, by rw [← same]⟩

end Standing

end Sequencer

import Sequencer.Machine
import Sequencer.Proofs.Log

/-! What the library does does not depend on what code does. Between two pieces of code it changes
the world in one way, whatever the behaviour, and calls the code of one summons, or none; what the
summons calls is all that the behaviour decides. Each summons adds to the history, and nothing is
ever taken from it. So behaviours are compared, and made of one another, call by call. -/
namespace Sequencer

variable {κ ν ε : Type}

namespace Recorder

def recast (code : ∀ {β : Type}, Program κ ν ε β → Program κ ν ε β) (recorder : Recorder κ ν ε) :
    Recorder κ ν ε where
  startRun name := code (recorder.startRun name)
  startStep run info := code (recorder.startStep run info)
  completeStep info step status := code (recorder.completeStep info step status)
  completeRun run status := code (recorder.completeRun run status)

structure Related (code : ∀ {β : Type}, Program κ ν ε β → Program κ ν ε β → Prop)
    (first second : Recorder κ ν ε) : Prop where
  startRun : ∀ name, code (first.startRun name) (second.startRun name)
  startStep : ∀ run info, code (first.startStep run info) (second.startStep run info)
  completeStep : ∀ info step status,
    code (first.completeStep info step status) (second.completeStep info step status)
  completeRun : ∀ run status, code (first.completeRun run status) (second.completeRun run status)

end Recorder

namespace Behaviour

def recast (code : ∀ {β : Type}, Program κ ν ε β → Program κ ν ε β)
    (call : Program κ ν ε (Program κ ν ε ν) → Program κ ν ε (Program κ ν ε ν))
    (behaviour : Behaviour κ ν ε) : Behaviour κ ν ε where
  neutral := behaviour.neutral
  body step queue value := code (behaviour.body step queue value)
  call step queue value := call (behaviour.call step queue value)
  watch step queue result := code (behaviour.watch step queue result)
  recorder queue := (behaviour.recorder queue).recast code

structure Related (code : ∀ {β : Type}, Program κ ν ε β → Program κ ν ε β → Prop)
    (call : Program κ ν ε (Program κ ν ε ν) → Program κ ν ε (Program κ ν ε ν) → Prop)
    (first second : Behaviour κ ν ε) : Prop where
  neutral : first.neutral = second.neutral
  body : ∀ step queue value, code (first.body step queue value) (second.body step queue value)
  call : ∀ step queue value, call (first.call step queue value) (second.call step queue value)
  watch : ∀ step queue result, code (first.watch step queue result) (second.watch step queue result)
  recorder : ∀ queue, (first.recorder queue).Related code (second.recorder queue)

theorem relatedRecast {related : ∀ {β : Type}, Program κ ν ε β → Program κ ν ε β → Prop}
    {code : ∀ {β : Type}, Program κ ν ε β → Program κ ν ε β}
    {gives : Program κ ν ε (Program κ ν ε ν) → Program κ ν ε (Program κ ν ε ν) → Prop}
    {call : Program κ ν ε (Program κ ν ε ν) → Program κ ν ε (Program κ ν ε ν)}
    (each : ∀ {β : Type} (program : Program κ ν ε β), related program (code program))
    (given : ∀ program, gives program (call program)) (behaviour : Behaviour κ ν ε) :
    behaviour.Related related gives (behaviour.recast code call) where
  neutral := rfl
  body _ _ _ := each _
  call _ _ _ := given _
  watch _ _ _ := each _
  recorder _ := ⟨fun _ => each _, fun _ _ => each _, fun _ _ _ => each _, fun _ _ => each _⟩

end Behaviour

inductive Summons (κ ν : Type) where
  | startRun (queue : QueueId) (value : ν) (name : String)
  | startStep (run : Run) (value : ν) (entry : Entry κ) (info : StepInfo)
  | body (run : Run) (step : Int) (value : ν) (entry : Entry κ) (info : StepInfo)
      (kind : entry.kind = .value)
  | call (run : Run) (step : Int) (value : ν) (entry : Entry κ) (info : StepInfo)
      (kind : entry.kind = .async)
  | watch (run : Run) (step : Int) (value : ν) (entry : Entry κ) (info : StepInfo)
      (kind : entry.kind = .observer)
  | notify (run : Run) (delivery : Delivery) (label : String) (entry : Entry κ)
      (rest : List (Entry κ)) (index : UInt32) (dropped : Nat) (observer : entry.isObserver = true)
  | completeStep (run : Run) (step : Int) (info : StepInfo) (status : StepStatus)
      (verdict : Verdict ν)
  | completeRun (run : Run) (verdict : Verdict ν)

namespace Summons

def queue : Summons κ ν → QueueId
  | .startRun queue _ _ => queue
  | .startStep run _ _ _ | .body run _ _ _ _ _ | .call run _ _ _ _ _ | .watch run _ _ _ _ _
  | .notify run _ _ _ _ _ _ _ | .completeStep run _ _ _ _ | .completeRun run _ => run.queue

def invocation : Summons κ ν → Invocation κ ν
  | .startRun _ _ name => .recorder (.startRun name)
  | .startStep run _ _ info => .recorder (.startStep run.id info)
  | .body _ _ value entry _ _ | .call _ _ value entry _ _ | .watch _ _ value entry _ _ =>
    .step entry value
  | .notify _ delivery _ entry _ _ _ _ => .observer entry delivery.error
  | .completeStep _ step _ status _ => .recorder (.completeStep step status)
  | .completeRun run verdict => .recorder (.completeRun run.id (verdict.status run.index))

def frame (behaviour : Behaviour κ ν ε) : Summons κ ν → Frame κ ν ε
  | .startRun queue value name =>
    ⟨.startingRun queue value, (behaviour.recorder queue).startRun name⟩
  | .startStep run value entry info =>
    ⟨.startingStep run value entry info, (behaviour.recorder run.queue).startStep run.id info⟩
  | .body run step value entry info _ =>
    ⟨.applying run step info, behaviour.body entry.code run.queue value⟩
  | .call run step value entry info _ =>
    ⟨.calling run step info, behaviour.call entry.code run.queue value⟩
  | .watch run step value entry info _ =>
    ⟨.observing run step info value, behaviour.watch entry.code run.queue (.ok value)⟩
  | .notify run delivery label entry rest index dropped _ =>
    ⟨.delivering run delivery label rest index dropped,
      behaviour.watch entry.code run.queue (.error delivery.error)⟩
  | .completeStep run step info status verdict =>
    ⟨.completingStep run info verdict,
      (behaviour.recorder run.queue).completeStep info step status⟩
  | .completeRun run verdict =>
    ⟨.completingRun run verdict,
      (behaviour.recorder run.queue).completeRun run.id (verdict.status run.index)⟩

def invocations (queue : QueueId) (summons : Summons κ ν) : List (Invocation κ ν) :=
  if summons.queue = queue then [summons.invocation] else []

theorem home (behaviour : Behaviour κ ν ε) (summons : Summons κ ν) :
    (summons.frame behaviour).stage.queue? = some summons.queue := by
  cases summons <;> rfl

end Summons

/-- The frame in which the code of an invocation is called. -/
def Invocation.Enters (behaviour : Behaviour κ ν ε) (invocation : Invocation κ ν)
    (frame : Frame κ ν ε) : Prop :=
  ∃ summons : Summons κ ν, summons.invocation = invocation ∧ summons.frame behaviour = frame

def Stage.recorder : Stage κ ν → Bool
  | .startingRun _ _ | .startingStep _ _ _ _ | .completingStep _ _ _ | .completingRun _ _ => true
  | _ => false

/- The code of an async step gives a program, which goes on at once and is not called. -/
inductive Stage.HandsOver : (stage : Stage κ ν) → Ending (stage.Answer ε) → Prop where
  | program (run step info program) : HandsOver (.calling run step info) (.returned program)

inductive Upshot (κ ν : Type) where
  | summon (summons : Summons κ ν)
  | returned (result : Except RunError ν)
  | unwound (payload : Payload)
  | left

namespace Upshot

def calls : Upshot κ ν → Bool
  | .summon _ => true
  | _ => false

def turn (behaviour : Behaviour κ ν ε) : Upshot κ ν → Turn κ ν ε
  | .summon summons => .enter (summons.frame behaviour)
  | .returned result => .returned result
  | .unwound payload => .unwound payload
  | .left => .left

def invocations (queue : QueueId) : Upshot κ ν → List (Invocation κ ν)
  | .summon summons => summons.invocations queue
  | _ => []

end Upshot

structure World.Since (before after : World κ ν ε) : Prop where
  history : before.history <:+ after.history

structure World.Quiet (before after : World κ ν ε) : Prop where
  since : before.Since after
  silent : ∀ queue, (after.log queue).invocations = (before.log queue).invocations

namespace World

variable {world next last : World κ ν ε}

theorem sinceSame : world.Since world := ⟨List.suffix_rfl⟩

theorem Since.trans (first : world.Since next) (second : next.Since last) : world.Since last :=
  ⟨first.history.trans second.history⟩

theorem sinceRecord (event : Event κ ν ε) : world.Since (world.record event) :=
  ⟨List.suffix_cons event _⟩

theorem sinceSet (id : QueueId) (agenda : Agenda κ) : world.Since (world.setAgenda id agenda) :=
  ⟨List.suffix_rfl⟩

theorem Since.length (since : world.Since next) :
    world.history.length ≤ next.history.length :=
  since.history.length_le

theorem invocationsAfter (world : World κ ν ε) (event : Event κ ν ε) (queue : QueueId) :
    ((world.record event).log queue).invocations = (world.log queue).invocations ++
      if event.queue? = some queue then event.invocation?.toList else [] := by
  rw [logAfterRecord]
  split
  · rw [Log.invocations, List.filterMap_append]
    cases invoked : event.invocation? <;> simp [invoked]
  · exact (List.append_nil _).symm

theorem summoned (world : World κ ν ε) (event : Event κ ν ε) (summons : Summons κ ν)
    (own : event.queue? = some summons.queue) (told : event.invocation? = some summons.invocation)
    (queue : QueueId) : ((world.record event).log queue).invocations =
      (world.log queue).invocations ++ summons.invocations queue := by
  rw [invocationsAfter, own, told]
  simp [Summons.invocations]

theorem silentRecord (world : World κ ν ε) (queue : QueueId) {event : Event κ ν ε}
    (silent : event.invocation? = none) :
    ((world.record event).log queue).invocations = (world.log queue).invocations := by
  rw [invocationsAfter, silent]
  split <;> exact List.append_nil _

theorem quietSame : world.Quiet world := ⟨sinceSame, fun _ => rfl⟩

theorem Quiet.trans (first : world.Quiet next) (second : next.Quiet last) : world.Quiet last :=
  ⟨first.since.trans second.since, fun queue => (second.silent queue).trans (first.silent queue)⟩

theorem quietRecord (event : Event κ ν ε) (silent : event.invocation? = none) :
    world.Quiet (world.record event) :=
  ⟨sinceRecord event, fun queue => world.silentRecord queue silent⟩

theorem quietSet (id : QueueId) (agenda : Agenda κ) : world.Quiet (world.setAgenda id agenda) :=
  ⟨sinceSet id agenda, fun _ => rfl⟩

theorem quietTake (id : QueueId) : world.Quiet (world.take id) := ⟨⟨List.suffix_rfl⟩, fun _ => rfl⟩

end World

structure Scheduler.Leaves (world : World κ ν ε) (left : World κ ν ε) (upshot : Upshot κ ν)
    (does : Behaviour κ ν ε → World κ ν ε × Turn κ ν ε) : Prop where
  same : ∀ behaviour, does behaviour = (left, upshot.turn behaviour)
  since : world.Since left
  longer : upshot.calls = true → world.history.length < left.history.length
  invoked : ∀ queue,
    (left.log queue).invocations = (world.log queue).invocations ++ upshot.invocations queue

def Scheduler.Uniform (world : World κ ν ε) (does : Behaviour κ ν ε → World κ ν ε × Turn κ ν ε) :
    Prop :=
  ∃ left upshot, Leaves world left upshot does

namespace Scheduler

variable {does : Behaviour κ ν ε → World κ ν ε × Turn κ ν ε}

theorem Uniform.after {world next : World κ ν ε} (quiet : world.Quiet next)
    (uniform : Uniform next does) : Uniform world does := by
  obtain ⟨left, upshot, same, on, longer, invoked⟩ := uniform
  exact ⟨left, upshot, same, quiet.since.trans on,
    fun called => Nat.lt_of_le_of_lt quiet.since.length (longer called),
    fun queue => quiet.silent queue ▸ invoked queue⟩

theorem Uniform.since {world : World κ ν ε} (uniform : Uniform world does)
    (behaviour : Behaviour κ ν ε) : world.Since (does behaviour).1 := by
  obtain ⟨left, upshot, same, since, -⟩ := uniform
  rw [same behaviour]
  exact since

theorem Uniform.summoned {world : World κ ν ε} (uniform : Uniform world does)
    {behaviour : Behaviour κ ν ε} {frame : Frame κ ν ε}
    (entered : (does behaviour).2 = .enter frame) :
    ∃ summons : Summons κ ν, summons.frame behaviour = frame := by
  obtain ⟨left, upshot, same, -⟩ := uniform
  rw [same behaviour] at entered
  cases upshot with
  | summon summons => exact ⟨summons, Turn.enter.inj entered⟩
  | returned | unwound | left => cases entered

theorem uniformSummons (world : World κ ν ε) (event : Event κ ν ε) (summons : Summons κ ν)
    (own : event.queue? = some summons.queue) (told : event.invocation? = some summons.invocation)
    (same : ∀ behaviour, does behaviour = (world.record event, .enter (summons.frame behaviour))) :
    Uniform world does :=
  ⟨world.record event, .summon summons, same, World.sinceRecord event,
    fun _ => Nat.lt_succ_self _, world.summoned event summons own told⟩

theorem uniformStop (world : World κ ν ε) (upshot : Upshot κ ν)
    (silent : upshot.calls = false)
    (same : ∀ behaviour, does behaviour = (world, upshot.turn behaviour)) : Uniform world does := by
  refine ⟨world, upshot, same, World.sinceSame, fun called => absurd called (by simp [silent]),
    fun queue => ?_⟩
  cases upshot with
  | summon summons => cases silent
  | returned | unwound | left => exact (List.append_nil _).symm

variable (world : World κ ν ε) (run : Run)

theorem completeRunUniform (verdict : Verdict ν) :
    Uniform world fun behaviour => completeRun behaviour world run verdict :=
  uniformSummons world _ (.completeRun run verdict) rfl rfl fun _ => rfl

theorem completeStepUniform (step : Int) (info : StepInfo) (status : StepStatus)
    (verdict : Verdict ν) :
    Uniform world fun behaviour => completeStep behaviour world run step info status verdict :=
  uniformSummons world _ (.completeStep run step info status verdict) rfl rfl fun _ => rfl

theorem proceedUniform (value : ν) :
    Uniform world fun behaviour => proceed behaviour world run value := by
  unfold proceed
  split
  · exact completeRunUniform world run (.completed value)
  · next entry agenda _ =>
    refine .after (World.quietSet run.queue agenda) ?_
    refine .after (World.quietRecord (.activated run.queue entry (entry.info run.index)) rfl) ?_
    exact uniformSummons _ _ (.startStep run value entry (entry.info run.index)) rfl rfl
      fun _ => rfl

theorem applyUniform (step : Int) (value : ν) (entry : Entry κ) (info : StepInfo) :
    Uniform world fun behaviour => apply behaviour world run step value entry info := by
  have summoned (summons : Summons κ ν) (own : summons.queue = run.queue)
      (told : summons.invocation = .step entry value)
      (same : ∀ behaviour, apply behaviour world run step value entry info =
        (world.record (.applied run.queue step entry info value),
          .enter (summons.frame behaviour))) :
      Uniform world fun behaviour => apply behaviour world run step value entry info :=
    uniformSummons world (.applied run.queue step entry info value) summons
      (congrArg some own.symm) (congrArg some told.symm) same
  cases kind : entry.kind with
  | value =>
    refine summoned (.body run step value entry info kind) rfl rfl fun behaviour => ?_
    simp only [apply, Summons.frame, kind]
  | async =>
    refine summoned (.call run step value entry info kind) rfl rfl fun behaviour => ?_
    simp only [apply, Summons.frame, kind]
  | observer =>
    refine summoned (.watch run step value entry info kind) rfl rfl fun behaviour => ?_
    simp only [apply, Summons.frame, kind]

theorem deliverUniform (delivery : Delivery) (rest : List (Entry κ)) (index : UInt32)
    (dropped : Nat) :
    Uniform world fun behaviour => deliver behaviour world run delivery rest index dropped := by
  induction rest generalizing index dropped with
  | nil =>
    unfold deliver delivered
    refine .after (World.quietRecord (.dropped run.queue dropped) rfl) ?_
    obtain ⟨error, culprit⟩ := delivery
    cases culprit with
    | none => exact completeRunUniform _ run _
    | some culprit => exact completeStepUniform _ run _ _ _ _
  | cons entry rest ih =>
    unfold deliver
    split
    · next observer =>
      exact uniformSummons world _ (.notify run delivery (entry.label index) entry rest (index + 1)
        dropped observer) rfl rfl fun _ => rfl
    · exact ih (index + 1) (dropped + 1)

theorem withdrawUniform (delivery : Delivery) (index : UInt32) :
    Uniform world fun behaviour => withdraw behaviour world run delivery index :=
  .after (World.quietSet run.queue _) (.after (World.quietRecord _ rfl)
    (deliverUniform _ run delivery _ index 0))

theorem settleUniform (step : Int) (info : StepInfo) (result : Except RunError ν) :
    Uniform world fun behaviour => settle behaviour world run step info result := by
  refine .after (World.quietSet run.queue (world.agenda run.queue).settle) ?_
  refine .after (World.quietRecord
    (.settled run.queue info (world.agenda run.queue).found.size result) rfl) ?_
  cases result with
  | ok value => exact completeStepUniform _ { run with index := run.index + 1 } _ _ _ _
  | error error => exact withdrawUniform _ { run with index := run.index + 1 } _ _

theorem refuseUniform (info : StepInfo) (error : RunError) :
    Uniform world fun behaviour => refuse behaviour world run info error :=
  .after (World.quietSet run.queue _) (.after (World.quietRecord _ rfl) (withdrawUniform _ run _ _))

theorem stepCompletedUniform (verdict : Verdict ν) :
    Uniform world fun behaviour => stepCompleted behaviour world run verdict := by
  cases verdict with
  | completed value => exact proceedUniform world run value
  | failed error dropped => exact completeRunUniform world run _

theorem runCompletedUniform (verdict : Verdict ν) :
    Uniform world fun _ : Behaviour κ ν ε => runCompleted world run verdict := by
  cases verdict with
  | completed value =>
    exact .after (World.quietRecord (.completed run.queue run.index value) rfl)
      (uniformStop _ (.returned (.ok value)) rfl fun _ => rfl)
  | failed error dropped =>
    exact .after (World.quietRecord (.failed run.queue error dropped) rfl)
      (uniformStop _ (.returned (.error error)) rfl fun _ => rfl)

theorem concludeUniform (stage : Stage κ ν) (ending : Ending (stage.Answer ε))
    (settled : ¬stage.HandsOver ending) :
    Uniform world fun behaviour => conclude behaviour world stage ending := by
  cases stage with
  | outside =>
    cases ending with
    | panicked payload => exact uniformStop world (.unwound payload) rfl fun _ => rfl
    | _ => exact uniformStop world .left rfl fun _ => rfl
  | startingRun queue value =>
    cases ending with
    | returned id =>
      exact .after (World.quietRecord (.started queue id (world.agenda queue).len) rfl)
        (proceedUniform _ ⟨queue, id, 0⟩ value)
    | failed failure =>
      exact uniformStop world (.returned (.error (.recorder failure))) rfl fun _ => rfl
    | panicked payload => exact uniformStop world (.unwound payload) rfl fun _ => rfl
  | startingStep run value entry info =>
    cases ending with
    | returned step => exact applyUniform world run step value entry info
    | failed failure => exact refuseUniform world run info (.recorder failure)
    | panicked payload => exact uniformStop world (.unwound payload) rfl fun _ => rfl
  | applying run step info | awaiting run step info =>
    exact settleUniform world run step info (ending.result info.label)
  | calling run step info =>
    cases ending with
    | returned program => exact absurd (.program run step info program) settled
    | failed failure =>
      exact settleUniform world run step info (.error (.stepFailed info.label failure))
    | panicked payload =>
      exact settleUniform world run step info (.error (.stepPanicked info.label payload.message))
  | observing run step info value =>
    cases ending with
    | panicked payload =>
      exact .after (World.quietRecord (.observerPanicked info.label payload) rfl)
        (settleUniform _ run step info (.ok value))
    | _ => exact settleUniform world run step info (.ok value)
  | delivering run delivery label rest index dropped =>
    cases ending with
    | panicked payload =>
      exact .after (World.quietRecord (.observerPanicked label payload) rfl)
        (deliverUniform _ run delivery rest index dropped)
    | _ => exact deliverUniform world run delivery rest index dropped
  | completingStep run info verdict =>
    cases ending with
    | returned _ => exact stepCompletedUniform world run verdict
    | failed failure =>
      exact .after (World.quietRecord (.stepUnrecorded run.queue info failure) rfl)
        (stepCompletedUniform _ run verdict)
    | panicked payload => exact uniformStop world (.unwound payload) rfl fun _ => rfl
  | completingRun run verdict =>
    cases ending with
    | returned _ =>
      simp only [conclude]
      exact runCompletedUniform world run verdict
    | failed failure =>
      simp only [conclude]
      exact .after (World.quietRecord (.runUnrecorded run.queue failure) rfl)
        (runCompletedUniform _ run verdict)
    | panicked payload => exact uniformStop world (.unwound payload) rfl fun _ => rfl

theorem concludeSince (behaviour : Behaviour κ ν ε) (stage : Stage κ ν)
    (ending : Ending (stage.Answer ε)) :
    world.Since (conclude behaviour world stage ending).1 := by
  by_cases handsOver : stage.HandsOver ending
  · cases handsOver
    exact World.sinceSame
  · exact (concludeUniform world stage ending handsOver).since behaviour

end Scheduler

end Sequencer

import Sequencer.Proofs.Causes
import Sequencer.Proofs.Entered

/-! The value of a run goes through its steps. Each applied step is handed what the step applied
just before it has given, the first one the initial value; an observer gives what it was handed,
however it ends, and the value of a run that ends well is what its last step has given. -/
namespace Sequencer
open Standing

inductive Behaviour.Gives (behaviour : Behaviour κ ν ε) (queue : QueueId) (step : Step κ)
    (input : ν) : ν → Prop where
  | body (output) (kind : step.kind = .value)
      (returned : (behaviour.body step.code queue input).Comes (.done output)) :
      Gives behaviour queue step input output
  | future (program output) (kind : step.kind = .async)
      (gave : (behaviour.call step.code queue input).Comes (.done program))
      (returned : program.Comes (.done output)) : Gives behaviour queue step input output
  | observer (kind : step.kind = .observer) : Gives behaviour queue step input input

inductive Threads (gives : Step κ → ν → ν → Prop) : ν → List (Step κ × ν) → List ν → Prop where
  | none (value) : Threads gives value [] []
  | busy (value step) : Threads gives value [(step, value)] []
  | next (value step output steps outputs) (gave : gives step value output)
      (rest : Threads gives output steps outputs) :
      Threads gives value ((step, value) :: steps) (output :: outputs)

namespace Threads

variable {gives : Step κ → ν → ν → Prop} {value : ν} {steps : List (Step κ × ν)} {outputs : List ν}

theorem apply (threads : Threads gives value steps outputs)
    (idle : steps.length = outputs.length) (step : Step κ) :
    Threads gives value (steps ++ [(step, outputs.getLastD value)]) outputs := by
  induction threads with
  | none value => exact .busy value step
  | busy value first => cases idle
  | next value first output steps outputs gave rest ih =>
    refine .next value first output _ outputs gave ?_
    rw [List.getLastD_cons]
    exact ih (Nat.succ.inj idle)

theorem settle (threads : Threads gives value steps outputs)
    (busy : steps.length = outputs.length + 1) {step : Step κ} {input output : ν}
    (latest : steps.getLast? = some (step, input)) (gave : gives step input output) :
    Threads gives value steps (outputs ++ [output]) := by
  induction threads with
  | none value => cases busy
  | busy input first =>
    cases latest
    exact .next _ _ output [] [] gave (.none output)
  | next value first middle steps outputs given rest ih =>
    refine .next value first middle steps _ given (ih (Nat.succ.inj busy) ?_)
    cases steps with
    | nil => cases busy
    | cons second later => exact latest

end Threads

def Invocation.handover? : Invocation κ ν → Option (Step κ × ν)
  | .step entry input => some (entry.toStep, input)
  | _ => none

def Event.output? : Event κ ν ε → Option ν
  | .settled _ _ _ (.ok output) => some output
  | _ => none

namespace Log

abbrev handovers (log : Log κ ν ε) : List (Step κ × ν) :=
  log.invocations.filterMap Invocation.handover?

abbrev outputs (log : Log κ ν ε) : List ν := log.filterMap Event.output?

theorem latestHandover {log : Log κ ν ε} {entry : Entry κ} {input : ν}
    (latest : log.invocations.getLast? = some (.step entry input)) :
    log.handovers.getLast? = some (entry.toStep, input) := by
  obtain ⟨earlier, invocations⟩ := List.getLast?_eq_some_iff.mp latest
  simp [handovers, invocations, Invocation.handover?]

theorem threadAppend (first second : Log κ ν ε) :
    Log.handovers (first ++ second) = first.handovers ++ second.handovers ∧
      Log.outputs (first ++ second) = first.outputs ++ second.outputs := by
  simp [handovers, outputs, invocations]

end Log

/- How far the thread is: the run holds a value, a step has it, or all that is known is that the
thread is unbroken. -/
structure Threads.Held (gives : Step κ → ν → ν → Prop) (initial : ν) (steps : List (Step κ × ν))
    (outputs : List ν) (value : ν) : Prop where
  threads : Threads gives initial steps outputs
  idle : steps.length = outputs.length
  value : value = outputs.getLastD initial

structure Threads.Lent (gives : Step κ → ν → ν → Prop) (initial : ν) (steps : List (Step κ × ν))
    (outputs : List ν) : Prop where
  threads : Threads gives initial steps outputs
  busy : steps.length = outputs.length + 1

namespace Threads

variable {gives : Step κ → ν → ν → Prop} {initial value : ν} {steps : List (Step κ × ν)}
  {outputs : List ν}

theorem Held.apply (held : Held gives initial steps outputs value) (step : Step κ) :
    Lent gives initial (steps ++ [(step, value)]) outputs := by
  obtain ⟨threads, idle, rfl⟩ := held
  exact ⟨threads.apply idle step, by simp [idle]⟩

theorem Lent.settle (lent : Lent gives initial steps outputs) {step : Step κ} {input output : ν}
    (latest : steps.getLast? = some (step, input)) (gave : gives step input output) :
    Held gives initial steps (outputs ++ [output]) output :=
  ⟨lent.threads.settle lent.busy latest gave, by simp [lent.busy], by simp⟩

end Threads

def Point.Threaded (gives : Step κ → ν → ν → Prop) (initial : ν) (steps : List (Step κ × ν))
    (outputs : List ν) : Point κ ν → Prop
  | .free | .inside .outside => False
  | .proceeding _ value | .inside (.startingRun _ value) | .inside (.startingStep _ value _ _)
  | .inside (.completingStep _ _ (.completed value))
  | .inside (.completingRun _ (.completed value)) | .finished (some (.ok value)) =>
    Threads.Held gives initial steps outputs value
  | .inside (.applying _ _ _) | .inside (.calling _ _ _) | .inside (.awaiting _ _ _)
  | .inside (.observing _ _ _ _) => Threads.Lent gives initial steps outputs
  | .delivering _ _ _ _ _ | .inside (.delivering _ _ _ _ _ _)
  | .inside (.completingStep _ _ (.failed _ _)) | .inside (.completingRun _ (.failed _ _))
  | .finished (some (.error _)) | .finished none => Threads gives initial steps outputs

section Threaded

variable {gives : Step κ → ν → ν → Prop} {initial : ν}

theorem Point.Threaded.threads {steps : List (Step κ × ν)} {outputs : List ν} {point : Point κ ν}
    (threaded : point.Threaded gives initial steps outputs) :
    Threads gives initial steps outputs := by
  unfold Point.Threaded at threaded
  split at threaded
  · exact threaded.elim
  · exact threaded.elim
  all_goals first | exact threaded | exact threaded.threads

namespace Standing

variable {queue : QueueId} {name : String} {a b : Standing κ ν ε}

def Threaded (gives : Step κ → ν → ν → Prop) (initial : ν) (a : Standing κ ν ε) : Prop :=
  a.point.Threaded gives initial a.log.handovers a.log.outputs

theorem threadedAfter {agenda : Agenda κ} {log more : Log κ ν ε} {point : Point κ ν}
    (steps : List (Step κ × ν)) (outputs : List ν) (handovers : more.handovers = steps)
    (settled : more.outputs = outputs) : Threaded gives initial ⟨agenda, log ++ more, point⟩ =
      point.Threaded gives initial (log.handovers ++ steps) (log.outputs ++ outputs) := by
  unfold Threaded
  rw [(Log.threadAppend log more).1, (Log.threadAppend log more).2, handovers, settled]

theorem threadedAside {agenda : Agenda κ} {log more : Log κ ν ε} {point : Point κ ν}
    (handovers : more.handovers = []) (outputs : more.outputs = []) :
    Threaded gives initial ⟨agenda, log ++ more, point⟩ =
      point.Threaded gives initial log.handovers log.outputs := by
  rw [threadedAfter [] [] handovers outputs, List.append_nil, List.append_nil]

theorem Threaded.given (act : Given queue name a b) (threaded : a.Threaded gives initial) :
    b.Threaded gives initial := by
  cases act with
  | append agenda log point step =>
    rw [threadedAside rfl rfl]
    exact threaded
  | discard agenda log => exact threaded.elim
  | begin agenda log value => exact threaded.elim
  | leave agenda log stage => exact threaded.threads

theorem Threaded.follow (act : Follow queue a b) (threaded : a.Threaded gives initial) :
    b.Threaded gives initial := by
  cases act with
  | pass agenda log run delivery entry rest index dropped other => exact threaded
  | _ =>
    rw [threadedAside rfl rfl]
    exact threaded

theorem Threaded.follows (path : Follows queue a b) (threaded : a.Threaded gives initial) :
    b.Threaded gives initial := by
  induction path with
  | refl => exact threaded
  | tail _ act ih => exact ih.follow act

theorem lentOfSettles {stage : Stage κ ν} {ending : Ending (stage.Answer ε)} {run : Run}
    {step : Int} {info : StepInfo} {result : Except RunError ν} {steps : List (Step κ × ν)}
    {outputs : List ν} (settles : Settles stage ending run step info result)
    (threaded : (Point.inside stage).Threaded gives initial steps outputs) :
    Threads.Lent gives initial steps outputs := by
  cases settles <;> exact threaded

theorem Threaded.reply {stage : Stage κ ν} {ending : Ending (stage.Answer ε)}
    (act : Response queue stage ending a b)
    (gave : ∀ {run step info output}, Settles stage ending run step info (.ok output) →
      ∃ step input, a.log.handovers.getLast? = some (step, input) ∧ gives step input output)
    (threaded : a.Threaded gives initial) : b.Threaded gives initial := by
  cases act with
  | accept agenda log value id =>
    rw [threadedAside rfl rfl]
    exact threaded
  | reject agenda log value failure => exact threaded.threads
  | apply agenda log run value entry info step =>
    have lent := Threads.Held.apply threaded entry.toStep
    unfold Entry.stage
    rw [threadedAfter [(entry.toStep, value)] [] rfl rfl, List.append_nil]
    cases entry.kind <;> exact lent
  | refuse agenda log run value entry info failure =>
    rw [threadedAside rfl rfl]
    exact threaded.threads
  | call agenda log run step info program => exact threaded
  | settle agenda log stage ending run step info value settles =>
    obtain ⟨last, input, latest, gave⟩ := gave settles
    rw [threadedAfter [] [value] rfl rfl, List.append_nil]
    exact (lentOfSettles settles threaded).settle latest gave
  | fail agenda log stage ending run step info error settles =>
    rw [threadedAside rfl rfl]
    exact threaded.threads
  | told agenda log run delivery label rest index dropped ending => exact threaded
  | goOn agenda log run info value ending heard =>
    rw [threadedAside (by cases ending <;> rfl) (by cases ending <;> rfl)]
    exact threaded
  | giveUp agenda log run info error dropped ending heard =>
    rw [List.append_assoc, threadedAside (by cases ending <;> rfl) (by cases ending <;> rfl)]
    exact threaded
  | finish agenda log run verdict ending heard =>
    rw [List.append_assoc, threadedAside (by cases ending <;> cases verdict <;> rfl)
      (by cases ending <;> cases verdict <;> rfl)]
    cases verdict <;> exact threaded

end Standing

end Threaded

theorem Ending.ofResult {label : String} {ending : Ending ν} {output : ν}
    (same : ending.result label = .ok output) : ending = .returned output := by
  cases ending with
  | returned answer => cases same; rfl
  | _ => cases same

namespace Script.Spec

def Gives (spec : Spec) (shape : Shape) (home : QueueId) (input output : Datum) : Prop :=
  match spec.form with
  | .value | .nested => (spec.enter shape home input).Comes (.done output)
  | .void => output = shape.neutral
  | .constant => output = spec.value.getD shape.neutral
  | .future | .futureNested => ∃ program,
    (spec.call shape home input).Comes (.done program) ∧ program.Comes (.done output)
  | .observer => output = input

theorem doneComes {value output : Datum}
    (comes : (Program.done value : Play Datum).Comes (.done output)) :
    output = value := by
  cases Program.comesOfEnding (.returned value) comes
  rfl

theorem gives {shape : Shape} {recorders : QueueId → Option RecorderScript} {spec : Spec}
    {home : QueueId} {input output : Datum}
    (gave : (Script.behaviour shape recorders).Gives home spec.step input output) :
    spec.Gives shape home input output := by
  obtain ⟨kind, code⟩ := spec.stepKept
  unfold Gives
  cases gave with
  | body output plain returned =>
    rw [kind] at plain
    rw [code] at returned
    change (spec.run shape home input).Comes _ at returned
    unfold run at returned
    cases form : spec.form with
    | value => simpa only [form] using returned
    | nested => simpa only [form] using returned
    | void =>
      simp only [form] at returned
      obtain ⟨first, -, rest⟩ := Program.comesThrough returned
      exact doneComes rest
    | constant =>
      simp only [form] at returned
      exact doneComes returned
    | _ => simp [form, Form.kind] at plain
  | future program output plain called returned =>
    rw [kind] at plain
    rw [code] at called
    cases form : spec.form with
    | future => exact ⟨program, called, returned⟩
    | futureNested => exact ⟨program, called, returned⟩
    | _ => simp [form, Form.kind] at plain
  | observer plain =>
    rw [kind] at plain
    cases form : spec.form with
    | observer => rfl
    | _ => simp [form, Form.kind] at plain

end Script.Spec

namespace Ensemble

variable {behaviour : Behaviour κ ν ε} {queue : QueueId} {name : String} {a s r : Ensemble κ ν ε}
  {initial : ν} {point : Point κ ν}

theorem settledGives {world : World κ ν ε} {stage : Stage κ ν} {ending : Ending (stage.Answer ε)}
    {run : Run} {step : Int} {info : StepInfo} {output : ν}
    (own : stage.queue? = some queue) (remains : Remains behaviour world ⟨stage, ending.code⟩)
    (settles : Settles stage ending run step info (.ok output)) :
    ∃ entry input, (world.log queue).invocations.getLast? = some (.step entry input) ∧
      behaviour.Gives queue entry.toStep input output := by
  generalize settled : (Except.ok output : Except RunError ν) = result at settles
  cases settles with
  | body run step info ending =>
    obtain rfl := Ending.ofResult settled.symm
    cases own
    cases remains with
    | called queue invocation stage begun code own enters latest comes =>
      cases own
      obtain ⟨summons, rfl, same⟩ := enters
      cases summons <;> cases same
      next kind => exact ⟨_, _, latest, .body output kind comes⟩
  | future run step info ending =>
    obtain rfl := Ending.ofResult settled.symm
    cases own
    cases remains with
    | called queue invocation stage begun code own enters latest comes =>
      obtain ⟨summons, rfl, same⟩ := enters
      cases summons <;> cases same
    | given run step info entry input program code kind latest gave comes =>
      exact ⟨entry, input, latest, .future program output kind gave comes⟩
  | observer run step info value ending =>
    cases settled
    cases own
    cases remains with
    | called queue invocation stage begun code own enters latest comes =>
      cases own
      obtain ⟨summons, rfl, same⟩ := enters
      cases summons <;> cases same
      next kind => exact ⟨_, output, latest, .observer kind⟩
  | _ => cases settled

/- The reply to code that has ended keeps the thread, since the code is what is left of the code
that the step was handed its value with. -/
theorem threadedReply (reached : Reachable behaviour a) {stage : Stage κ ν}
    {ending : Ending (stage.Answer ε)} {x y : Standing κ ν ε} (here : a.At queue point)
    (same : x = a.standing queue point) (ends : a.Ends stage ending)
    (act : Response queue stage ending x y)
    (threaded : x.Threaded (behaviour.Gives queue) initial) :
    y.Threaded (behaviour.Gives queue) initial := by
  subst same
  refine threaded.reply act fun settles => ?_
  obtain ⟨callers, present⟩ := ends
  obtain rfl : point = .inside stage := act.answer.1
  have own : stage.queue? = some queue := by
    have among : stage ∈ ownStages queue a.stages := here.1 ▸ List.mem_singleton_self stage
    simpa using (List.mem_filter.mp among).2
  obtain ⟨entry, input, latest, gives⟩ :=
    settledGives own (reached.faithful _ present).frame settles
  exact ⟨entry.toStep, input, Log.latestHandover latest, gives⟩

theorem threadedMove (reached : Reachable behaviour a) {x y : Standing κ ν ε}
    (here : a.At queue point) (same : x = a.standing queue point) (move : Move queue name a x y)
    (threaded : x.Threaded (behaviour.Gives queue) initial) :
    y.Threaded (behaviour.Gives queue) initial := by
  cases move with
  | still => exact threaded
  | given act => exact threaded.given act
  | reply ends act path => exact (threadedReply reached here same ends act threaded).follows path

theorem Reachable.threaded (reached : Reachable behaviour a) (path : Reaches behaviour a s)
    (here : a.At queue point) (threaded : (a.standing queue point).Threaded
      (behaviour.Gives queue) initial) :
    ∃ next, s.At queue next ∧ (s.standing queue next).Threaded (behaviour.Gives queue) initial := by
  induction path with
  | refl => exact ⟨point, here, threaded⟩
  | tail earlier step ih =>
    obtain ⟨point, here, threaded⟩ := ih
    obtain ⟨-, next, there, move⟩ := nextMoves step here rfl
    exact ⟨next, there, threadedMove (reached.later earlier) here rfl move threaded⟩

theorem Reachable.threadBegun (reached : Reachable behaviour a)
    (starting : .startingRun queue initial ∈ a.stages) :
    a.At queue (.inside (.startingRun queue initial)) ∧
      (a.standing queue (.inside (.startingRun queue initial))).Threaded
        (behaviour.Gives queue) initial := by
  obtain ⟨point, here, told⟩ := reached.holds (keptTold queue _)
  cases atStage here starting rfl
  have deeds : (a.world.log queue).deeds = [.asked queue (.startRun _)] := told
  refine ⟨here, ?_⟩
  have handovers : (a.world.log queue).handovers = [] := by
    have invocations := Log.readDeeds (a.world.log queue) Event.invocation? fun _ _ _ => rfl
    rw [Log.handovers, Log.invocations, ← invocations, deeds]
    rfl
  have outputs : (a.world.log queue).outputs = [] := by
    have settled := Log.readDeeds (a.world.log queue) Event.output? fun _ _ _ => rfl
    rw [Log.outputs, ← settled, deeds]
    rfl
  change Threads.Held _ initial (a.world.log queue).handovers (a.world.log queue).outputs initial
  rw [handovers, outputs]
  exact ⟨.none initial, rfl, rfl⟩

/-- The value of a run, from its start on. What the applied steps were handed and what they have
given is one thread from the initial value; a run that ends well returns the end of it. A run
without an initial value is one from the neutral value, for the machine and in a session, and
scripted steps give what their form says. -/
theorem Reachable.valuesThreaded {world : World κ ν ε} {callers : List (Caller κ ν ε)}
    (first rest : List (Task κ ν ε)) {initial : Option ν}
    (begun : Reachable behaviour ⟨(Machine.start behaviour world callers queue initial).world,
      first ++ (Machine.start behaviour world callers queue initial).task :: rest⟩)
    (path : Reaches behaviour ⟨(Machine.start behaviour world callers queue initial).world,
      first ++ (Machine.start behaviour world callers queue initial).task :: rest⟩ s) :
    Threads (behaviour.Gives queue) (initial.getD behaviour.neutral)
      (s.world.log queue).handovers (s.world.log queue).outputs ∧
    (∀ value r, Returns behaviour queue (.ok value) s r →
      (r.world.log queue).handovers.length = (r.world.log queue).outputs.length ∧
        value = (r.world.log queue).outputs.getLastD (initial.getD behaviour.neutral)) ∧
    Machine.start behaviour world callers queue none =
      Machine.start behaviour world callers queue (some behaviour.neutral) ∧
    (∀ (setup : Setup) fuel session id polling,
      Session.perform setup fuel session (.run id none polling) =
        Session.perform setup fuel session (.run id (some setup.shape.neutral) polling)) ∧
    ∀ (shape : Script.Shape) recorders (spec : Script.Spec) home input output,
      (Script.behaviour shape recorders).Gives home spec.step input output →
        spec.Gives shape home input output := by
  have starting : .startingRun queue (initial.getD behaviour.neutral) ∈
      (Ensemble.mk (Machine.start behaviour world callers queue initial).world
        (first ++ (Machine.start behaviour world callers queue initial).task :: rest)).stages := by
    simp [stages, Machine.start, Scheduler.startRun, Machine.task, Task.stages]
  obtain ⟨here, threaded⟩ := begun.threadBegun starting
  obtain ⟨point, there, held⟩ := begun.threaded path here threaded
  refine ⟨held.threads, fun value r returns => ?_, rfl, fun setup fuel session id polling => ?_,
    fun shape recorders spec home input output => Script.Spec.gives⟩
  · obtain ⟨-, stage, ending, -, ends, act⟩ := returns.response there
    obtain ⟨-, idle, same⟩ := threadedReply (begun.later path) there rfl ends act held
    exact ⟨idle, same⟩
  · simp only [Session.perform]
    split
    · rfl
    · have fits : setup.shape.check setup.shape.neutral = .ok setup.shape.neutral := by
        rw [Script.Shape.check, if_pos setup.shape.neutralFits]
      simp only [Option.map_none, Option.map_some, fits]
      rfl

theorem valuesThreadedCounting :
    let counting : Behaviour Nat Nat Unit := .countdown (.done 7) .silent
    Threads (counting.Gives 0) 0
      [({ kind := .value, code := 1 }, 0), ({ kind := .value, code := 0 }, 1),
        ({ kind := .observer, code := 0 }, 7)] [1, 7, 7] := by
  intro counting
  let steps : List (Step Nat) := [{ kind := .value, code := 1 }, { kind := .observer, code := 0 }]
  let world : World Nat Nat Unit :=
    steps.foldl (fun world step => world.append 0 step) ⟨[{ name := "counting" }], []⟩
  let start := Machine.start counting (world.take 0) [] 0 none
  have begun := loneReachable counting "counting" steps 0
  have path : Reaches counting _ _ := pollReaches 14 start []
  have threaded := (Reachable.valuesThreaded [] [] begun path).1
  have handovers : ((start.poll counting 14).world.log 0).handovers =
      [({ kind := .value, code := 1 }, 0), ({ kind := .value, code := 0 }, 1),
        ({ kind := .observer, code := 0 }, 7)] := by decide +kernel
  have outputs : ((start.poll counting 14).world.log 0).outputs = [1, 7, 7] := by decide +kernel
  rw [handovers, outputs] at threaded
  exact threaded

end Ensemble

end Sequencer

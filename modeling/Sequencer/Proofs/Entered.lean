import Mathlib.Data.List.Forall2
import Sequencer.Proofs.Remainders
import Sequencer.Proofs.Reached

/-! The code that is called on the way. An ensemble enters code step by step, and what it enters is
read off its machines alone. For each queue this is the code of the queue's invocations, one after
the other, together with the programs that the code of its async steps has given. So the log of a
queue tells which code was called for it, and no other code of the queue runs. -/
namespace Sequencer

def ownFrames (queue : QueueId) (frames : List (Frame κ ν ε)) : List (Frame κ ν ε) :=
  frames.filter fun frame => frame.stage.queue? = some queue

theorem ownEntered (queue : QueueId) (entered : Option (Frame κ ν ε)) :
    (ownFrames queue entered.toList = [] ∧
      ∀ frame, entered = some frame → frame.stage.queue? ≠ some queue) ∨
    ∃ frame, entered = some frame ∧ frame.stage.queue? = some queue ∧
      ownFrames queue entered.toList = [frame] := by
  cases entered with
  | none => exact .inl ⟨rfl, fun _ same => nomatch same⟩
  | some frame =>
    by_cases own : frame.stage.queue? = some queue
    · exact .inr ⟨frame, rfl, own, by simp [ownFrames, own]⟩
    · refine .inl ⟨by simp [ownFrames, own], fun other same => ?_⟩
      cases same
      exact own

/- Invocations of a queue and the frames that were entered for it, from where code of the queue
stood in the frame `last`. -/
inductive Performed (behaviour : Behaviour κ ν ε) (last : Option (Frame κ ν ε)) :
    List (Invocation κ ν) → List (Frame κ ν ε) → Prop where
  | nothing : Performed behaviour last [] []
  | call {invocations frames invocation frame}
      (earlier : Performed behaviour last invocations frames)
      (enters : Invocation.Enters behaviour invocation frame) :
      Performed behaviour last (invocations ++ [invocation]) (frames ++ [frame])
  | given {invocations frames run step info code program}
      (earlier : Performed behaviour last invocations frames)
      (latest : frames.getLast?.or last = some ⟨.calling run step info, code⟩)
      (gave : Program.Comes code (.done program)) :
      Performed behaviour last invocations (frames ++ [⟨.awaiting run step info, program⟩])

theorem latestAppended (last : Option α) (first second : List α) :
    (first ++ second).getLast?.or last = second.getLast?.or (first.getLast?.or last) := by
  rw [List.getLast?_append, Option.or_assoc]

namespace Performed

variable {behaviour : Behaviour κ ν ε} {last : Option (Frame κ ν ε)}
  {first second : List (Invocation κ ν)} {frames more : List (Frame κ ν ε)}

theorem trans (before : Performed behaviour last first frames)
    (after : Performed behaviour (frames.getLast?.or last) second more) :
    Performed behaviour last (first ++ second) (frames ++ more) := by
  induction after with
  | nothing => simpa using before
  | call _ enters ih =>
    rw [← List.append_assoc, ← List.append_assoc]
    exact ih.call enters
  | given _ latest gave ih =>
    rw [← List.append_assoc]
    exact ih.given (by rw [latestAppended, latest]) gave

theorem entersEach (performed : Performed behaviour last first frames)
    (idle : ∀ entry input, Invocation.step entry input ∉ first)
    (ungiven : ∀ run step info code program, last = some ⟨.calling run step info, code⟩ →
      ¬Program.Comes code (.done program)) :
    List.Forall₂ (Invocation.Enters behaviour) first frames := by
  induction performed with
  | nothing => exact .nil
  | call _ enters ih =>
    have before := ih fun entry input among => idle entry input (List.mem_append_left _ among)
    exact List.rel_append before (.cons enters .nil)
  | given earlier latest gave ih =>
    cases earlier with
    | nothing => exact absurd gave (ungiven _ _ _ _ _ latest)
    | call _ enters =>
      rw [List.getLast?_concat] at latest
      cases latest
      obtain ⟨summons, rfl, same⟩ := enters
      cases summons <;> cases same
      exact absurd (List.mem_append_right _ (List.mem_singleton_self _)) (idle _ _)
    | given =>
      rw [List.getLast?_concat] at latest
      cases latest

end Performed

theorem Summons.performs (behaviour : Behaviour κ ν ε) (queue : QueueId)
    (last : Option (Frame κ ν ε)) (summons : Summons κ ν) :
    Performed behaviour last (summons.invocations queue)
      (ownFrames queue [summons.frame behaviour]) := by
  have home := summons.home behaviour
  by_cases own : summons.queue = queue
  · simpa [ownFrames, home, own, invocations] using Performed.nothing.call ⟨summons, rfl, rfl⟩
  · simpa [ownFrames, home, own, invocations] using Performed.nothing

namespace Ensemble

variable {behaviour : Behaviour κ ν ε} {queue : QueueId} {a b c : Ensemble κ ν ε}

inductive Enters (behaviour : Behaviour κ ν ε) :
    Ensemble κ ν ε → Option (Frame κ ν ε) → Ensemble κ ν ε → Prop where
  | outside (world tasks) (code : Program κ ν ε Unit) :
      Enters behaviour ⟨world, tasks⟩ (some ⟨.outside, code⟩)
        ⟨world, (Machine.outside world code).task :: tasks⟩
  | run (world tasks queue initial) (untaken : (world.queue queue).taken = false) :
      Enters behaviour ⟨world, tasks⟩
        (some (Machine.start behaviour (world.take queue) [] queue initial).frame)
        ⟨(Machine.start behaviour (world.take queue) [] queue initial).world,
          (Machine.start behaviour (world.take queue) [] queue initial).task :: tasks⟩
  | advance (world first task rest) :
      Enters behaviour ⟨world, first ++ task :: rest⟩ ((task.on world).entered? behaviour)
        ⟨((task.on world).advance behaviour).world,
          first ++ ((task.on world).advance behaviour).tasks ++ rest⟩
  | drop (world first task rest) :
      Enters behaviour ⟨world, first ++ task :: rest⟩ none ⟨world, first ++ rest⟩

/-- The frames of a queue that are entered on the way, in their order. -/
inductive Entered (behaviour : Behaviour κ ν ε) (queue : QueueId) (a : Ensemble κ ν ε) :
    List (Frame κ ν ε) → Ensemble κ ν ε → Prop where
  | refl : Entered behaviour queue a [] a
  | tail {frames b entered c} (earlier : Entered behaviour queue a frames b)
      (step : Enters behaviour b entered c) :
      Entered behaviour queue a (frames ++ ownFrames queue entered.toList) c

theorem Enters.next {entered : Option (Frame κ ν ε)} (step : Enters behaviour a entered b) :
    Next behaviour a b := by
  cases step with
  | outside world tasks code => exact .outside world tasks code
  | run world tasks queue initial untaken => exact .run world tasks queue initial untaken
  | advance world first task rest => exact .advance world first task rest
  | drop world first task rest => exact .drop world first task rest

theorem nextEnters (step : Next behaviour a b) : ∃ entered, Enters behaviour a entered b := by
  cases step with
  | outside world tasks code => exact ⟨_, .outside world tasks code⟩
  | run world tasks queue initial untaken => exact ⟨_, .run world tasks queue initial untaken⟩
  | advance world first task rest => exact ⟨_, .advance world first task rest⟩
  | drop world first task rest => exact ⟨_, .drop world first task rest⟩

theorem Entered.reaches {frames : List (Frame κ ν ε)} (path : Entered behaviour queue a frames b) :
    Reaches behaviour a b := by
  induction path with
  | refl => exact .refl
  | tail _ step ih => exact ih.tail step.next

variable (queue) in
theorem reachesEntered (path : Reaches behaviour a b) :
    ∃ frames, Entered behaviour queue a frames b := by
  induction path with
  | refl => exact ⟨[], .refl⟩
  | tail _ step ih =>
    obtain ⟨frames, before⟩ := ih
    obtain ⟨entered, step⟩ := nextEnters step
    exact ⟨_, before.tail step⟩

section Steps

variable {entered : Option (Frame κ ν ε)} {holds : Frame κ ν ε → Prop}

theorem resumedEach {world : World κ ν ε} {callers : List (Caller κ ν ε)} {turn : Turn κ ν ε}
    (closed : ∀ {stage code next}, Program.Onward code next → holds ⟨stage, code⟩ →
      holds ⟨stage, next⟩)
    (old : ∀ caller ∈ callers,
      ∃ queue initial, holds ⟨caller.stage, .run queue initial caller.resume⟩)
    (new : ∀ frame, turn.entered? = some frame → holds frame) :
    ∀ task ∈ (Machine.resume callers (world, turn)).tasks, task.Each holds := by
  intro task present
  cases turn with
  | enter frame =>
    cases List.mem_singleton.mp present
    exact ⟨new frame rfl, old⟩
  | left => cases present
  | returned result =>
    cases callers with
    | nil => cases present
    | cons caller rest =>
      cases List.mem_singleton.mp present
      obtain ⟨queue, initial, held⟩ := old caller List.mem_cons_self
      exact ⟨closed (.run queue initial caller.resume (some result)) held,
        fun other among => old other (List.mem_cons_of_mem _ among)⟩
  | unwound payload =>
    cases callers with
    | nil => cases present
    | cons caller rest =>
      cases List.mem_singleton.mp present
      obtain ⟨queue, initial, held⟩ := old caller List.mem_cons_self
      exact ⟨closed (.unwound queue initial caller.resume payload) held,
        fun other among => old other (List.mem_cons_of_mem _ among)⟩

theorem advancedEach {world : World κ ν ε} {task : Task κ ν ε}
    (closed : ∀ {stage code next}, Program.Onward code next → holds ⟨stage, code⟩ →
      holds ⟨stage, next⟩)
    (old : task.Each holds)
    (new : ∀ frame, (task.on world).entered? behaviour = some frame → holds frame) :
    ∀ other ∈ ((task.on world).advance behaviour).tasks, other.Each holds := by
  have steps := (task.on world).steps behaviour
  obtain ⟨frame, callers⟩ := task
  generalize (Task.on ⟨frame, callers⟩ world).entered? behaviour = entered at steps new
  generalize (Task.on ⟨frame, callers⟩ world).advance behaviour = progress at steps ⊢
  cases steps with
  | replied _ stage ending _ => exact resumedEach closed old.callers new
  | begun _ stage queue initial next _ untaken =>
    intro other present
    cases List.mem_singleton.mp present
    refine ⟨new _ rfl, fun caller among => ?_⟩
    rcases List.mem_cons.mp among with rfl | behind
    · exact ⟨queue, initial, old.frame⟩
    · exact old.callers caller behind
  | goneOn _ stage code next _ _ onward quiet tasks =>
    intro other present
    rw [tasks] at present
    cases List.mem_singleton.mp present
    exact ⟨closed onward old.frame, old.callers⟩

theorem Enters.each (step : Enters behaviour a entered b)
    (closed : ∀ {stage code next}, Program.Onward code next → holds ⟨stage, code⟩ →
      holds ⟨stage, next⟩)
    (old : ∀ task ∈ a.tasks, task.Each holds) (new : ∀ frame, entered = some frame → holds frame) :
    ∀ task ∈ b.tasks, task.Each holds := by
  intro task present
  cases step with
  | outside world tasks code =>
    rcases List.mem_cons.mp present with rfl | behind
    · exact ⟨new _ rfl, fun _ waits => nomatch waits⟩
    · exact old task behind
  | run world tasks queue initial untaken =>
    rcases List.mem_cons.mp present with rfl | behind
    · exact ⟨new _ rfl, fun _ waits => nomatch waits⟩
    · exact old task behind
  | drop world first gone rest =>
    refine old task ?_
    rcases List.mem_append.mp present with ahead | behind
    · exact List.mem_append_left _ ahead
    · exact List.mem_append_right _ (List.mem_cons_of_mem _ behind)
  | advance world first moved rest =>
    simp only [List.mem_append] at present
    rcases present with (ahead | among) | behind
    · exact old task (List.mem_append_left _ ahead)
    · exact advancedEach closed (old moved (by simp)) new task among
    · exact old task (List.mem_append_right _ (List.mem_cons_of_mem _ behind))

theorem Enters.placed {frame : Frame κ ν ε} (step : Enters behaviour a (some frame) b) :
    ∃ first callers rest, b.tasks = first ++ ⟨frame, callers⟩ :: rest := by
  generalize same : some frame = entered at step
  cases step with
  | outside world tasks code =>
    cases same
    exact ⟨[], [], tasks, rfl⟩
  | run world tasks queue initial untaken =>
    cases same
    exact ⟨[], [], tasks, rfl⟩
  | drop world first gone rest => cases same
  | advance world first moved rest =>
    have steps := (moved.on world).steps behaviour
    obtain ⟨within, callers⟩ := moved
    rw [← same] at steps
    generalize (Task.on ⟨within, callers⟩ world).advance behaviour = progress at steps ⊢
    generalize found : some frame = entered at steps
    cases steps with
    | replied _ stage ending _ =>
      cases replied : Scheduler.conclude behaviour world stage ending with
      | mk left turn =>
        rw [replied] at found
        cases turn with
        | enter other =>
          cases found
          exact ⟨first, callers, rest, by simp [Machine.resume, Progress.tasks, Machine.task]⟩
        | returned | unwound | left => cases found
    | begun _ stage queue initial next _ untaken =>
      cases found
      exact ⟨first, ⟨stage, next⟩ :: callers, rest, by simp [Progress.tasks]; rfl⟩
    | goneOn => cases found

end Steps

def Underway (queue : QueueId) (last : Option (Frame κ ν ε)) (a : Ensemble κ ν ε) : Prop :=
  ∀ task ∈ a.tasks, task.Each fun frame => frame.stage.queue? = some queue →
    ∃ begun : Frame κ ν ε, last = some begun ∧ begun.Comes frame

theorem Reachable.underway (reached : Reachable behaviour a) {frame : Frame κ ν ε}
    {callers : List (Caller κ ν ε)} (present : ⟨frame, callers⟩ ∈ a.tasks)
    (own : frame.stage.queue? = some queue) : Underway queue (some frame) a := by
  obtain ⟨world, tasks⟩ := a
  obtain ⟨first, rest, rfl⟩ := List.append_of_mem present
  obtain ⟨point, here⟩ := reached.somewhere queue
  obtain ⟨-, -, before, among, behind⟩ := atOwn here own
  have foreign {stages : List (Stage κ ν)} (none : ownStages queue stages = []) {stage : Stage κ ν}
      (there : stage ∈ stages) : stage.queue? ≠ some queue := fun mine =>
    absurd (List.filter_eq_nil_iff.mp none stage there) (by simp [mine])
  have apart {tasks : List (Task κ ν ε)} (none : ownStages queue (tasks.flatMap Task.stages) = [])
      (task : Task κ ν ε) (there : task ∈ tasks) {stage : Stage κ ν}
      (within : stage ∈ task.stages) :
      stage.queue? ≠ some queue :=
    foreign none (List.mem_flatMap.mpr ⟨task, there, within⟩)
  intro task there
  rcases List.mem_append.mp there with ahead | later
  · exact ⟨fun mine => absurd mine (apart before task ahead List.mem_cons_self),
      fun caller waits => ⟨queue, none, fun mine => absurd mine (apart before task ahead
        (List.mem_cons_of_mem _ (List.mem_map_of_mem waits)))⟩⟩
  rcases List.mem_cons.mp later with rfl | after
  · exact ⟨fun _ => ⟨frame, rfl, .intro _ _ _ .refl⟩,
      fun caller waits => ⟨queue, none, fun mine => absurd mine
        (foreign among (List.mem_map_of_mem waits))⟩⟩
  · exact ⟨fun mine => absurd mine (apart behind task after List.mem_cons_self),
      fun caller waits => ⟨queue, none, fun mine => absurd mine (apart behind task after
        (List.mem_cons_of_mem _ (List.mem_map_of_mem waits)))⟩⟩

section Underway

variable {entered : Option (Frame κ ν ε)} {last : Option (Frame κ ν ε)}

theorem Underway.next (under : Underway queue last a) (step : Enters behaviour a entered b)
    (reached : Reachable behaviour b) :
    Underway queue ((ownFrames queue entered.toList).getLast?.or last) b := by
  rcases ownEntered queue entered with ⟨none, foreign⟩ | ⟨frame, rfl, own, only⟩
  · rw [none]
    refine step.each (fun onward held own => ?_) under fun frame new own =>
      absurd own (foreign frame new)
    obtain ⟨begun, same, comes⟩ := held own
    cases comes with
    | intro stage begun code comes => exact ⟨_, same, .intro _ _ _ (comes.tail onward)⟩
  · rw [only]
    obtain ⟨first, callers, rest, tasks⟩ := step.placed
    exact reached.underway (tasks ▸ List.mem_append_right _ List.mem_cons_self) own

theorem repliedPerforms {world : World κ ν ε} {stage : Stage κ ν}
    {ending : Ending (stage.Answer ε)} {callers : List (Caller κ ν ε)}
    (under : Underway queue last a) (present : ⟨⟨stage, ending.code⟩, callers⟩ ∈ a.tasks) :
    let next := Scheduler.conclude behaviour world stage ending
    ∃ new, (next.1.log queue).invocations = (world.log queue).invocations ++ new ∧
      Performed behaviour last new (ownFrames queue next.2.entered?.toList) := by
  by_cases handsOver : stage.HandsOver ending
  · cases handsOver with
    | program run step info program =>
      refine ⟨[], (List.append_nil _).symm, ?_⟩
      change Performed behaviour last [] (ownFrames queue [⟨.awaiting run step info, program⟩])
      by_cases own : run.queue = queue
      · obtain ⟨begun, latest, comes⟩ := (under _ present).frame (congrArg some own)
        cases comes with
        | intro stage begun code comes =>
          simpa [ownFrames, Stage.queue?, own] using Performed.nothing.given latest comes
      · simpa [ownFrames, Stage.queue?, own] using Performed.nothing
  · obtain ⟨left, upshot, same, -, -, invoked⟩ :=
      Scheduler.concludeUniform world stage ending handsOver
    dsimp only
    rw [same behaviour]
    refine ⟨_, invoked queue, ?_⟩
    cases upshot with
    | summon summons => exact summons.performs behaviour queue last
    | returned | unwound | left => exact .nothing

variable (behaviour queue) in
theorem startPerforms (world : World κ ν ε) (callers : List (Caller κ ν ε)) (id : QueueId)
    (initial : Option ν) (last : Option (Frame κ ν ε)) :
    let started := Machine.start behaviour (world.take id) callers id initial
    ∃ new, (started.world.log queue).invocations = (world.log queue).invocations ++ new ∧
      Performed behaviour last new (ownFrames queue [started.frame]) := by
  let summons : Summons κ ν :=
    .startRun id (initial.getD behaviour.neutral) ((world.take id).nameOf id)
  exact ⟨_, (world.take id).summoned (.asked id (.startRun _)) summons rfl rfl queue,
    summons.performs behaviour queue last⟩

/- One step records an invocation of a queue exactly when it enters the code of it. -/
theorem Enters.performs (step : Enters behaviour a entered b) (under : Underway queue last a) :
    ∃ new, (b.world.log queue).invocations = (a.world.log queue).invocations ++ new ∧
      Performed behaviour last new (ownFrames queue entered.toList) := by
  cases step with
  | outside world tasks code => exact ⟨[], (List.append_nil _).symm, .nothing⟩
  | run world tasks id initial untaken =>
    exact startPerforms behaviour queue world [] id initial last
  | drop world first gone rest => exact ⟨[], (List.append_nil _).symm, .nothing⟩
  | advance world first moved rest =>
    have steps := (moved.on world).steps behaviour
    obtain ⟨within, callers⟩ := moved
    generalize (Task.on ⟨within, callers⟩ world).entered? behaviour = entered at steps ⊢
    generalize (Task.on ⟨within, callers⟩ world).advance behaviour = progress at steps ⊢
    cases steps with
    | replied _ stage ending _ =>
      rw [Machine.worldOfResume]
      exact repliedPerforms under (List.mem_append_right first List.mem_cons_self)
    | begun _ stage id initial next _ untaken =>
      exact startPerforms behaviour queue world _ id initial last
    | goneOn _ stage code next _ _ onward quiet tasks =>
      exact ⟨[], (quiet.silent queue).trans (List.append_nil _).symm, .nothing⟩

/-- From an ensemble on, the code that is entered for a queue is the code of the invocations that
its log has of the way. -/
theorem Entered.performed {frames : List (Frame κ ν ε)} (path : Entered behaviour queue a frames b)
    (reached : Reachable behaviour a) (under : Underway queue last a) :
    (∃ new, (b.world.log queue).invocations = (a.world.log queue).invocations ++ new ∧
      Performed behaviour last new frames) ∧ Underway queue (frames.getLast?.or last) b := by
  induction path with
  | refl => exact ⟨⟨[], (List.append_nil _).symm, .nothing⟩, under⟩
  | tail earlier step ih =>
    obtain ⟨⟨before, log, performed⟩, under⟩ := ih
    obtain ⟨after, later, performs⟩ := step.performs under
    refine ⟨⟨before ++ after, ?_, performed.trans performs⟩, ?_⟩
    · rw [later, log, List.append_assoc]
    · rw [latestAppended]
      exact under.next step ((reached.later earlier.reaches).next step.next)

end Underway

/-- The code of a queue that was entered from the very start on. -/
def Ran (behaviour : Behaviour κ ν ε) (queue : QueueId) (frames : List (Frame κ ν ε))
    (a : Ensemble κ ν ε) : Prop :=
  ∃ world : World κ ν ε, world.Blank ∧ Entered behaviour queue ⟨world, []⟩ frames a

variable (queue) in
theorem Reachable.ran (reached : Reachable behaviour a) :
    ∃ frames, Ran behaviour queue frames a := by
  obtain ⟨world, blank, path⟩ := reached
  obtain ⟨frames, entered⟩ := reachesEntered queue path
  exact ⟨frames, world, blank, entered⟩

/-- All the code of a queue that ever ran is the code of its invocations, with the programs that its
async steps have given. -/
theorem Ran.performed {frames : List (Frame κ ν ε)} (ran : Ran behaviour queue frames a) :
    Performed behaviour none (a.world.log queue).invocations frames ∧
      Underway queue frames.getLast? a := by
  obtain ⟨world, blank, path⟩ := ran
  have idle : Underway queue none ⟨world, []⟩ := fun _ among => nomatch among
  obtain ⟨⟨new, log, performed⟩, under⟩ := path.performed ⟨world, blank, .refl⟩ idle
  rw [Option.or_none] at under
  rw [world.logOfBlank blank.silent] at log
  exact ⟨log ▸ performed, under⟩

/-- After code of a queue has ended for good, only the code of the invocations that follow is
entered for the queue, as long as none of them is a step. -/
theorem Reachable.entersEach (reached : Reachable behaviour a) {stage : Stage κ ν}
    {ending : Ending (stage.Answer ε)} (ends : a.Ends stage ending)
    (own : stage.queue? = some queue) (final : ¬stage.HandsOver ending)
    {frames : List (Frame κ ν ε)} (path : Entered behaviour queue a frames b)
    {new : List (Invocation κ ν)}
    (log : (b.world.log queue).invocations = (a.world.log queue).invocations ++ new)
    (idle : ∀ entry input, Invocation.step entry input ∉ new) :
    List.Forall₂ (Invocation.Enters behaviour) new frames := by
  obtain ⟨callers, present⟩ := ends
  obtain ⟨⟨invocations, later, performed⟩, -⟩ :=
    path.performed reached (reached.underway present own)
  obtain rfl := List.append_cancel_left (log.symm.trans later)
  refine performed.entersEach idle fun run step info code program same gave => ?_
  cases same
  cases ending with
  | returned answer => exact final (.program run step info answer)
  | failed failure => cases Program.comesOfEnding (.failed failure) gave
  | panicked payload => cases Program.comesOfEnding (.panicked payload) gave

end Ensemble

/- What is left of the code that the latest invocation of a queue has called, or of the program that
the code of an async step has given. -/
inductive Remains (behaviour : Behaviour κ ν ε) (world : World κ ν ε) : Frame κ ν ε → Prop where
  | outside (code) : Remains behaviour world ⟨.outside, code⟩
  | called (queue invocation stage begun code) (own : stage.queue? = some queue)
      (enters : invocation.Enters behaviour ⟨stage, begun⟩)
      (latest : (world.log queue).invocations.getLast? = some invocation)
      (comes : begun.Comes code) : Remains behaviour world ⟨stage, code⟩
  | given (run step info entry input program code) (kind : entry.kind = .async)
      (latest : (world.log run.queue).invocations.getLast? = some (.step entry input))
      (gave : (behaviour.call entry.code run.queue input).Comes (.done program))
      (comes : program.Comes code) : Remains behaviour world ⟨.awaiting run step info, code⟩

namespace Remains

variable {behaviour : Behaviour κ ν ε} {world : World κ ν ε}

theorem startingRun {queue : QueueId} {value : ν} {code : Program κ ν ε Int}
    (remains : Remains behaviour world ⟨.startingRun queue value, code⟩) :
    ∃ name, (world.log queue).invocations.getLast? = some (.recorder (.startRun name)) ∧
      ((behaviour.recorder queue).startRun name).Comes code := by
  cases remains with
  | called queue invocation stage begun code own enters latest comes =>
    cases own
    obtain ⟨summons, rfl, same⟩ := enters
    cases summons <;> cases same
    exact ⟨_, latest, comes⟩

theorem startingStep {run : Run} {value : ν} {entry : Entry κ} {info : StepInfo}
    {code : Program κ ν ε Int}
    (remains : Remains behaviour world ⟨.startingStep run value entry info, code⟩) :
    ((behaviour.recorder run.queue).startStep run.id info).Comes code := by
  cases remains with
  | called queue invocation stage begun code own enters latest comes =>
    obtain ⟨summons, rfl, same⟩ := enters
    cases summons <;> cases same
    exact comes

end Remains

theorem Performed.remains {behaviour : Behaviour κ ν ε} {world : World κ ν ε} {queue : QueueId}
    {frames : List (Frame κ ν ε)} {begun frame : Frame κ ν ε}
    (performed : Performed behaviour none (world.log queue).invocations frames)
    (own : frame.stage.queue? = some queue) (last : frames.getLast? = some begun)
    (comes : begun.Comes frame) : Remains behaviour world frame := by
  obtain ⟨stage, start, code, comes⟩ := comes
  generalize logged : (world.log queue).invocations = invocations at performed
  cases performed with
  | nothing => cases last
  | call _ enters =>
    rw [List.getLast?_concat] at last
    cases last
    exact .called queue _ stage start code own enters (by rw [logged, List.getLast?_concat]) comes
  | given earlier latest gave =>
    rw [List.getLast?_concat] at last
    cases last
    cases own
    -- the program was given by the code entered just before, which is the code of the latest call
    cases earlier with
    | nothing => cases latest
    | call _ enters =>
      rw [List.getLast?_concat] at latest
      cases latest
      obtain ⟨summons, rfl, same⟩ := enters
      cases summons <;> cases same
      next kind =>
        exact .given _ _ _ _ _ _ code kind (by rw [logged, List.getLast?_concat]; rfl) gave comes
    | given =>
      rw [List.getLast?_concat] at latest
      cases latest

namespace Ensemble

theorem Reachable.faithful {behaviour : Behaviour κ ν ε} {a : Ensemble κ ν ε}
    (reached : Reachable behaviour a) :
    ∀ task ∈ a.tasks, task.Each (Remains behaviour a.world) := by
  intro task present
  have remains (frame : Frame κ ν ε) (left : ∀ queue, frame.stage.queue? = some queue →
      ∃ frames, Performed behaviour none (a.world.log queue).invocations frames ∧
        ∃ begun : Frame κ ν ε, frames.getLast? = some begun ∧ begun.Comes frame) :
      Remains behaviour a.world frame := by
    obtain ⟨stage, code⟩ := frame
    cases home : stage.queue? with
    | none =>
      cases stage <;> simp only [Stage.queue?, reduceCtorEq] at home
      exact .outside code
    | some queue =>
      obtain ⟨frames, performed, begun, last, comes⟩ := left queue home
      exact performed.remains home last comes
  refine ⟨remains _ fun queue own => ?_, fun caller waits => ?_⟩
  · obtain ⟨frames, ran⟩ := reached.ran queue
    obtain ⟨performed, under⟩ := ran.performed
    exact ⟨frames, performed, (under task present).frame own⟩
  · cases home : caller.stage.queue? with
    | none => exact ⟨0, none, remains _ fun queue own => by cases home.symm.trans own⟩
    | some id =>
      obtain ⟨frames, ran⟩ := reached.ran id
      obtain ⟨performed, under⟩ := ran.performed
      obtain ⟨queue, initial, left⟩ := (under task present).callers caller waits
      refine ⟨queue, initial, remains _ fun other own => ?_⟩
      cases home.symm.trans own
      exact ⟨frames, performed, left own⟩

end Ensemble

end Sequencer

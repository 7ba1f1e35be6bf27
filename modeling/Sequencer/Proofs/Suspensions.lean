import Sequencer.Proofs.Polling
import Sequencer.Proofs.RecorderSilence
import Sequencer.Proofs.Summons

/-! Suspensions are not observed. Code that suspends elsewhere, or more or less often, is the same
code to everyone but the one who polls: the run has the same events and leaves the same queues. Only
the polls differ, and they count the suspensions the run waits for. Code that never suspends is done
in one poll. -/
namespace Sequencer

variable {κ ν ε β : Type}

namespace Program

inductive Retimed (meets : β → β → Prop) : Program κ ν ε β → Program κ ν ε β → Prop where
  | done (first second) (meet : meets first second) : Retimed meets (.done first) (.done second)
  | fail (failure) : Retimed meets (.fail failure) (.fail failure)
  | panic (payload) : Retimed meets (.panic payload) (.panic payload)
  | append (queue step first second) (on : Retimed meets first second) :
      Retimed meets (.append queue step first) (.append queue step second)
  | ask (queue first second) (on : ∀ status, Retimed meets (first status) (second status)) :
      Retimed meets (.ask queue first) (.ask queue second)
  | look (queue first second) (on : ∀ snapshot, Retimed meets (first snapshot) (second snapshot)) :
      Retimed meets (.look queue first) (.look queue second)
  | note (remark first second) (on : Retimed meets first second) :
      Retimed meets (.note remark first) (.note remark second)
  | discard (queue first second) (on : ∀ taken, Retimed meets (first taken) (second taken)) :
      Retimed meets (.discard queue first) (.discard queue second)
  | run (queue initial first second) (on : ∀ result, Retimed meets (first result) (second result)) :
      Retimed meets (.run queue initial first) (.run queue initial second)
  | fewer (first second) (on : Retimed meets first second) : Retimed meets (.suspend first) second
  | more (first second) (on : Retimed meets first second) : Retimed meets first (.suspend second)

theorem Retimed.upToIdling {heard : ε → Bool} {meets : β → β → Prop}
    {due : Ending β → Ending β → Prop}
    (returned : ∀ early late, meets early late → due (.returned early) (.returned late))
    (failed : ∀ failure, due (.failed failure) (.failed failure))
    (panicked : ∀ payload, due (.panicked payload) (.panicked payload))
    {first second : Program κ ν ε β} (retimed : first.Retimed meets second) :
    first.UpToIdling heard id due second := by
  induction retimed with
  | done first second meet =>
    exact .ended (.returned first) (.returned second) (returned first second meet)
  | fail failure => exact .ended (.failed failure) (.failed failure) (failed failure)
  | panic payload => exact .ended (.panicked payload) (.panicked payload) (panicked payload)
  | append queue step first second on ih => exact .append queue step first second ih
  | ask queue first second on ih => exact .ask queue first second ih
  | look queue first second on ih => exact .look queue first second ih
  | note remark first second on ih => exact .note remark first second ih
  | discard queue first second on ih => exact .discard queue first second ih
  | run queue initial first second on ih => exact .run queue initial first second ih
  | fewer first second on ih => exact .left _ _ _ (.suspend first) fun _ => ih
  | more first second on ih => exact .right _ _ _ (.suspend second) fun _ => ih

theorem retimedSame (program : Program κ ν ε β) : program.Retimed Eq program := by
  induction program with
  | done answer => exact .done answer answer rfl
  | fail failure => exact .fail failure
  | panic payload => exact .panic payload
  | append queue step next ih => exact .append queue step next next ih
  | ask queue next ih => exact .ask queue next next ih
  | look queue next ih => exact .look queue next next ih
  | note remark next ih => exact .note remark next next ih
  | suspend next ih => exact .fewer _ _ (.more _ _ ih)
  | discard queue next ih => exact .discard queue next next ih
  | run queue initial next ih => exact .run queue initial next next ih

theorem retimedRepeat (program : Program κ ν ε β) (times others : Nat) :
    (Nat.repeat suspend times program).Retimed Eq (Nat.repeat suspend others program) := by
  induction times with
  | succ times ih => exact .fewer _ _ ih
  | zero =>
    induction others with
    | zero => exact retimedSame program
    | succ others ih => exact .more _ _ ih

def steady (f : β → β) : Program κ ν ε β → Program κ ν ε β
  | done answer => done (f answer)
  | fail failure => fail failure
  | panic payload => panic payload
  | append queue step next => append queue step (next.steady f)
  | ask queue next => ask queue fun status => (next status).steady f
  | look queue next => look queue fun snapshot => (next snapshot).steady f
  | note remark next => note remark (next.steady f)
  | suspend next => next.steady f
  | discard queue next => discard queue fun taken => (next taken).steady f
  | run queue initial next => run queue initial fun result => (next result).steady f

theorem retimedSteady {meets : β → β → Prop} {f : β → β} (meet : ∀ answer, meets answer (f answer))
    (program : Program κ ν ε β) : program.Retimed meets (program.steady f) := by
  induction program with
  | done answer => exact .done answer (f answer) (meet answer)
  | fail failure => exact .fail failure
  | panic payload => exact .panic payload
  | append queue step next ih => exact .append queue step next _ ih
  | ask queue next ih => exact .ask queue next _ ih
  | look queue next ih => exact .look queue next _ ih
  | note remark next ih => exact .note remark next _ ih
  | suspend next ih => exact .fewer next _ ih
  | discard queue next ih => exact .discard queue next _ ih
  | run queue initial next ih => exact .run queue initial next _ ih

inductive Steady (due : β → Prop) : Program κ ν ε β → Prop where
  | done (answer) (holds : due answer) : Steady due (.done answer)
  | fail (failure) : Steady due (.fail failure)
  | panic (payload) : Steady due (.panic payload)
  | append (queue step next) (on : Steady due next) : Steady due (.append queue step next)
  | ask (queue next) (on : ∀ status, Steady due (next status)) : Steady due (.ask queue next)
  | look (queue next) (on : ∀ snapshot, Steady due (next snapshot)) : Steady due (.look queue next)
  | note (remark next) (on : Steady due next) : Steady due (.note remark next)
  | discard (queue next) (on : ∀ taken, Steady due (next taken)) : Steady due (.discard queue next)
  | run (queue initial next) (on : ∀ result, Steady due (next result)) :
      Steady due (.run queue initial next)

theorem steadied {due : β → Prop} {f : β → β} (holds : ∀ answer, due (f answer))
    (program : Program κ ν ε β) : (program.steady f).Steady due := by
  induction program with
  | done answer => exact .done (f answer) (holds answer)
  | fail failure => exact .fail failure
  | panic payload => exact .panic payload
  | append queue step next ih => exact .append queue step _ ih
  | ask queue next ih => exact .ask queue _ ih
  | look queue next ih => exact .look queue _ ih
  | note remark next ih => exact .note remark _ ih
  | suspend next ih => exact ih
  | discard queue next ih => exact .discard queue _ ih
  | run queue initial next ih => exact .run queue initial _ ih

end Program

namespace Behaviour

abbrev Retimed (first second : Behaviour κ ν ε) : Prop :=
  first.Related (Program.Retimed Eq) (Program.Retimed (Program.Retimed Eq)) second

def steady (behaviour : Behaviour κ ν ε) : Behaviour κ ν ε :=
  behaviour.recast (Program.steady id) (Program.steady (Program.steady id))

theorem retimedSteady (behaviour : Behaviour κ ν ε) : behaviour.Retimed behaviour.steady :=
  relatedRecast (Program.retimedSteady fun _ => rfl)
    (Program.retimedSteady (Program.retimedSteady fun _ => rfl)) behaviour

theorem Retimed.upToNames {first second : Behaviour κ ν ε} (retimed : first.Retimed second) :
    first.UpToNames (Ties.bond κ ν (fun _ => true) fun _ => none) second where
  neutral := retimed.neutral
  body code {queue} _ value :=
    (retimed.body code queue value).upToIdling (fun _ _ same => congrArg _ same) (fun _ => rfl)
      fun _ => rfl
  call code {queue} _ value :=
    (retimed.call code queue value).upToIdling
      (fun early late on => .returned early late
        (on.upToIdling (fun _ _ same => congrArg _ same) (fun _ => rfl) fun _ => rfl))
      .failed .panicked
  watch code {queue} _ result :=
    (retimed.watch code queue result).upToIdling (fun _ _ same => congrArg _ same) (fun _ => rfl)
      fun _ => rfl
  recorder {queue} _ :=
    { startRun := fun name => ((retimed.recorder queue).startRun name).upToIdling
        (fun _ _ same => .returned _ _ same) .failed .panicked
      startStep := fun {run other} same info => by
        obtain rfl : run = other := same
        exact ((retimed.recorder queue).startStep run info).upToIdling
          (fun _ _ same => .returned _ _ same) .failed .panicked
      completeStep := fun {step other} same info status => by
        obtain rfl : step = other := same
        exact ((retimed.recorder queue).completeStep info step status).upToIdling
          (fun _ _ _ => .same _) (fun _ => .same _) fun _ => .same _
      completeRun := fun {run other} same status => by
        obtain rfl : run = other := same
        exact ((retimed.recorder queue).completeRun run status).upToIdling
          (fun _ _ _ => .same _) (fun _ => .same _) fun _ => .same _ }

end Behaviour

theorem World.Similar.same {first second : World κ ν ε}
    (worlds : first.Similar (fun _ => true) (fun _ => false) second) :
    (∀ id, second.queue id = first.queue id) ∧ second.history = first.history := by
  have whole : Event.outline (fun _ => true) (fun _ => false) =
      (some : Event κ ν ε → Option (Event κ ν ε)) := by
    funext event
    cases event <;> rfl
  have told := worlds.outline
  rw [whole, List.filterMap_some, List.filterMap_some] at told
  exact ⟨fun id => (worlds.queues id).symm, told.symm⟩

/- Where the code of an async step gives its program, the program has to be steady as well. -/
def Stage.Calm : (stage : Stage κ ν) → stage.Answer ε → Prop
  | .calling _ _ _, program => Program.Steady (fun _ => True) program
  | _, _ => True

structure Machine.Steady (machine : Machine κ ν ε) : Prop where
  code : machine.frame.code.Steady machine.frame.stage.Calm
  callers : ∀ caller ∈ machine.callers, ∀ result,
    (caller.resume result).Steady caller.stage.Calm

section Steadiness

variable {behaviour : Behaviour κ ν ε}

theorem Summons.steady (summons : Summons κ ν) :
    (summons.frame behaviour.steady).code.Steady
      (summons.frame behaviour.steady).stage.Calm := by
  cases summons with
  | call => exact Program.steadied (Program.steadied fun _ => trivial) _
  | startRun | startStep | body | watch | notify | completeStep | completeRun =>
    exact Program.steadied (fun _ => trivial) _

theorem Scheduler.concludeSteady {world left : World κ ν ε} {stage : Stage κ ν}
    {ending : Ending (stage.Answer ε)}
    (calm : ∀ answer, ending = .returned answer → stage.Calm answer) {frame : Frame κ ν ε}
    (turn : conclude behaviour.steady world stage ending = (left, .enter frame)) :
    frame.code.Steady frame.stage.Calm := by
  by_cases handsOver : stage.HandsOver ending
  · cases handsOver with
    | program run step info program =>
      cases turn
      exact calm program rfl
  · obtain ⟨summons, rfl⟩ := (concludeUniform world stage ending handsOver).summoned
      (congrArg Prod.snd turn)
    exact summons.steady

namespace Machine

theorem startSteady (world : World κ ν ε) (queue : QueueId) (initial : Option ν)
    {callers : List (Caller κ ν ε)}
    (steady : ∀ caller ∈ callers, ∀ result, (caller.resume result).Steady caller.stage.Calm) :
    (Machine.start behaviour.steady world callers queue initial).Steady :=
  ⟨Program.steadied (fun _ => trivial) _, steady⟩

theorem resumeSteady {world : World κ ν ε} {turn : Turn κ ν ε} {callers : List (Caller κ ν ε)}
    (entered : ∀ frame, turn = .enter frame → frame.code.Steady frame.stage.Calm)
    (steady : ∀ caller ∈ callers, ∀ result, (caller.resume result).Steady caller.stage.Calm)
    {next : Machine κ ν ε} (going : (resume callers (world, turn)).machine? = some next) :
    next.Steady := by
  cases turn with
  | enter frame =>
    cases going
    exact ⟨entered frame rfl, steady⟩
  | left => cases going
  | returned result =>
    cases callers with
    | nil => cases going
    | cons caller rest =>
      cases going
      exact ⟨steady caller (.head rest) _, fun other there => steady other (.tail caller there)⟩
  | unwound payload =>
    cases callers with
    | nil => cases going
    | cons caller rest =>
      cases going
      exact ⟨.panic payload, fun other there => steady other (.tail caller there)⟩

theorem Steady.next {machine next : Machine κ ν ε} (steady : machine.Steady)
    (going : (machine.advance behaviour.steady).machine? = some next) : next.Steady := by
  obtain ⟨world, ⟨stage, code⟩, callers⟩ := machine
  obtain ⟨steadily, waiting⟩ := steady
  dsimp only at steadily waiting
  have ended (ending : Ending (stage.Answer ε))
      (calm : ∀ answer, ending = .returned answer → stage.Calm answer)
      (going : (resume callers
        (Scheduler.conclude behaviour.steady world stage ending)).machine? = some next) :
      next.Steady := by
    refine resumeSteady (fun frame entered => ?_) waiting going
    exact Scheduler.concludeSteady calm (Prod.ext rfl entered)
  cases steadily with
  | done answer holds =>
    exact ended (.returned answer) (fun _ same => by cases same; exact holds) going
  | fail failure => exact ended (.failed failure) nofun going
  | panic payload => exact ended (.panicked payload) nofun going
  | append queue step code on | note remark code on =>
    cases going
    exact ⟨on, waiting⟩
  | ask queue code on | look queue code on =>
    cases going
    exact ⟨on _, waiting⟩
  | discard queue code on =>
    dsimp only [advance] at going
    split at going <;> cases going <;> exact ⟨on _, waiting⟩
  | run queue initial code on =>
    dsimp only [advance] at going
    split at going
    · cases going
      exact ⟨on _, waiting⟩
    · cases going
      refine startSteady _ queue initial fun caller there => ?_
      cases there with
      | head => exact on
      | tail _ there => exact waiting caller there

theorem Steady.unpaused {machine : Machine κ ν ε} (steady : machine.Steady) :
    machine.pauses = false := by
  obtain ⟨world, ⟨stage, code⟩, callers⟩ := machine
  obtain ⟨steadily, -⟩ := steady
  dsimp only at steadily
  cases steadily <;> simp [pauses, Program.suspends]

theorem Passes.unpaused {machine : Machine κ ν ε} {passed : List (Machine κ ν ε)}
    {world : World κ ν ε} {outcome : Outcome ν}
    (passes : machine.Passes behaviour.steady passed world outcome) (steady : machine.Steady) :
    passed.countP pauses = 0 := by
  induction passes with
  | last machine world outcome ended => simp [steady.unpaused]
  | step machine next passed world outcome going _ ih =>
    simp [steady.unpaused, ih (steady.next going)]

end Machine

end Steadiness

theorem Behaviour.Retimed.polled {first second : Behaviour κ ν ε} (retimed : first.Retimed second)
    {world left : World κ ν ε} {queue : QueueId} {initial : Option ν} {outcome : Outcome ν}
    {polls : Nat} (polled : (Machine.start first (world.take queue) [] queue initial).Polled first
      polls left outcome) :
    ∃ others last, (Machine.start second (world.take queue) [] queue initial).Polled second others
        last outcome ∧
      (∀ id, last.queue id = left.queue id) ∧ last.history = left.history := by
  obtain ⟨passed, passes, -⟩ := polled.passes
  obtain ⟨progress, path, similar⟩ :=
    retimed.upToNames.covers world queue initial _ (passes.runs rfl)
  cases similar with
  | going _ _ machine other early => cases early
  | ended _ last _ worlds =>
    obtain ⟨others, onward⟩ := Machine.runsPasses path rfl
    exact ⟨_, last, onward.polled, worlds.same⟩

/-- The polls of a run are one more than the suspensions it waits for. A run under code that
suspends elsewhere ends as well, with the same outcome, the same events and the same queues; under
code that never suspends one poll does it all. -/
theorem Behaviour.suspensionsUnobserved {first second : Behaviour κ ν ε}
    (retimed : first.Retimed second) {world left : World κ ν ε} {queue : QueueId}
    {initial : Option ν} {outcome : Outcome ν} {polls : Nat}
    (polled : (Machine.start first (world.take queue) [] queue initial).Polled first polls left
      outcome) :
    (∃ passed, (Machine.start first (world.take queue) [] queue initial).Passes first passed left
        outcome ∧ polls = passed.countP Machine.pauses + 1) ∧
    (∃ others last, (Machine.start second (world.take queue) [] queue initial).Polled second others
        last outcome ∧ (∀ id, last.queue id = left.queue id) ∧ last.history = left.history) ∧
    ∃ fuel last,
      (Machine.start first.steady (world.take queue) [] queue initial).poll first.steady fuel =
        .ended last outcome ∧
      (∀ id, last.queue id = left.queue id) ∧ last.history = left.history := by
  refine ⟨polled.passes, retimed.polled polled, ?_⟩
  obtain ⟨others, last, onward, queues, history⟩ := first.retimedSteady.polled polled
  have steady : (Machine.start first.steady (world.take queue) [] queue initial).Steady :=
    Machine.startSteady _ queue initial nofun
  obtain ⟨passed, passes, counted⟩ := onward.passes
  rw [passes.unpaused steady] at counted
  cases onward with
  | ended _ fuel _ _ poll => exact ⟨fuel, last, poll, queues, history⟩
  | again _ _ _ polls _ _ _ on =>
    obtain ⟨_, _, more⟩ := on.passes
    omega

def Behaviour.waiting (starts steps : Nat) : Behaviour Nat Nat Unit where
  neutral := 0
  body code _ value := .done (value + code)
  call code _ value := .done (Nat.repeat .suspend steps (.done (value + code)))
  watch _ _ _ := .done ()
  recorder _ := { Recorder.silent with startRun := fun _ => Nat.repeat .suspend starts (.done 0) }

theorem Behaviour.waitingRetimed (starts steps others more : Nat) :
    (Behaviour.waiting starts steps).Retimed (Behaviour.waiting others more) where
  neutral := rfl
  body _ _ _ := Program.retimedSame _
  call _ _ _ := .done _ _ (Program.retimedRepeat _ steps more)
  watch _ _ _ := Program.retimedSame _
  recorder _ :=
    { startRun := fun _ => Program.retimedRepeat _ starts others
      startStep := fun _ _ => Program.retimedSame _
      completeStep := fun _ _ _ => Program.retimedSame _
      completeRun := fun _ _ => Program.retimedSame _ }

theorem Behaviour.suspensionsUnobservedWaiting :
    let world : World Nat Nat Unit :=
      [3, 4].foldl (fun world code => world.append 0 { kind := .async, code })
        ⟨[{ name := "q" }], []⟩
    let first := Behaviour.waiting 1 2
    let second := Behaviour.waiting 3 0
    first.Retimed second ∧
    ∃ left, (Machine.start first (world.take 0) [] 0 none).Polled first 6 left
        (.returned (.ok 7)) ∧
      (∃ passed, (Machine.start first (world.take 0) [] 0 none).Passes first passed left
        (.returned (.ok 7)) ∧ 6 = passed.countP Machine.pauses + 1) ∧
      (∃ others last, (Machine.start second (world.take 0) [] 0 none).Polled second others last
          (.returned (.ok 7)) ∧
        (∀ id, last.queue id = left.queue id) ∧ last.history = left.history) ∧
      ∃ fuel last,
        (Machine.start first.steady (world.take 0) [] 0 none).poll first.steady fuel =
          .ended last (.returned (.ok 7)) ∧
        (∀ id, last.queue id = left.queue id) ∧ last.history = left.history := by
  intro world first second
  have retimed : first.Retimed second := Behaviour.waitingRetimed 1 2 3 0
  have polled : (Machine.start first (world.take 0) [] 0 none).Polled first 6 _
      (.returned (.ok 7)) :=
    .again _ 20 _ _ _ _ rfl <| .again _ 20 _ _ _ _ rfl <| .again _ 20 _ _ _ _ rfl <|
      .again _ 20 _ _ _ _ rfl <| .again _ 20 _ _ _ _ rfl <| .ended _ 20 _ _ rfl
  exact ⟨retimed, _, polled, Behaviour.suspensionsUnobserved retimed polled⟩

end Sequencer

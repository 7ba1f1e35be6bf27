import Sequencer.Proofs.RecastRun

/-! Sync and async dispatch agree. A step that makes some appends and ends may do so in its body,
or as an async step in its code and in the program that this code gives, cut anywhere. What is
claimed of one run is claimed of any schedule as well: if one behaviour follows another from step
to step, it does so from ensemble to ensemble. -/
namespace Sequencer

variable {κ κ' ν ε β γ : Type}

theorem relatedApart {relates : β → γ → Prop} {mates : List β} {first rest : List γ} {task : γ}
    (related : List.Forall₂ relates mates (first ++ task :: rest)) :
    ∃ head mate others, mates = head ++ mate :: others ∧ List.Forall₂ relates head first ∧
      relates mate task ∧ List.Forall₂ relates others rest := by
  have before := List.forall₂_take_append _ _ _ related
  have after := List.forall₂_drop_append _ _ _ related
  obtain ⟨mate, others, here, below, dropped⟩ := List.forall₂_cons_right_iff.mp after
  exact ⟨_, mate, others, by rw [← dropped, List.take_append_drop], before, here, below⟩

structure Behaviour.Follows (first : Behaviour κ ν ε) (second : Behaviour κ' ν ε)
    (worlds : World κ ν ε → World κ' ν ε → Prop) (tasks : Task κ ν ε → Task κ' ν ε → Prop)
    (outside : Program κ ν ε Unit → Program κ' ν ε Unit → Prop) : Prop where
  untaken : ∀ {world other}, worlds world other → ∀ queue,
    (other.queue queue).taken = (world.queue queue).taken
  begins : ∀ {code also}, outside code also → tasks ⟨⟨.outside, code⟩, []⟩ ⟨⟨.outside, also⟩, []⟩
  starts : ∀ {world other}, worlds world other → ∀ queue initial,
    worlds (Machine.start first (world.take queue) [] queue initial).world
        (Machine.start second (other.take queue) [] queue initial).world ∧
      tasks (Machine.start first (world.take queue) [] queue initial).task
        (Machine.start second (other.take queue) [] queue initial).task
  advances : ∀ {world other task mate}, worlds world other → tasks task mate →
    ∃ next, Progress.Goes second (.running (mate.on other)) next ∧
      worlds ((task.on world).advance first).world next.world ∧
      List.Forall₂ tasks ((task.on world).advance first).tasks next.tasks

namespace Ensemble

def NextWith (behaviour : Behaviour κ ν ε) (outside : Program κ ν ε Unit → Prop)
    (a b : Ensemble κ ν ε) : Prop :=
  Next behaviour a b ∧
    ∀ code, b = ⟨a.world, (Machine.outside a.world code).task :: a.tasks⟩ → outside code

def ReachesWith (behaviour : Behaviour κ ν ε) (outside : Program κ ν ε Unit → Prop) :
    Ensemble κ ν ε → Ensemble κ ν ε → Prop :=
  Relation.ReflTransGen (NextWith behaviour outside)

theorem goesWithin {behaviour : Behaviour κ ν ε} {a b : Progress κ ν ε}
    (path : Progress.Goes behaviour a b) (first rest : List (Task κ ν ε)) :
    Reaches behaviour ⟨a.world, first ++ a.tasks ++ rest⟩ ⟨b.world, first ++ b.tasks ++ rest⟩ := by
  induction path with
  | refl => exact .refl
  | @tail b c _ turn ih =>
    obtain ⟨machine, going⟩ := turn
    have step : Next behaviour _ _ := .advance machine.world first machine.task rest
    rw [← List.singleton_append, ← List.append_assoc] at step
    refine ih.tail ?_
    cases b with
    | ended world outcome => cases going
    | running _ | suspended _ =>
      cases going
      exact step

end Ensemble

namespace Behaviour.Follows
open Ensemble

variable {first : Behaviour κ ν ε} {second : Behaviour κ' ν ε}
  {worlds : World κ ν ε → World κ' ν ε → Prop} {tasks : Task κ ν ε → Task κ' ν ε → Prop}
  {outside : Program κ ν ε Unit → Program κ' ν ε Unit → Prop}
  (follows : first.Follows second worlds tasks outside)
include follows

theorem next {a c : Ensemble κ ν ε} {b : Ensemble κ' ν ε} (here : worlds a.world b.world)
    (related : List.Forall₂ tasks a.tasks b.tasks)
    (step : NextWith first (fun code => ∃ also, outside code also) a c) :
    ∃ d, Reaches second b d ∧ worlds c.world d.world ∧ List.Forall₂ tasks c.tasks d.tasks := by
  obtain ⟨step, allowed⟩ := step
  obtain ⟨other, mates⟩ := b
  cases step with
  | outside world _ code =>
    obtain ⟨also, both⟩ := allowed code rfl
    exact ⟨_, .single (.outside other mates also), here, .cons (follows.begins both) related⟩
  | run world _ queue initial untaken =>
    obtain ⟨there, task⟩ := follows.starts here queue initial
    exact ⟨_, .single (.run other mates queue initial ((follows.untaken here queue).trans untaken)),
      there, .cons task related⟩
  | advance world front task rest =>
    obtain ⟨head, mate, others, rfl, before, both, after⟩ := relatedApart related.flip
    obtain ⟨next, path, there, later⟩ := follows.advances here both
    have within := goesWithin path head others
    rw [List.append_assoc] at within
    exact ⟨_, within, there, List.rel_append (List.rel_append before.flip later) after.flip⟩
  | drop world front task rest =>
    obtain ⟨head, mate, others, rfl, before, -, after⟩ := relatedApart related.flip
    exact ⟨_, .single (.drop other head mate others), here,
      List.rel_append before.flip after.flip⟩

theorem along {a c : Ensemble κ ν ε} {b : Ensemble κ' ν ε} (here : worlds a.world b.world)
    (related : List.Forall₂ tasks a.tasks b.tasks)
    (path : ReachesWith first (fun code => ∃ also, outside code also) a c) :
    ∃ d, Reaches second b d ∧ worlds c.world d.world ∧ List.Forall₂ tasks c.tasks d.tasks := by
  induction path with
  | refl => exact ⟨b, .refl, here, related⟩
  | tail _ step ih =>
    obtain ⟨between, before, there, both⟩ := ih
    obtain ⟨d, after, last⟩ := follows.next there both step
    exact ⟨d, before.trans after, last⟩

end Behaviour.Follows

section Recasting

variable {casting : Casting κ κ'} {first : Behaviour κ ν ε} {second : Behaviour κ' ν ε}

namespace Behaviour.UpToKinds

variable (behaviours : first.UpToKinds casting second)
include behaviours

theorem starts {world : World κ ν ε} {other : World κ' ν ε} (worlds : world.UpToKinds casting other)
    (queue : QueueId) (initial : Option ν) :
    Progress.UpToKinds casting
      (Progress.running (Machine.start first world [] queue initial)).joined
      (Progress.running (Machine.start second other [] queue initial)).joined :=
  Machine.startUpToKinds behaviours worlds queue initial .nil

theorem follows : first.Follows second (World.UpToKinds casting) (Task.UpToKinds casting)
    (Program.UpToKinds casting Eq) where
  untaken worlds queue := (worlds.queues queue).taken
  begins codes := ⟨.intro _ _ _ _ _ .outside codes, .nil⟩
  starts worlds queue initial := by
    have begun := behaviours.starts (worlds.take queue) queue initial
    obtain ⟨task, -⟩ := List.forall₂_cons.mp (Progress.UpToKinds.tasks begun)
    exact ⟨Progress.UpToKinds.worlds begun, task⟩
  advances {world other task mate} worlds tasks := by
    have alike : (Progress.running (task.on world)).joined.UpToKinds casting
        (Progress.running (mate.on other)).joined :=
      .running _ _ _ _ _ _ worlds tasks.frame tasks.callers
    obtain ⟨next, path, there⟩ := Progress.UpToKinds.follows behaviours alike (.advance _ _ rfl)
    exact ⟨next, path, Progress.UpToKinds.worlds there, Progress.UpToKinds.tasks there⟩

theorem precedes : second.Follows first (fun other world => World.UpToKinds casting world other)
    (fun mate task => Task.UpToKinds casting task mate)
    (fun also code => Program.UpToKinds casting Eq code also) where
  untaken worlds queue := (worlds.queues queue).taken.symm
  begins codes := ⟨.intro _ _ _ _ _ .outside codes, .nil⟩
  starts worlds queue initial := by
    have begun := behaviours.starts (worlds.take queue) queue initial
    obtain ⟨task, -⟩ := List.forall₂_cons.mp (Progress.UpToKinds.tasks begun)
    exact ⟨Progress.UpToKinds.worlds begun, task⟩
  advances {other world mate task} worlds tasks := by
    have alike : (Progress.running (task.on world)).joined.UpToKinds casting
        (Progress.running (mate.on other)).joined :=
      .running _ _ _ _ _ _ worlds tasks.frame tasks.callers
    obtain ⟨next, path, there⟩ := Progress.UpToKinds.precedes behaviours alike (.advance _ _ rfl)
    exact ⟨next, path, Progress.UpToKinds.worlds there, (Progress.UpToKinds.tasks there).flip⟩

end Behaviour.UpToKinds

namespace Program

inductive Appends (ending : Ending β) : List (QueueId × Step κ) → Program κ ν ε β → Prop where
  | ended : Appends ending [] ending.code
  | append (queue step moves code) (on : Appends ending moves code) :
      Appends ending ((queue, step) :: moves) (.append queue step code)
  | wait (moves code) (on : Appends ending moves code) : Appends ending moves (.suspend code)

/- The code of an async step makes some of these appends, and the program that it gives the others.
Code that panics has made them all and gives no program. -/
inductive Split (ending : Ending ν) :
    List (QueueId × Step κ) → Program κ ν ε (Program κ ν ε ν) → Prop where
  | handed (early late call program) (before : call.Appends (.returned program) early)
      (after : program.Appends ending late) : Split ending (early ++ late) call
  | panicked (moves call payload) (before : call.Appends (.panicked payload) moves)
      (same : ending = .panicked payload) : Split ending moves call

theorem Split.joined {ending : Ending ν} {moves : List (QueueId × Step κ)}
    {call : Program κ ν ε (Program κ ν ε ν)} (split : Split ending moves call) :
    (call.bind id).Appends ending moves := by
  cases split with
  | handed early late call program before after =>
    induction before with
    | ended => exact after
    | append queue step moves code _ ih => exact .append queue step _ _ ih
    | wait moves code _ ih => exact .wait _ _ ih
  | panicked moves call payload before same =>
    subst same
    induction before with
    | ended => exact .ended
    | append queue step moves code _ ih => exact .append queue step _ _ ih
    | wait moves code _ ih => exact .wait _ _ ih

abbrev Moves (casting : Casting κ κ') :
    List (QueueId × Step κ) → List (QueueId × Step κ') → Prop :=
  List.Forall₂ fun move other => other.1 = move.1 ∧ casting.twin move.2 other.2

theorem Appends.upToKinds {meets : β → γ → Prop} {early : Ending β} {late : Ending γ}
    (ends : early.UpToKinds meets late) {moves : List (QueueId × Step κ)}
    {others : List (QueueId × Step κ')} (twins : Moves casting moves others)
    {code : Program κ ν ε β} {also : Program κ' ν ε γ} (makes : code.Appends early moves)
    (made : also.Appends late others) : code.UpToKinds casting meets also := by
  induction makes generalizing others also with
  | ended =>
    cases twins
    generalize none : [] = others at made
    induction made with
    | ended => exact .ended early late ends
    | append => cases none
    | wait others also _ ih => exact .right _ _ (ih none)
  | append queue step moves code _ ih =>
    induction made with
    | ended => cases twins
    | append other mate others also on =>
      obtain ⟨⟨rfl, twin⟩, rest⟩ := List.forall₂_cons.mp twins
      exact .append _ step mate _ _ twin (ih rest on)
    | wait others also _ waited => exact .right _ _ (waited twins)
  | wait moves code _ ih => exact .left _ _ (ih twins made)

end Program

/- The second behaviour differs from the first one in steps that are async there: they make the same
appends and end in the same way. No other code makes anything of kinds and labels. -/
structure Behaviour.Recasts (first : Behaviour κ ν ε) (casting : Casting κ κ')
    (second : Behaviour κ' ν ε) : Prop where
  neutral : second.neutral = first.neutral
  recast : ∀ {step mate}, casting.twin step mate → step.kind = .value → mate.kind = .async →
    ∀ queue value, ∃ moves others early late, Program.Moves casting moves others ∧
      early.UpToKinds Eq late ∧ (first.body step.code queue value).Appends early moves ∧
      Program.Split late others (second.call mate.code queue value)
  bodies : ∀ {step mate}, casting.twin step mate → step.kind = .value → mate.kind = .value →
    ∀ queue value,
      (first.body step.code queue value).UpToKinds casting Eq (second.body mate.code queue value)
  calls : ∀ {step mate}, casting.twin step mate → step.kind = .async → ∀ queue value,
    (first.call step.code queue value).UpToKinds casting (Program.UpToKinds casting Eq)
      (second.call mate.code queue value)
  watch : ∀ {step mate}, casting.twin step mate → step.isObserver = true →
    ∀ queue {result answer}, Results result answer →
    (first.watch step.code queue result).UpToKinds casting Eq (second.watch mate.code queue answer)
  recorder : ∀ queue, (first.recorder queue).UpToKinds casting (second.recorder queue)

theorem Behaviour.Recasts.upToKinds (recasts : first.Recasts casting second) :
    first.UpToKinds casting second where
  neutral := recasts.neutral
  work {step mate} twins observer queue value := by
    unfold Behaviour.work
    cases kind : step.kind with
    | observer =>
      rw [Step.isObserver, kind] at observer
      cases observer
    | async =>
      rcases casting.kinds twins with same | ⟨also, -⟩
      · rw [same, kind]
        exact (recasts.calls twins kind queue value).bind
      · cases kind.symm.trans also
    | value =>
      rcases casting.kinds twins with same | ⟨-, async⟩
      · rw [same, kind]
        exact recasts.bodies twins kind (same.trans kind) queue value
      · obtain ⟨moves, others, early, late, twin, ends, makes, split⟩ :=
          recasts.recast twins kind async queue value
        rw [async]
        exact makes.upToKinds ends twin split.joined
  watch := recasts.watch
  recorder := recasts.recorder

/-- Sync and async dispatch agree. Whatever a run ends with, the other one ends with the like of it,
and whatever comes about in a schedule of any number of runs and outside code, the like of it comes
about in one of the other behaviour; both hold either way. What is alike has the same events with
the same indexes, depths, values and counts, and queues in the same state, but for kinds and default
labels of steps that were made async. -/
theorem Behaviour.dispatchAgrees (recasts : first.Recasts casting second) :
    (∀ world other, World.UpToKinds casting world other → ∀ queue initial,
      (∀ last outcome,
        (Machine.start first world [] queue initial).Runs first (.ended last outcome) →
        ∃ final result,
          (Machine.start second other [] queue initial).Runs second (.ended final result) ∧
            last.UpToKinds casting final ∧ Outcome.UpToKinds outcome result) ∧
      ∀ final result,
        (Machine.start second other [] queue initial).Runs second (.ended final result) →
        ∃ last outcome,
          (Machine.start first world [] queue initial).Runs first (.ended last outcome) ∧
            last.UpToKinds casting final ∧ Outcome.UpToKinds outcome result) ∧
    ∀ a b, Ensemble.UpToKinds casting a b →
      (∀ c, Ensemble.ReachesWith first
        (fun code => ∃ also, Program.UpToKinds casting Eq code also) a c →
        ∃ d, Ensemble.Reaches second b d ∧ c.UpToKinds casting d) ∧
      ∀ d, Ensemble.ReachesWith second
        (fun also => ∃ code, Program.UpToKinds casting Eq code also) b d →
        ∃ c, Ensemble.Reaches first a c ∧ c.UpToKinds casting d := by
  have behaviours := recasts.upToKinds
  refine ⟨fun world other worlds queue initial => ⟨?_, ?_⟩, fun a b alike => ⟨?_, ?_⟩⟩
  · intro last outcome runs
    have kept {a c : Progress κ ν ε} {b : Progress κ' ν ε}
        (alike : a.joined.UpToKinds casting b.joined) (turn : Progress.Turns first a c)
        (_ : Progress.Goes first c (.ended last outcome)) :
        ∃ d, Progress.Goes second b d ∧ c.joined.UpToKinds casting d.joined :=
      Progress.UpToKinds.follows behaviours alike turn
    obtain ⟨mate, path, alike⟩ :=
      Progress.simulated kept (behaviours.starts worlds queue initial) runs
    obtain ⟨final, result, rfl, both⟩ := Progress.UpToKinds.ends alike
    exact ⟨final, result, path, both⟩
  · intro final result runs
    have kept {b d : Progress κ' ν ε} {a : Progress κ ν ε}
        (alike : a.joined.UpToKinds casting b.joined) (turn : Progress.Turns second b d)
        (_ : Progress.Goes second d (.ended final result)) :
        ∃ c, Progress.Goes first a c ∧ c.joined.UpToKinds casting d.joined :=
      Progress.UpToKinds.precedes behaviours alike turn
    obtain ⟨mate, path, alike⟩ :=
      Progress.simulated kept (behaviours.starts worlds queue initial) runs
    obtain ⟨last, outcome, rfl, both⟩ := Progress.UpToKinds.endsAlso alike
    exact ⟨last, outcome, path, both⟩
  · intro c path
    obtain ⟨d, reaches, worlds, tasks⟩ := behaviours.follows.along alike.worlds alike.tasks path
    exact ⟨d, reaches, worlds, tasks⟩
  · intro d path
    obtain ⟨c, reaches, worlds, tasks⟩ :=
      behaviours.precedes.along alike.worlds alike.tasks.flip path
    exact ⟨c, reaches, worlds, tasks.flip⟩

end Recasting

theorem World.namedUpToKinds (casting : Casting κ κ') (name : String) :
    World.UpToKinds casting (⟨[{ name }], []⟩ : World κ ν ε) (⟨[{ name }], []⟩ : World κ' ν ε) := by
  refine ⟨fun queue => ?_, .nil⟩
  cases queue <;> exact ⟨rfl, rfl, ⟨.nil, .nil, .none, rfl⟩⟩

def Casting.deferring : Casting κ κ where
  twin step mate := step.kind ≠ .async ∧
    mate = { step with kind := if step.kind = .value then .async else step.kind }
  described := by
    rintro step _ ⟨-, rfl⟩
    rfl
  kinds := by
    rintro ⟨_ | _ | _, code, description, failureHook⟩ _ ⟨sync, rfl⟩
    · exact .inr ⟨rfl, rfl⟩
    · exact absurd rfl sync
    · exact .inl rfl

def failing : Behaviour Nat Nat Unit :=
  .countdown (.fail (.message "out")) .silent

def deferred : Behaviour Nat Nat Unit :=
  { failing with
    call code queue value :=
      match code with
      | 0 => .done (.suspend (.fail (.message "out")))
      | n + 1 => .append queue { kind := .async, code := n }
        (.done (.suspend (.done (value + 1)))) }

theorem failingRecasts : failing.Recasts .deferring deferred where
  neutral := rfl
  recast := by
    rintro step _ ⟨-, rfl⟩ - - queue value
    cases code : step.code with
    | zero =>
      exact ⟨[], [], .failed (.message "out"), .failed (.message "out"), .nil, .same _, .ended,
        .handed [] [] _ (.suspend (.fail (.message "out"))) .ended (.wait _ _ .ended)⟩
    | succ n =>
      exact ⟨[(queue, { kind := .value, code := n })], [(queue, { kind := .async, code := n })],
        .returned (value + 1), .returned (value + 1),
        .cons ⟨rfl, Kind.noConfusion, rfl⟩ .nil, .same _, .append _ _ _ _ .ended,
        .handed [_] [] _ (.suspend (.done (value + 1))) (.append _ _ _ _ .ended)
          (.wait _ _ .ended)⟩
  bodies := by
    rintro step _ ⟨-, rfl⟩ value also
    rw [if_pos value] at also
    cases also
  calls := by
    rintro step _ ⟨sync, -⟩ async
    exact absurd async sync
  watch _ _ _ _ _ _ := .ended (.returned ()) (.returned ()) (.same _)
  recorder _ :=
    { startRun _ := .ended (.returned 0) (.returned 0) (.same _)
      startStep _ _ _ _ := .ended (.returned 0) (.returned 0) (.same _)
      completeStep _ _ _ _ _ _ _ := .ended (.returned ()) (.returned ()) (.same _)
      completeRun _ _ _ _ := .ended (.returned ()) (.returned ()) (.same _) }

theorem Behaviour.dispatchAgreesDeferred :
    let world : World Nat Nat Unit :=
      (World.append ⟨[{ name := "q" }], []⟩ 0 { kind := .value, code := 2 }).append 0
        { kind := .observer, code := 0 }
    let other : World Nat Nat Unit :=
      (World.append ⟨[{ name := "q" }], []⟩ 0 { kind := .async, code := 2 }).append 0
        { kind := .observer, code := 0 }
    let error := RunError.stepFailed "value step #2" (.message "out")
    failing.Recasts .deferring deferred ∧ World.UpToKinds .deferring world other ∧
      ∃ last final result,
        (Machine.start failing world [] 0 none).Runs failing
          (.ended last (.returned (.error error))) ∧
        (Machine.start deferred other [] 0 none).Runs deferred (.ended final result) ∧
        last.UpToKinds .deferring final ∧ Outcome.UpToKinds (.returned (.error error)) result := by
  intro world other error
  have worlds : World.UpToKinds .deferring world other :=
    ((World.namedUpToKinds .deferring "q").append 0 ⟨Kind.noConfusion, rfl⟩).append 0
      ⟨Kind.noConfusion, rfl⟩
  have path : (Machine.start failing world [] 0 none).Runs failing
      (.ended _ (.returned (.error error))) := Machine.pollRuns failing 40 _
  obtain ⟨final, result, also, alike⟩ :=
    ((Behaviour.dispatchAgrees failingRecasts).1 world other worlds 0 none).1 _ _ path
  exact ⟨failingRecasts, worlds, _, final, result, path, also, alike⟩

end Sequencer

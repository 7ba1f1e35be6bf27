import Mathlib.Logic.Relation
import Sequencer.Session

/-! Runs and outside code that take turns on one world. Any number of tasks are under way at once;
each step begins a task, advances one of them or lets one go, in any order, so every schedule of
polls, appends and cancellations is a path. What a session does is such a path as well. -/
namespace Sequencer

structure Task (κ ν ε : Type) where
  frame : Frame κ ν ε
  callers : List (Caller κ ν ε)

def Task.on (task : Task κ ν ε) (world : World κ ν ε) : Machine κ ν ε :=
  ⟨world, task.frame, task.callers⟩

def Machine.task (machine : Machine κ ν ε) : Task κ ν ε :=
  ⟨machine.frame, machine.callers⟩

namespace Progress

def world : Progress κ ν ε → World κ ν ε
  | .running machine | .suspended machine => machine.world
  | .ended world _ => world

def tasks : Progress κ ν ε → List (Task κ ν ε)
  | .running machine | .suspended machine => [machine.task]
  | .ended _ _ => []

end Progress

def Ending.code : Ending β → Program κ ν ε β
  | .returned answer => .done answer
  | .failed failure => .fail failure
  | .panicked payload => .panic payload

def Ending.map (f : β → γ) : Ending β → Ending γ
  | .returned answer => .returned (f answer)
  | .failed failure => .failed failure
  | .panicked payload => .panicked payload

structure Ensemble (κ ν ε : Type) where
  world : World κ ν ε
  tasks : List (Task κ ν ε)

namespace Ensemble

inductive Next (behaviour : Behaviour κ ν ε) : Ensemble κ ν ε → Ensemble κ ν ε → Prop where
  | outside (world tasks) (code : Program κ ν ε Unit) :
      Next behaviour ⟨world, tasks⟩ ⟨world, (Machine.outside world code).task :: tasks⟩
  | run (world tasks queue initial) (untaken : (world.queue queue).taken = false) :
      Next behaviour ⟨world, tasks⟩
        ⟨(Machine.start behaviour (world.take queue) [] queue initial).world,
          (Machine.start behaviour (world.take queue) [] queue initial).task :: tasks⟩
  | advance (world first task rest) :
      Next behaviour ⟨world, first ++ task :: rest⟩
        ⟨((task.on world).advance behaviour).world,
          first ++ ((task.on world).advance behaviour).tasks ++ rest⟩
  | drop (world first task rest) :
      Next behaviour ⟨world, first ++ task :: rest⟩ ⟨world, first ++ rest⟩

def Reaches (behaviour : Behaviour κ ν ε) : Ensemble κ ν ε → Ensemble κ ν ε → Prop :=
  Relation.ReflTransGen (Next behaviour)

end Ensemble

structure World.Blank (world : World κ ν ε) : Prop where
  silent : world.history = []
  untaken : ∀ queue, (world.queue queue).taken = false
  unused : ∀ queue, world.agenda queue = {}

theorem World.blankNamed (name : String) : (World.mk [{ name }] [] : World κ ν ε).Blank := by
  refine ⟨rfl, fun queue => ?_, fun queue => ?_⟩ <;> cases queue <;> rfl

namespace Ensemble

def Reachable (behaviour : Behaviour κ ν ε) (ensemble : Ensemble κ ν ε) : Prop :=
  ∃ world : World κ ν ε, world.Blank ∧ Reaches behaviour ⟨world, []⟩ ensemble

def Ends (ensemble : Ensemble κ ν ε) (stage : Stage κ ν) (ending : Ending (stage.Answer ε)) :
    Prop :=
  ∃ callers, ⟨⟨stage, ending.code⟩, callers⟩ ∈ ensemble.tasks

/-- The step with which a run of the queue ends and gives its result to its caller. -/
inductive Returns (behaviour : Behaviour κ ν ε) (queue : QueueId) (result : Except RunError ν) :
    Ensemble κ ν ε → Ensemble κ ν ε → Prop where
  | intro (world left first stage ending callers rest) (own : stage.queue? = some queue)
      (turn : Scheduler.conclude behaviour world stage ending = (left, .returned result)) :
      Returns behaviour queue result
        ⟨world, first ++ ⟨⟨stage, ending.code⟩, callers⟩ :: rest⟩
        ⟨left, first ++ (Machine.resume callers (left, .returned result)).tasks ++ rest⟩

variable {behaviour : Behaviour κ ν ε}

theorem Reachable.next {a b : Ensemble κ ν ε} (reached : Reachable behaviour a)
    (step : Next behaviour a b) : Reachable behaviour b := by
  obtain ⟨world, blank, path⟩ := reached
  exact ⟨world, blank, path.tail step⟩

theorem Reachable.later {a b : Ensemble κ ν ε} (reached : Reachable behaviour a)
    (path : Reaches behaviour a b) : Reachable behaviour b := by
  obtain ⟨world, blank, before⟩ := reached
  exact ⟨world, blank, before.trans path⟩

end Ensemble

namespace Machine

variable (behaviour : Behaviour κ ν ε)

theorem advanceEnding (world : World κ ν ε) (stage : Stage κ ν)
    (ending : Ending (stage.Answer ε)) (callers : List (Caller κ ν ε)) :
    (Machine.mk world ⟨stage, ending.code⟩ callers).advance behaviour =
      resume callers (Scheduler.conclude behaviour world stage ending) := by
  cases ending <;> rfl

theorem worldOfResume (callers : List (Caller κ ν ε)) (world : World κ ν ε)
    (turn : Sequencer.Turn κ ν ε) : (resume callers (world, turn)).world = world := by
  cases turn <;> cases callers <;> rfl

end Machine

namespace Ensemble

variable {behaviour : Behaviour κ ν ε}

theorem Returns.next {queue : QueueId} {result : Except RunError ν} {a b : Ensemble κ ν ε}
    (returns : Returns behaviour queue result a b) : Next behaviour a b := by
  obtain ⟨world, left, first, stage, ending, callers, rest, own, turn⟩ := returns
  have step : Next behaviour _ _ := .advance world first ⟨⟨stage, ending.code⟩, callers⟩ rest
  rw [Task.on, Machine.advanceEnding, turn, Machine.worldOfResume] at step
  exact step

variable (behaviour) in
theorem Returns.alone {queue : QueueId} {result : Except RunError ν} {a : Ensemble κ ν ε}
    {left : World κ ν ε} (stage : Stage κ ν) (ending : Ending (stage.Answer ε))
    (own : stage.queue? = some queue) (only : a.tasks = [⟨⟨stage, ending.code⟩, []⟩])
    (turn : Scheduler.conclude behaviour a.world stage ending = (left, .returned result)) :
    Returns behaviour queue result a ⟨left, []⟩ := by
  obtain ⟨world, tasks⟩ := a
  cases only
  exact .intro world left [] stage ending [] [] own turn

theorem pollReaches (fuel : Nat) (machine : Machine κ ν ε) (rest : List (Task κ ν ε)) :
    Reaches behaviour ⟨machine.world, machine.task :: rest⟩
      ⟨(machine.poll behaviour fuel).world, (machine.poll behaviour fuel).tasks ++ rest⟩ := by
  induction fuel generalizing machine with
  | zero => exact .refl
  | succ fuel ih =>
    have step : Next behaviour _ _ := .advance machine.world [] machine.task rest
    change Next _ _ ⟨(machine.advance behaviour).world, (machine.advance behaviour).tasks ++ rest⟩
      at step
    rw [Machine.poll]
    split
    · next next same =>
      rw [same] at step
      exact .head step (ih next)
    · exact .single step

theorem outsideReaches (fuel : Nat) (world : World κ ν ε) (code : Program κ ν ε Unit)
    (tasks : List (Task κ ν ε)) :
    Reaches behaviour ⟨world, tasks⟩
      ⟨((Machine.outside world code).poll behaviour fuel).world, tasks⟩ := by
  have begun : Next behaviour _ _ := .outside world tasks code
  have polled : Reaches behaviour _ _ := pollReaches fuel (Machine.outside world code) tasks
  refine .trans (.head begun polled) ?_
  cases (Machine.outside world code).poll behaviour fuel with
  | running machine => exact .single (.drop _ [] _ _)
  | suspended machine => exact .single (.drop _ [] _ _)
  | ended world outcome => exact .refl

theorem appendsReach (queue : QueueId) (steps : List (Step κ))
    (world : World κ ν ε) :
    Reaches behaviour ⟨world, []⟩
      ⟨steps.foldl (fun world step => world.append queue step) world, []⟩ := by
  induction steps generalizing world with
  | nil => exact .refl
  | cons step rest ih =>
    exact (outsideReaches 2 world (.append queue step (.done ())) []).trans (ih _)

theorem takenAfterAppends (queue id : QueueId) (steps : List (Step κ)) (world : World κ ν ε) :
    ((steps.foldl (fun world step => world.append queue step) world).queue id).taken =
      (world.queue id).taken := by
  induction steps generalizing world with
  | nil => rfl
  | cons step rest ih =>
    rw [List.foldl_cons, ih]
    simp only [World.append, World.record, World.queue, World.setAgenda, Queue.readAdjusted]
    split <;> simp_all

def lone (behaviour : Behaviour κ ν ε) (name : String) (steps : List (Step κ)) (fuel : Nat) :
    Ensemble κ ν ε :=
  let world : World κ ν ε :=
    steps.foldl (fun world step => world.append 0 step) ⟨[{ name }], []⟩
  let progress := (Machine.start behaviour (world.take 0) [] 0 none).poll behaviour fuel
  ⟨progress.world, progress.tasks⟩

variable (behaviour) in
theorem loneReachable (name : String) (steps : List (Step κ)) (fuel : Nat) :
    Reachable behaviour (lone behaviour name steps fuel) := by
  have appended : Reaches behaviour _ _ := appendsReach 0 steps ⟨[{ name }], []⟩
  have started : Next behaviour _ _ :=
    .run _ [] 0 none ((takenAfterAppends 0 0 steps _).trans ((World.blankNamed name).untaken 0))
  have polled (machine : Machine κ ν ε) : Reaches behaviour ⟨machine.world, [machine.task]⟩
      ⟨(machine.poll behaviour fuel).world, (machine.poll behaviour fuel).tasks⟩ := by
    simpa only [List.append_nil] using pollReaches fuel machine []
  exact ⟨_, World.blankNamed name, (appended.tail started).trans (polled _)⟩

end Ensemble

def Behaviour.countdown (bottom : Program Nat Nat Unit Nat) (recorder : Recorder Nat Nat Unit) :
    Behaviour Nat Nat Unit where
  neutral := 0
  body code queue value :=
    match code with
    | 0 => bottom
    | n + 1 => .append queue { kind := .value, code := n } (.done (value + 1))
  call _ _ value := .done (.done value)
  watch _ _ _ := .done ()
  recorder _ := recorder

namespace Session
open Ensemble Script

variable (setup : Setup) (fuel : Nat)

theorem blankStart : setup.start.Blank where
  silent := rfl
  untaken queue := by
    simp only [World.queue, Setup.start, List.getElem?_map]
    cases setup.queues[queue]? <;> rfl
  unused queue := by
    simp only [World.agenda, World.queue, Setup.start, List.getElem?_map]
    cases setup.queues[queue]? <;> rfl

theorem interjectReaches (queue : QueueId) (actions : List Action) (session : Session)
    (tasks : List (Task Spec Datum Note)) :
    Reaches setup.behaviour ⟨session, tasks⟩
      ⟨interject setup fuel queue actions session, tasks⟩ := by
  have path : Reaches setup.behaviour _ _ := outsideReaches fuel session
    ((playAll setup.shape queue actions none).bind fun _ => .done ()) tasks
  unfold interject
  dsimp only
  split <;> simp_all only [Progress.world]

theorem driveReaches (queue : QueueId) (polling : Polling) (rounds polls : Nat)
    (machine : Machine Spec Datum Note) :
    Reaches setup.behaviour ⟨machine.world, [machine.task]⟩
      ⟨(drive setup fuel queue polling rounds polls machine).1, []⟩ := by
  induction rounds generalizing polls machine with
  | zero => exact .single (.drop _ [] _ [])
  | succ rounds ih =>
    have polled : Reaches setup.behaviour _ _ := pollReaches fuel machine []
    unfold drive
    cases poll : machine.poll setup.behaviour fuel with
    | running next =>
      rw [poll] at polled
      exact .tail polled (.drop _ [] _ [])
    | ended world outcome =>
      rw [poll] at polled
      exact polled
    | suspended next =>
      rw [poll] at polled
      have interjected := interjectReaches setup fuel queue
        ((polling.between.lookup (polls + 1)).getD []) next.world [next.task]
      refine .trans (polled.trans interjected) ?_
      dsimp only
      split
      · exact .single (.drop _ [] _ [])
      · exact ih (polls + 1) { next with world := _ }

theorem takeReaches {behaviour : Behaviour κ ν ε} (queue : QueueId) (world : World κ ν ε)
    (untaken : (world.queue queue).taken = false) :
    Reaches behaviour ⟨world, []⟩ ⟨world.take queue, []⟩ := by
  have path : Reaches behaviour _ _ := outsideReaches 2 world (.discard queue fun _ => .done ()) []
  simpa [Machine.outside, Machine.poll, Machine.advance, untaken, Machine.resume,
    Scheduler.conclude, Progress.world] using path

theorem performReaches (session : Session) (operation : Operation) :
    Reaches setup.behaviour ⟨session, []⟩ ⟨(perform setup fuel session operation).1, []⟩ := by
  cases operation with
  | state queue => exact .refl
  | push queue specs viaHandle =>
    simp only [perform]
    split
    · exact .refl
    · exact appendsReach queue _ session
  | run queue initial polling =>
    simp only [perform]
    split
    · exact .refl
    · next untaken =>
      have taken : Reaches setup.behaviour _ _ :=
        takeReaches queue session (Bool.eq_false_iff.mpr untaken)
      split
      · exact taken
      · unfold run
        split
        · exact taken
        · have started : Next setup.behaviour _ _ :=
            .run session [] queue initial (Bool.eq_false_iff.mpr untaken)
          exact .head started (driveReaches setup fuel queue polling fuel 0 _)

theorem sessionReachable (operations : List Operation) :
    Reachable setup.behaviour
      ⟨operations.foldl (fun session operation => (perform setup fuel session operation).1)
        setup.start, []⟩ := by
  refine ⟨setup.start, blankStart setup, ?_⟩
  generalize setup.start = session
  induction operations generalizing session with
  | nil => exact .refl
  | cons operation rest ih => exact (performReaches setup fuel session operation).trans (ih _)

end Session

end Sequencer

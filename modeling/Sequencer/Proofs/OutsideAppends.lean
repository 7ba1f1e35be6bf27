import Sequencer.Proofs.Cancellation
import Sequencer.Proofs.Weaving

/-! Appends from outside. Whoever polls a run may append to a queue while the run is suspended. What
comes of that is what comes of a run without them, in which the suspended code appends the same
steps itself as soon as it goes on: the worlds are the same at every step of the run, and so are the
stages, the polls and the outcome. -/
namespace Sequencer

variable {κ ν ε : Type}

/- Code may act otherwise each time it is called: what it does depends on all that has happened. A
behaviour is a conduct that does not look. -/
abbrev Conduct (κ ν ε : Type) := World κ ν ε → Behaviour κ ν ε

def World.appendAll (target : QueueId) (steps : List (Step κ)) (world : World κ ν ε) :
    World κ ν ε :=
  steps.foldl (fun world step => world.append target step) world

namespace Program

theorem bindAppendAll (queue : QueueId) (steps : List (Step κ)) (next : Program κ ν ε β)
    (f : β → Program κ ν ε γ) :
    (appendAll queue steps next).bind f = appendAll queue steps (next.bind f) := by
  induction steps with
  | nil => rfl
  | cons step rest ih => exact congrArg (append queue step) ih

theorem appendAllMore (queue : QueueId) (steps more : List (Step κ)) (next : Program κ ν ε β) :
    appendAll queue (steps ++ more) next = appendAll queue steps (appendAll queue more next) :=
  List.foldr_append

end Program

namespace Conduct

variable (conduct : Conduct κ ν ε) (target : QueueId) (between : Nat → List (Step κ))

/- One step of a run with the number of its polls so far; where it is suspended, the next poll. What
comes from outside before that is given by the number of the suspension. -/
def drive : Nat × Progress κ ν ε → Nat × Progress κ ν ε
  | (polls, .running machine) => (polls, machine.advance (conduct machine.world))
  | (polls, .suspended machine) =>
    (polls + 1,
      .running { machine with world := machine.world.appendAll target (between (polls + 1)) })
  | (polls, .ended world outcome) => (polls, .ended world outcome)

def driven (start : Machine κ ν ε) : Nat → Nat × Progress κ ν ε
  | 0 => (0, .running start)
  | time + 1 => conduct.drive target between (driven start time)

def due : Nat × Progress κ ν ε → Option (List (Step κ))
  | (polls, .suspended _) => some (between (polls + 1))
  | _ => none

theorem dueIdle (polls : Nat) (progress : Progress κ ν ε) :
    (due between (polls, progress)).isSome = progress.idle := by
  cases progress <;> rfl

def run (world : World κ ν ε) (queue : QueueId) (initial : Option ν) (time : Nat) :
    Nat × Progress κ ν ε :=
  conduct.driven target between (Machine.start (conduct world) world [] queue initial) time

variable (start : Machine κ ν ε) (world : World κ ν ε)

def loom : Loom κ where
  target := target
  due time := due between (conduct.driven target between start time)
  depth time := (conduct.driven target between start time).2.depth

noncomputable def called : Nat :=
  sInf {time | world.history.length <
    (conduct.driven target between start time).2.world.history.length}

noncomputable def own : Conduct κ ν ε := fun world =>
  (conduct world).weave (conduct.loom target between start)
    (conduct.called target between start world)

theorem ownLaced : (conduct world).Laced target (conduct.own target between start world) :=
  Behaviour.weaveLaced (conduct.loom target between start) _ (conduct world)

theorem appendAllSince (steps : List (Step κ)) : world.Since (world.appendAll target steps) := by
  induction steps generalizing world with
  | nil => exact World.sinceSame
  | cons step rest ih =>
    exact ((World.sinceSet target _).trans (World.sinceRecord _)).trans
      (ih (world.append target step))

theorem drivenSince (time : Nat) :
    (conduct.driven target between start time).2.world.Since
      (conduct.driven target between start (time + 1)).2.world := by
  rw [driven]
  obtain ⟨polls, progress⟩ := conduct.driven target between start time
  cases progress with
  | running machine => exact machine.advanceSince (conduct machine.world)
  | suspended machine => exact appendAllSince target machine.world (between (polls + 1))
  | ended world outcome => exact World.sinceSame

theorem historyGrows : Monotone fun time =>
    (conduct.driven target between start time).2.world.history.length :=
  monotone_nat_of_le_succ fun time => (conduct.drivenSince target between start time).length

theorem calledNext (time : Nat)
    (longer : (conduct.driven target between start time).2.world.history.length <
      (conduct.driven target between start (time + 1)).2.world.history.length) :
    conduct.called target between start (conduct.driven target between start time).2.world =
      time + 1 := by
  refine IsLeast.csInf_eq ⟨longer, fun later grown => ?_⟩
  refine Nat.succ_le_of_lt (Nat.lt_of_not_le fun earlier => ?_)
  exact absurd grown (Nat.not_lt_of_le (conduct.historyGrows target between start earlier))

theorem drivenAppends (between : Nat → List (Step κ)) {stage : Stage κ ν}
    {next : Program κ ν ε (stage.Answer ε)} {callers : List (Caller κ ν ε)} {polls : Nat}
    (steps : List (Step κ)) {time : Nat} {world : World κ ν ε}
    (here : conduct.driven target between start time =
      (polls, .running ⟨world, ⟨stage, .appendAll target steps next⟩, callers⟩)) :
    conduct.driven target between start (time + steps.length) =
      (polls, .running ⟨world.appendAll target steps, ⟨stage, next⟩, callers⟩) := by
  induction steps generalizing time world with
  | nil => exact here
  | cons step rest ih =>
    have later : conduct.driven target between start (time + 1) =
        (polls, .running ⟨world.append target step, ⟨stage, .appendAll target rest next⟩,
          callers⟩) := by
      rw [driven, here]
      rfl
    rw [List.length_cons, Nat.add_comm rest.length, ← Nat.add_assoc]
    exact ih later

section Step

variable {start world} {time polls : Nat} {progress : Progress κ ν ε}

theorem depthAt (here : conduct.driven target between start time = (polls, progress)) :
    (conduct.loom target between start).depth time = progress.depth :=
  congrArg (fun now => now.2.depth) here

theorem dueAt (here : conduct.driven target between start time = (polls, progress)) :
    (conduct.loom target between start).due time = due between (polls, progress) :=
  congrArg (due between) here

theorem advanceOwn {machine : Machine κ ν ε}
    (here : conduct.driven target between start time = (polls, .running machine))
    (next : conduct.driven target between start (time + 1) = (polls, progress))
    (goes : machine.advance (conduct machine.world) = progress) :
    (machine.weave (conduct.loom target between start) time).advance
        (conduct.own target between start machine.world) =
      progress.weave (conduct.loom target between start) (time + 1) := by
  subst goes
  refine Machine.advanceWoven _ machine (conduct.depthAt target between here)
    (conduct.depthAt target between next) ?_ fun longer => ?_
  · rw [conduct.dueAt target between next, dueIdle]
  · have called := conduct.calledNext target between start time
    rw [here, next] at called
    exact called longer

theorem driveOwn {other : Machine κ ν ε} {clock : Nat}
    (here : conduct.driven target between start time = (polls, progress))
    (there : (conduct.own target between start).driven target (fun _ => []) other clock =
      (polls, progress.weave (conduct.loom target between start) time)) :
    (conduct.own target between start).driven target (fun _ => []) other
        (clock + 1 + (((conduct.loom target between start).due time).getD []).length) =
      ((conduct.driven target between start (time + 1)).1,
        (conduct.driven target between start (time + 1)).2.weave (conduct.loom target between start)
          (time + 1)) := by
  have next : conduct.driven target between start (time + 1) =
      conduct.drive target between (polls, progress) := by rw [driven, here]
  have onward : (conduct.own target between start).driven target (fun _ => []) other (clock + 1) =
      (conduct.own target between start).drive target (fun _ => [])
        (polls, progress.weave (conduct.loom target between start) time) := by rw [driven, there]
  rw [conduct.dueAt target between here, next]
  cases progress with
  | running machine =>
    exact onward.trans (congrArg (polls, ·) (conduct.advanceOwn target between here next rfl))
  | ended world outcome => exact onward
  | suspended machine =>
    obtain ⟨world, ⟨stage, code⟩, callers⟩ := machine
    have depth : (conduct.loom target between start).depth (time + 1) = callers.length :=
      conduct.depthAt target between next
    have due := conduct.dueAt target between here
    rw [Progress.weave, Loom.held, due] at onward
    refine (drivenAppends _ target _ _ (between (polls + 1)) onward).trans ?_
    rw [← Loom.callersLater _ depth.ge]
    rfl

end Step

theorem drivenOwn (time : Nat) :
    (conduct.own target between start).driven target (fun _ => [])
        (start.weave (conduct.loom target between start) 0)
        ((conduct.loom target between start).clock time) =
      ((conduct.driven target between start time).1,
        (conduct.driven target between start time).2.weave (conduct.loom target between start)
          time) := by
  induction time with
  | zero => rfl
  | succ time ih => exact conduct.driveOwn target between rfl ih

/- Two runs with the same events behind them, of which one has appends from outside still to come
where the code of the other makes them. -/
inductive Meets : Nat × Progress κ ν ε → Nat × Progress κ ν ε → Prop where
  | running (polls world stage first second callers others)
      (code : Program.Laced target (stage.Meets target) first second)
      (below : List.Forall₂ (Caller.Laced target) callers others) :
      Meets (polls, .running ⟨world, ⟨stage, first⟩, callers⟩)
        (polls, .running ⟨world, ⟨stage, second⟩, others⟩)
  | suspended (polls world stage first second callers others)
      (code : Program.Laced target (stage.Meets target) first second)
      (below : List.Forall₂ (Caller.Laced target) callers others) :
      Meets (polls, .suspended ⟨world, ⟨stage, first⟩, callers⟩)
        (polls, .suspended ⟨world, ⟨stage, .appendAll target (between (polls + 1)) second⟩, others⟩)
  | ended (polls world outcome) : Meets (polls, .ended world outcome) (polls, .ended world outcome)

theorem wovenMeets {time polls : Nat} {progress : Progress κ ν ε}
    (here : conduct.driven target between start time = (polls, progress)) :
    Meets target between (polls, progress)
      (polls, progress.weave (conduct.loom target between start) time) := by
  have waiting (callers : List (Caller κ ν ε)) : List.Forall₂ (Caller.Laced target) callers
      ((conduct.loom target between start).callers time callers) :=
    (conduct.loom target between start).callersLaced time callers
  cases progress with
  | running machine =>
    obtain ⟨world, ⟨stage, code⟩, callers⟩ := machine
    exact .running _ _ _ _ _ _ _ (stage.codeLaced (conduct.loom target between start) code time)
      (waiting callers)
  | suspended machine =>
    obtain ⟨world, ⟨stage, code⟩, callers⟩ := machine
    rw [Progress.weave, Loom.held, conduct.dueAt target between here]
    exact .suspended _ _ _ _ _ _ _
      (stage.codeLaced (conduct.loom target between start) code (time + 1)) (waiting callers)
  | ended world outcome => exact .ended polls world outcome

theorem calledFirst (queue : QueueId) (initial : Option ν) :
    conduct.called target between (Machine.start (conduct world) world [] queue initial) world =
      0 :=
  IsLeast.csInf_eq ⟨Nat.lt_succ_self world.history.length, fun _ _ => Nat.zero_le _⟩

/-- Appends from outside make no other run than code does that makes them. To any run, polled again
after each suspension with any steps appended in between, there is code that differs in appends
after its suspensions alone, and a run of that code with nothing from outside. What the first run is
at a time, the second is at a time on its clock: as many polls, the same world, stages and outcome.
Where they are suspended, the code of the second goes on with appends of the steps that come from
outside in the first. -/
theorem outsideAppendsOwn (queue : QueueId) (initial : Option ν) :
    ∃ own : Conduct κ ν ε, (∀ seen, (conduct seen).Laced target (own seen)) ∧
      ∃ clock : Nat → Nat, StrictMono clock ∧ ∀ time,
        Meets target between (conduct.run target between world queue initial time)
          (own.run target (fun _ => []) world queue initial (clock time)) := by
  have first := conduct.calledFirst target between world queue initial
  generalize same : Machine.start (conduct world) world [] queue initial = start at first
  refine ⟨conduct.own target between start, fun seen => conduct.ownLaced target between start seen,
    (conduct.loom target between start).clock, Loom.clockStrict _, fun time => ?_⟩
  have begun : Machine.start (conduct.own target between start world) world [] queue initial =
      start.weave (conduct.loom target between start) 0 := by
    rw [own, first, ← same]
    rfl
  rw [run, run, begun, same, conduct.drivenOwn target between start time]
  exact conduct.wovenMeets target between start rfl

theorem pollDriven {behaviour : Behaviour κ ν ε} {machine : Machine κ ν ε} {time polls : Nat}
    (here : driven (fun _ => behaviour) target between start time = (polls, .running machine))
    (fuel : Nat) : ∃ later, driven (fun _ => behaviour) target between start later =
      (polls, machine.poll behaviour fuel) := by
  induction fuel generalizing machine time with
  | zero => exact ⟨time, here⟩
  | succ fuel ih =>
    have next : driven (fun _ => behaviour) target between start (time + 1) =
        (polls, machine.advance behaviour) := by
      rw [driven, here]
      rfl
    rw [Machine.poll]
    split
    · next on advanced =>
      rw [advanced] at next
      exact ih next
    · exact ⟨time + 1, next⟩

end Conduct

namespace Session
open Script

variable {setup : Setup} {fuel : Nat} {queue : QueueId}

theorem playPushes (shape : Shape) (queue : QueueId) (pushes : List (List Spec))
    (value : Option Datum) :
    playAll shape queue (pushes.map (.push none)) value =
      .appendAll queue (pushes.flatMap Spec.steps) (.done value) := by
  induction pushes with
  | nil => simp only [List.map_nil, playAll]; rfl
  | cons specs rest ih =>
    rw [List.map_cons, playAll, Action.play, Program.bindAppendAll, Program.bind, ih,
      List.flatMap_cons, Program.appendAllMore]
    rfl

theorem pollAppends (behaviour : Behaviour κ ν ε) (queue : QueueId) (steps : List (Step κ))
    {fuel : Nat} (enough : steps.length < fuel) (world : World κ ν ε) :
    (Machine.outside world (.appendAll queue steps (.done ()))).poll behaviour fuel =
      .ended (world.appendAll queue steps) .left := by
  induction steps generalizing fuel world with
  | nil =>
    obtain ⟨fuel, rfl⟩ := Nat.exists_eq_succ_of_ne_zero (Nat.ne_zero_of_lt enough)
    rfl
  | cons step rest ih =>
    obtain ⟨fuel, rfl⟩ := Nat.exists_eq_succ_of_ne_zero (Nat.ne_zero_of_lt enough)
    exact ih (Nat.lt_of_succ_lt_succ enough) (world.append queue step)

theorem interjectPushes (pushes : List (List Spec))
    (enough : (pushes.flatMap Spec.steps).length < fuel) (session : Session) :
    interject setup fuel queue (pushes.map (.push none)) session =
      session.appendAll queue (pushes.flatMap Spec.steps) := by
  rw [interject, playPushes, Program.bindAppendAll, Program.bind,
    pollAppends setup.behaviour queue _ enough]

theorem Held.driven {between : List (Nat × List Action)} {pushes : Nat → List (List Spec)}
    (pushed : ∀ polls, (between.lookup polls).getD [] = (pushes polls).map (.push none))
    (enough : ∀ polls, ((pushes polls).flatMap Spec.steps).length < fuel)
    {start machine : Machine Spec Datum Note} {polls : Nat}
    (held : Held setup fuel queue between start polls machine) :
    ∃ time, Conduct.driven (fun _ => setup.behaviour) queue
        (fun polls => (pushes polls).flatMap Spec.steps) start time =
      (polls, .running machine) := by
  induction held with
  | start => exact ⟨0, rfl⟩
  | again polls machine next _ poll ih =>
    obtain ⟨time, here⟩ := ih
    obtain ⟨later, there⟩ := Conduct.pollDriven queue _ start here fuel
    refine ⟨later + 1, ?_⟩
    rw [Conduct.driven, there, poll, pushed, interjectPushes _ (enough _)]
    rfl

end Session

end Sequencer

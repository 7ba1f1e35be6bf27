import Mathlib.Order.Lattice.Nat
import Sequencer.Proofs.Growth
import Sequencer.Proofs.Polling

/-! Appends woven into code. A loom says, by the time of a run's steps, what reaches a queue from
outside while the run is suspended, and how many callers wait. Code that is woven on it appends the
same steps itself, right after the suspension. Woven code cannot tell the time: each program is
woven for the time at which it is called, and what waits for another run, for the time at which that
run is done. -/
namespace Sequencer

variable {κ ν ε β : Type}

namespace Program

inductive Laced (target : QueueId) (meets : β → β → Prop) :
    Program κ ν ε β → Program κ ν ε β → Prop where
  | done (first second) (meet : meets first second) :
      Laced target meets (.done first) (.done second)
  | fail (failure) : Laced target meets (.fail failure) (.fail failure)
  | panic (payload) : Laced target meets (.panic payload) (.panic payload)
  | append (queue step first second) (on : Laced target meets first second) :
      Laced target meets (.append queue step first) (.append queue step second)
  | ask (queue first second) (on : ∀ status, Laced target meets (first status) (second status)) :
      Laced target meets (.ask queue first) (.ask queue second)
  | look (queue first second)
      (on : ∀ snapshot, Laced target meets (first snapshot) (second snapshot)) :
      Laced target meets (.look queue first) (.look queue second)
  | note (remark first second) (on : Laced target meets first second) :
      Laced target meets (.note remark first) (.note remark second)
  | suspend (steps first second) (on : Laced target meets first second) :
      Laced target meets (.suspend first) (.suspend (.appendAll target steps second))
  | discard (queue first second) (on : ∀ taken, Laced target meets (first taken) (second taken)) :
      Laced target meets (.discard queue first) (.discard queue second)
  | run (queue initial first second)
      (on : ∀ result, Laced target meets (first result) (second result)) :
      Laced target meets (.run queue initial first) (.run queue initial second)

end Program

/- `due` is there for the times at which the run is suspended, `depth` counts its callers. -/
structure Loom (κ : Type) where
  target : QueueId
  due : Nat → Option (List (Step κ))
  depth : Nat → Nat

namespace Loom

variable (loom : Loom κ)

noncomputable def back (time depth : Nat) : Nat :=
  sInf {later | time < later ∧ loom.depth later ≤ depth}

variable {time depth : Nat}

theorem backNext (up : loom.depth (time + 1) ≤ depth) : loom.back time depth = time + 1 :=
  IsLeast.csInf_eq ⟨⟨Nat.lt_succ_self time, up⟩, fun _ later => later.1⟩

theorem backLater (below : depth < loom.depth (time + 1)) :
    loom.back (time + 1) depth = loom.back time depth := by
  unfold back
  congr 1
  ext later
  constructor
  · rintro ⟨after, up⟩
    exact ⟨Nat.lt_of_succ_lt after, up⟩
  · rintro ⟨after, up⟩
    refine ⟨Nat.lt_of_le_of_ne after fun same => ?_, up⟩
    subst same
    exact absurd up (Nat.not_le_of_lt below)

def clock : Nat → Nat
  | 0 => 0
  | time + 1 => clock time + 1 + ((loom.due time).getD []).length

theorem clockStrict : StrictMono loom.clock :=
  strictMono_nat_of_lt_succ fun time => by rw [clock]; omega

def held (code : Nat → Program κ ν ε β) (time : Nat) : Program κ ν ε β :=
  match loom.due time with
  | some steps => .appendAll loom.target steps (code (time + 1))
  | none => code time

theorem heldFree {code : Nat → Program κ ν ε β} (free : (loom.due time).isSome = false) :
    loom.held code time = code time := by
  rw [held, Option.not_isSome_iff_eq_none.mp (Bool.eq_false_iff.mp free)]

end Loom

noncomputable def Program.weave (loom : Loom κ) (f : Nat → β → β) :
    Program κ ν ε β → Nat → Program κ ν ε β
  | done answer, time => done (f (time + 1) answer)
  | fail failure, _ => fail failure
  | panic payload, _ => panic payload
  | append queue step next, time => append queue step (next.weave loom f (time + 1))
  | ask queue next, time => ask queue fun status => (next status).weave loom f (time + 1)
  | look queue next, time => look queue fun snapshot => (next snapshot).weave loom f (time + 1)
  | note remark next, time => note remark (next.weave loom f (time + 1))
  | suspend next, time => suspend (loom.held (fun later => next.weave loom f later) (time + 1))
  | discard queue next, time => discard queue fun taken => (next taken).weave loom f (time + 1)
  | run queue initial next, time =>
    run queue initial fun result => (next result).weave loom f (loom.back time (loom.depth time))

theorem Program.weaveLaced (loom : Loom κ) {meets : β → β → Prop} {f : Nat → β → β}
    (meet : ∀ time answer, meets answer (f time answer)) (program : Program κ ν ε β) (time : Nat) :
    program.Laced loom.target meets (program.weave loom f time) := by
  induction program generalizing time with
  | done answer => exact .done answer _ (meet _ answer)
  | fail failure => exact .fail failure
  | panic payload => exact .panic payload
  | append queue step next ih => exact .append queue step next _ (ih _)
  | ask queue next ih => exact .ask queue next _ fun status => ih status _
  | look queue next ih => exact .look queue next _ fun snapshot => ih snapshot _
  | note remark next ih => exact .note remark next _ (ih _)
  | suspend next ih =>
    rw [weave, Loom.held]
    split
    · exact .suspend _ next _ (ih _)
    · exact .suspend [] next _ (ih _)
  | discard queue next ih => exact .discard queue next _ fun taken => ih taken _
  | run queue initial next ih => exact .run queue initial next _ fun result => ih result _

theorem Program.weaveSame (loom : Loom κ) (program : Program κ ν ε β) (time : Nat) :
    program.Laced loom.target Eq (program.weave loom (fun _ answer => answer) time) :=
  program.weaveLaced loom (fun _ _ => by rfl) time

noncomputable def Stage.weave (loom : Loom κ) :
    (stage : Stage κ ν) → Nat → stage.Answer ε → stage.Answer ε
  | .calling _ _ _ => fun time program => program.weave loom (fun _ value => value) time
  | _ => fun _ answer => answer

def Stage.Meets (target : QueueId) :
    (stage : Stage κ ν) → stage.Answer ε → stage.Answer ε → Prop
  | .calling _ _ _ => Program.Laced target Eq
  | _ => Eq

theorem Stage.weaveMeets (loom : Loom κ) (stage : Stage κ ν) (time : Nat)
    (answer : stage.Answer ε) : stage.Meets loom.target answer (stage.weave loom time answer) := by
  cases stage with
  | calling run step info => exact Program.weaveSame loom answer time
  | _ => exact rfl

theorem Stage.codeLaced (loom : Loom κ) (stage : Stage κ ν)
    (code : Program κ ν ε (stage.Answer ε)) (time : Nat) :
    code.Laced loom.target (stage.Meets loom.target) (code.weave loom (stage.weave loom) time) :=
  code.weaveLaced loom (stage.weaveMeets loom) time

noncomputable def Frame.weave (loom : Loom κ) (time : Nat) (frame : Frame κ ν ε) : Frame κ ν ε :=
  ⟨frame.stage, frame.code.weave loom (frame.stage.weave loom) time⟩

noncomputable def Turn.weave (loom : Loom κ) (time : Nat) : Turn κ ν ε → Turn κ ν ε
  | .enter frame => .enter (frame.weave loom time)
  | turn => turn

namespace Behaviour

abbrev Laced (target : QueueId) (first second : Behaviour κ ν ε) : Prop :=
  first.Related (Program.Laced target Eq) (Program.Laced target (Program.Laced target Eq)) second

noncomputable def weave (loom : Loom κ) (time : Nat) (behaviour : Behaviour κ ν ε) :
    Behaviour κ ν ε :=
  behaviour.recast (fun program => program.weave loom (fun _ answer => answer) time)
    fun program => program.weave loom
      (fun later given => given.weave loom (fun _ answer => answer) later) time

theorem weaveLaced (loom : Loom κ) (time : Nat) (behaviour : Behaviour κ ν ε) :
    behaviour.Laced loom.target (behaviour.weave loom time) :=
  relatedRecast (fun program => program.weaveSame loom time)
    (fun program => program.weaveLaced loom (fun later given => given.weaveSame loom later) time)
    behaviour

end Behaviour

namespace Scheduler

variable (loom : Loom κ) {time moment : Nat} {behaviour : Behaviour κ ν ε} {world : World κ ν ε}

theorem frameWoven (summons : Summons κ ν) :
    summons.frame (behaviour.weave loom time) = (summons.frame behaviour).weave loom time := by
  cases summons <;> rfl

/- Code that is called adds to the history. So it need be woven for the right time only where the
library leaves more history behind than there was. -/
theorem uniformWoven {does : Behaviour κ ν ε → World κ ν ε × Turn κ ν ε}
    (uniform : Uniform world does)
    (called : world.history.length < (does behaviour).1.history.length → moment = time) :
    does (behaviour.weave loom moment) =
      ((does behaviour).1, (does behaviour).2.weave loom time) := by
  obtain ⟨left, upshot, same, -, longer, -⟩ := uniform
  rw [same] at called
  rw [same, same]
  cases upshot with
  | summon summons =>
    obtain rfl := called (longer rfl)
    exact congrArg (fun frame => (left, Turn.enter frame)) (frameWoven loom summons)
  | returned _ | unwound _ | left => rfl

end Scheduler

theorem Scheduler.concludeWoven (loom : Loom κ) {time moment : Nat} {behaviour : Behaviour κ ν ε}
    {world : World κ ν ε} (stage : Stage κ ν) (ending : Ending (stage.Answer ε))
    (called : world.history.length < (conclude behaviour world stage ending).1.history.length →
      moment = time) :
    conclude (behaviour.weave loom moment) world stage (ending.map (stage.weave loom time)) =
      ((conclude behaviour world stage ending).1,
        (conclude behaviour world stage ending).2.weave loom time) := by
  by_cases handsOver : stage.HandsOver ending
  · cases handsOver
    rfl
  · have same : ending.map (stage.weave loom time) = ending := by
      cases stage with
      | calling run step info =>
        cases ending with
        | returned program => exact absurd (.program run step info program) handsOver
        | failed failure | panicked payload => rfl
      | _ => cases ending <;> rfl
    rw [same]
    exact uniformWoven loom (concludeUniform world stage ending handsOver) called

inductive Caller.Laced (target : QueueId) : Caller κ ν ε → Caller κ ν ε → Prop where
  | mk (stage first second)
      (on : ∀ result, (first result).Laced target (stage.Meets target) (second result)) :
      Laced target ⟨stage, first⟩ ⟨stage, second⟩

namespace Loom

variable (loom : Loom κ)

noncomputable def callers (time : Nat) : List (Caller κ ν ε) → List (Caller κ ν ε)
  | [] => []
  | caller :: rest =>
    ⟨caller.stage, fun result => (caller.resume result).weave loom (caller.stage.weave loom)
      (loom.back time rest.length)⟩ :: callers time rest

theorem callersLater {time : Nat} {callers : List (Caller κ ν ε)}
    (below : callers.length ≤ loom.depth (time + 1)) :
    loom.callers (time + 1) callers = loom.callers time callers := by
  induction callers with
  | nil => rfl
  | cons caller rest ih =>
    rw [Loom.callers, Loom.callers, loom.backLater below, ih (Nat.le_of_lt below)]

theorem callersLaced (time : Nat) (callers : List (Caller κ ν ε)) :
    List.Forall₂ (Caller.Laced loom.target) callers (loom.callers time callers) := by
  induction callers with
  | nil => exact .nil
  | cons caller rest ih =>
    exact .cons (.mk caller.stage _ _ fun result =>
      caller.stage.codeLaced loom (caller.resume result) _) ih

theorem callersAwait (time : Nat) (callers : List (Caller κ ν ε)) :
    ((loom.callers time callers).all fun caller => caller.stage.awaits) =
      callers.all fun caller => caller.stage.awaits := by
  induction callers with
  | nil => rfl
  | cons caller rest ih => rw [Loom.callers, List.all_cons, List.all_cons, ih]

end Loom

noncomputable def Machine.weave (loom : Loom κ) (time : Nat) (machine : Machine κ ν ε) :
    Machine κ ν ε :=
  ⟨machine.world, machine.frame.weave loom time, loom.callers time machine.callers⟩

namespace Progress

def depth : Progress κ ν ε → Nat
  | .running machine | .suspended machine => machine.callers.length
  | .ended _ _ => 0

noncomputable def weave (loom : Loom κ) (time : Nat) : Progress κ ν ε → Progress κ ν ε
  | .running machine => .running (machine.weave loom time)
  | .suspended ⟨world, ⟨stage, code⟩, callers⟩ =>
    .suspended ⟨world, ⟨stage, loom.held (code.weave loom (stage.weave loom)) time⟩,
      loom.callers time callers⟩
  | .ended world outcome => .ended world outcome

end Progress

namespace Machine

variable (loom : Loom κ) {time moment : Nat} {behaviour : Behaviour κ ν ε}

theorem resumeWoven (callers : List (Caller κ ν ε)) (world : World κ ν ε) (turn : Turn κ ν ε)
    (there : loom.depth (time + 1) = (resume callers (world, turn)).depth) :
    resume (loom.callers time callers) (world, turn.weave loom (time + 1)) =
      (resume callers (world, turn)).weave loom (time + 1) := by
  cases turn with
  | enter frame =>
    exact congrArg (fun others => Progress.running ⟨world, frame.weave loom (time + 1), others⟩)
      (loom.callersLater there.ge).symm
  | left => rfl
  | returned result =>
    cases callers with
    | nil => rfl
    | cons caller rest =>
      have up : loom.depth (time + 1) = rest.length := there
      simp only [Turn.weave, Loom.callers, resume, Progress.weave, Machine.weave, Frame.weave,
        loom.backNext up.le, loom.callersLater up.ge]
  | unwound payload =>
    cases callers with
    | nil => rfl
    | cons caller rest =>
      have up : loom.depth (time + 1) = rest.length := there
      simp only [Turn.weave, Loom.callers, resume, Progress.weave, Machine.weave, Frame.weave,
        Program.weave, loom.callersLater up.ge]

theorem weaveAwaits (machine : Machine κ ν ε) :
    (machine.weave loom time).awaits = machine.awaits :=
  congrArg (machine.frame.stage.awaits && ·) (loom.callersAwait time machine.callers)

theorem endWoven {callers : List (Caller κ ν ε)} {world : World κ ν ε} {stage : Stage κ ν}
    (ending : Ending (stage.Answer ε))
    (there : loom.depth (time + 1) =
      (resume callers (Scheduler.conclude behaviour world stage ending)).depth)
    (called : world.history.length <
      (resume callers (Scheduler.conclude behaviour world stage ending)).world.history.length →
        moment = time + 1) :
    resume (loom.callers time callers) (Scheduler.conclude (behaviour.weave loom moment) world stage
        (ending.map (stage.weave loom (time + 1)))) =
      (resume callers (Scheduler.conclude behaviour world stage ending)).weave loom (time + 1) := by
  rw [worldOfResume] at called
  rw [Scheduler.concludeWoven loom stage ending called]
  exact resumeWoven loom callers _ _ there

theorem goesWoven {callers : List (Caller κ ν ε)} {stage : Stage κ ν}
    (next : Program κ ν ε (stage.Answer ε)) (world : World κ ν ε)
    (there : loom.depth (time + 1) = callers.length) :
    Progress.running ⟨world, ⟨stage, next.weave loom (stage.weave loom) (time + 1)⟩,
        loom.callers time callers⟩ =
      (Progress.running ⟨world, ⟨stage, next⟩, callers⟩).weave loom (time + 1) := by
  rw [← loom.callersLater there.ge]
  rfl

/- A step of woven code, where the loom has what happens at the step. The behaviour matters only if
code is called, so it may be woven for any other time if none is. -/
theorem advanceWoven (machine : Machine κ ν ε) (here : loom.depth time = machine.callers.length)
    (there : loom.depth (time + 1) = (machine.advance behaviour).depth)
    (due : (loom.due (time + 1)).isSome = (machine.advance behaviour).idle)
    (called : machine.world.history.length < (machine.advance behaviour).world.history.length →
      moment = time + 1) :
    (machine.weave loom time).advance (behaviour.weave loom moment) =
      (machine.advance behaviour).weave loom (time + 1) := by
  obtain ⟨world, ⟨stage, code⟩, callers⟩ := machine
  cases code with
  | done answer => exact endWoven loom (.returned answer) there called
  | fail failure => exact endWoven loom (.failed failure) there called
  | panic payload => exact endWoven loom (.panicked payload) there called
  | append queue step next | note remark next => exact goesWoven loom next _ there
  | ask queue next | look queue next => exact goesWoven loom (next _) world there
  | suspend next =>
    dsimp only [advance] at there due ⊢
    rw [weaveAwaits]
    cases waits : (Machine.mk world ⟨stage, .suspend next⟩ callers).awaits with
    | true =>
      rw [if_pos waits] at there
      rw [if_pos rfl, Progress.weave, loom.callersLater there.ge]
      rfl
    | false =>
      -- No one gets to append here, so nothing was woven in.
      rw [waits] at there due
      exact (congrArg (fun code => Progress.running ⟨world, ⟨stage, code⟩, _⟩)
        (loom.heldFree due)).trans (goesWoven loom next world there)
  | discard queue next =>
    dsimp only [advance] at there ⊢
    cases taken : (world.queue queue).taken with
    | true =>
      rw [taken] at there
      exact (if_pos taken).trans (goesWoven loom (next false) world there)
    | false =>
      rw [taken] at there
      refine (if_neg (by simp [weave, taken])).trans ?_
      exact goesWoven loom (next true) (world.take queue) there
  | run queue initial next =>
    dsimp only [advance] at there called ⊢
    have here : loom.depth time = callers.length := here
    cases taken : (world.queue queue).taken with
    | true =>
      rw [taken] at there
      have back : loom.back time (loom.depth time) = time + 1 :=
        loom.backNext (there.trans here.symm).le
      refine (if_pos taken).trans ?_
      rw [back]
      exact goesWoven loom (next none) world there
    | false =>
      -- The code becomes a caller, woven for the time at which the other run is done.
      rw [taken] at there called
      obtain rfl : moment = time + 1 := called (Nat.lt_succ_self _)
      refine (if_neg (by simp [weave, taken])).trans ?_
      have waiting : loom.callers time (⟨stage, next⟩ :: callers) = _ :=
        (loom.callersLater there.ge).symm
      rw [Loom.callers, ← here] at waiting
      exact congrArg (fun callers => Progress.running (Machine.mk _ _ callers)) waiting

end Machine

end Sequencer

import Sequencer.Proofs.ConcertRun
import Sequencer.Proofs.RecastTurns

/-! Dispatch makes no difference. A step whose code appends and ends may be async instead, with its
code cut in two anywhere: runs then come to the same, and so does any number of runs that take turns
with each other and with outside code. Each execution follows the other step by step. -/
namespace Sequencer

variable {κ κ' ν ε β γ : Type}

section Relations

variable (casting : Casting κ κ')

inductive Caller.UpToKinds : Caller κ ν ε → Caller κ' ν ε → Prop where
  | intro (first second resume other meets) (stages : Stage.UpToKinds casting first second meets)
      (none : (resume none).UpToKinds casting meets (other none))
      (codes : ∀ {early late}, Results early late →
        (resume (some early)).UpToKinds casting meets (other (some late))) :
      UpToKinds ⟨first, resume⟩ ⟨second, other⟩

inductive Outcome.UpToKinds : Outcome ν → Outcome ν → Prop where
  | returned (result answer) (results : Results result answer) :
      UpToKinds (.returned result) (.returned answer)
  | panicked (payload) : UpToKinds (.panicked payload) (.panicked payload)
  | left : UpToKinds .left .left

inductive Progress.UpToKinds : Progress κ ν ε → Progress κ' ν ε → Prop where
  | running (world other frame mate callers mates) (worlds : World.UpToKinds casting world other)
      (frames : Frame.UpToKinds casting frame mate)
      (stacked : List.Forall₂ (Caller.UpToKinds casting) callers mates) :
      UpToKinds (.running ⟨world, frame, callers⟩) (.running ⟨other, mate, mates⟩)
  | ended (world other outcome mate) (worlds : World.UpToKinds casting world other)
      (outcomes : Outcome.UpToKinds outcome mate) :
      UpToKinds (.ended world outcome) (.ended other mate)

structure Task.UpToKinds (task : Task κ ν ε) (mate : Task κ' ν ε) : Prop where
  frame : Frame.UpToKinds casting task.frame.joined mate.frame.joined
  callers : List.Forall₂ (Caller.UpToKinds casting) (task.callers.map Caller.joined)
    (mate.callers.map Caller.joined)

structure Ensemble.UpToKinds (a : Ensemble κ ν ε) (b : Ensemble κ' ν ε) : Prop where
  worlds : a.world.UpToKinds casting b.world
  tasks : List.Forall₂ (Task.UpToKinds casting) a.tasks b.tasks

end Relations

variable {casting : Casting κ κ'}

theorem Stage.UpToKinds.plain {stage : Stage κ ν} {mate : Stage κ' ν}
    {meets : stage.Answer ε → mate.Answer ε → Prop} (stages : stage.UpToKinds casting mate meets) :
    (∀ code : Program κ ν ε (stage.Answer ε), Frame.joined ⟨stage, code⟩ = ⟨stage, code⟩) ∧
      ∀ code : Program κ' ν ε (mate.Answer ε), Frame.joined ⟨mate, code⟩ = ⟨mate, code⟩ := by
  cases stages <;> exact ⟨fun _ => rfl, fun _ => rfl⟩

theorem Caller.UpToKinds.plain {caller : Caller κ ν ε} {mate : Caller κ' ν ε}
    (alike : caller.UpToKinds casting mate) : caller.joined = caller ∧ mate.joined = mate := by
  obtain ⟨_, _, _, _, meets, stages, _, _⟩ := alike
  cases stages <;> exact ⟨rfl, rfl⟩

theorem callersPlain {callers : List (Caller κ ν ε)} {mates : List (Caller κ' ν ε)}
    (stacked : List.Forall₂ (Caller.UpToKinds casting) callers mates) :
    callers.map Caller.joined = callers ∧ mates.map Caller.joined = mates := by
  induction stacked with
  | nil => exact ⟨rfl, rfl⟩
  | cons alike _ ih => simp only [List.map_cons, alike.plain.1, alike.plain.2, ih.1, ih.2, and_self]

namespace Program

def Awake (code : Program κ ν ε β) : Prop := ∀ next, code ≠ .suspend next

inductive Wakes : Program κ ν ε β → Program κ ν ε β → Prop where
  | awake (code) (awake : code.Awake) : Wakes code code
  | wait (next rest) (on : Wakes next rest) : Wakes (.suspend next) rest

theorem waits (code : Program κ ν ε β) : (∃ next, code = .suspend next) ∨ code.Awake := by
  cases code with
  | suspend next => exact .inl ⟨next, rfl⟩
  | _ => exact .inr nofun

theorem wakes (code : Program κ ν ε β) : ∃ rest, code.Wakes rest ∧ rest.Awake := by
  induction code with
  | suspend next ih =>
    obtain ⟨rest, wakes, awake⟩ := ih
    exact ⟨rest, .wait next rest wakes, awake⟩
  | _ => exact ⟨_, .awake _ nofun, nofun⟩

theorem Wakes.goes (behaviour : Behaviour κ ν ε) {world : World κ ν ε} {stage : Stage κ ν}
    {callers : List (Caller κ ν ε)} {code rest : Program κ ν ε (stage.Answer ε)}
    (wakes : code.Wakes rest) {a : Progress κ ν ε}
    (here : a.machine? = some ⟨world, ⟨stage, code⟩, callers⟩) :
    ∃ b, Progress.Goes behaviour a b ∧ b.machine? = some ⟨world, ⟨stage, rest⟩, callers⟩ := by
  induction wakes generalizing a with
  | awake code awake => exact ⟨a, .refl, here⟩
  | wait next rest _ ih =>
    have step : Progress.Turns behaviour a _ := .advance a _ here
    obtain ⟨b, path, there⟩ := ih (Machine.advanceSuspend behaviour world callers next)
    exact ⟨b, .head step path, there⟩

namespace UpToKinds

variable {meets : β → γ → Prop} {first : Program κ ν ε β} {second : Program κ' ν ε γ}

theorem endedOf {early : Ending β} {code : Program κ ν ε β} (same : early.code = .suspend code) :
    False := by
  cases early <;> cases same

theorem passLeft (alike : (Program.suspend first).UpToKinds casting meets second) :
    first.UpToKinds casting meets second := by
  generalize same : Program.suspend first = code at alike
  induction alike with
  | ended early late ends => exact (endedOf same.symm).elim
  | left first second on => cases same; exact on
  | right code second on ih => exact .right _ _ (ih same)
  | _ => cases same

theorem passRight (alike : first.UpToKinds casting meets (.suspend second)) :
    first.UpToKinds casting meets second := by
  generalize same : Program.suspend second = code at alike
  induction alike with
  | ended early late ends => exact (endedOf same.symm).elim
  | left first code on ih => exact .left _ _ (ih same)
  | right first second on => cases same; exact on
  | _ => cases same

theorem wakesLeft {rest : Program κ ν ε β} (wakes : first.Wakes rest)
    (alike : first.UpToKinds casting meets second) : rest.UpToKinds casting meets second := by
  induction wakes with
  | awake => exact alike
  | wait next rest _ ih => exact ih alike.passLeft

theorem wakesRight {rest : Program κ' ν ε γ} (wakes : second.Wakes rest)
    (alike : first.UpToKinds casting meets second) : first.UpToKinds casting meets rest := by
  induction wakes with
  | awake => exact alike
  | wait next rest _ ih => exact ih alike.passRight

theorem bind {early : Program κ ν ε (Program κ ν ε ν)} {late : Program κ' ν ε (Program κ' ν ε ν)}
    (alike : early.UpToKinds casting (Program.UpToKinds casting Eq) late) :
    (early.bind id).UpToKinds casting Eq (late.bind id) := by
  induction alike with
  | ended early late ends =>
    cases ends with
    | returned answer mate meet => exact meet
    | failed failure mate failures => exact .ended _ _ (.failed failure mate failures)
    | panicked payload => exact .ended _ _ (.panicked payload)
  | append queue step mate first second twins _ ih => exact .append queue step mate _ _ twins ih
  | ask queue first second _ ih => exact .ask queue _ _ ih
  | look queue first second _ ih => exact .look queue _ _ ih
  | note remark first second _ ih => exact .note remark _ _ ih
  | discard queue first second _ ih => exact .discard queue _ _ ih
  | run queue initial first second _ _ none ih => exact .run queue initial _ _ none ih
  | left first second _ ih => exact .left _ _ ih
  | right first second _ ih => exact .right _ _ ih

end UpToKinds

end Program

variable {first : Behaviour κ ν ε} {second : Behaviour κ' ν ε} {world : World κ ν ε}
  {other : World κ' ν ε} {callers : List (Caller κ ν ε)} {mates : List (Caller κ' ν ε)}

namespace Machine

theorem enteredUpToKinds (worlds : world.UpToKinds casting other) {frame : Frame κ ν ε}
    {mate : Frame κ' ν ε} (frames : Frame.UpToKinds casting frame.joined mate.joined)
    (stacked : List.Forall₂ (Caller.UpToKinds casting) callers mates) :
    Progress.UpToKinds casting (.running (mk world frame callers).joined)
      (.running (mk other mate mates).joined) := by
  simp only [joined, (callersPlain stacked).1, (callersPlain stacked).2]
  exact .running world other _ _ _ _ worlds frames stacked

theorem codedUpToKinds (worlds : world.UpToKinds casting other) {stage : Stage κ ν}
    {mate : Stage κ' ν}
    {meets : stage.Answer ε → mate.Answer ε → Prop} (stages : stage.UpToKinds casting mate meets)
    {code : Program κ ν ε (stage.Answer ε)} {also : Program κ' ν ε (mate.Answer ε)}
    (codes : code.UpToKinds casting meets also)
    (stacked : List.Forall₂ (Caller.UpToKinds casting) callers mates) :
    Progress.UpToKinds casting (.running (mk world ⟨stage, code⟩ callers).joined)
      (.running (mk other ⟨mate, also⟩ mates).joined) := by
  refine enteredUpToKinds worlds ?_ stacked
  rw [stages.plain.1, stages.plain.2]
  exact .intro _ _ _ _ _ stages codes

theorem resumeUpToKinds {reply : World κ ν ε × Turn κ ν ε} {answer : World κ' ν ε × Turn κ' ν ε}
    (replied : Replied casting reply answer)
    (stacked : List.Forall₂ (Caller.UpToKinds casting) callers mates) :
    (resume callers reply).joined.UpToKinds casting (resume mates answer).joined := by
  obtain ⟨world, turn⟩ := reply
  obtain ⟨other, also⟩ := answer
  obtain ⟨worlds, turns⟩ := replied
  cases turns with
  | enter frame mate frames => exact enteredUpToKinds worlds frames stacked
  | left => exact .ended _ _ _ _ worlds .left
  | returned result answer results =>
    cases stacked with
    | nil => exact .ended _ _ _ _ worlds (.returned result answer results)
    | cons callers below =>
      obtain ⟨stage, mate, resume, also, meets, stages, -, codes⟩ := callers
      exact codedUpToKinds worlds stages (codes results) below
  | unwound payload =>
    cases stacked with
    | nil => exact .ended _ _ _ _ worlds (.panicked payload)
    | cons callers below =>
      obtain ⟨stage, mate, resume, also, meets, stages, -, -⟩ := callers
      exact codedUpToKinds worlds stages (.ended _ _ (.panicked payload)) below

theorem startUpToKinds (behaviours : first.UpToKinds casting second)
    (worlds : world.UpToKinds casting other)
    (queue : QueueId) (initial : Option ν)
    (stacked : List.Forall₂ (Caller.UpToKinds casting) callers mates) :
    Progress.UpToKinds casting (.running (start first world callers queue initial).joined)
      (.running (start second other mates queue initial).joined) := by
  have named : other.nameOf queue = world.nameOf queue := (worlds.queues queue).name
  have asked := worlds.record (.asked queue _ _ (.startRun (world.nameOf queue)))
  rw [start, start, Scheduler.startRun, Scheduler.startRun, behaviours.neutral, named]
  exact enteredUpToKinds asked (.intro _ _ _ _ _ (.startingRun queue _)
    ((behaviours.recorder queue).startRun _)) stacked

theorem advanceUpToKinds (behaviours : first.UpToKinds casting second)
    (worlds : world.UpToKinds casting other)
    {stage : Stage κ ν} {mate : Stage κ' ν} {meets : stage.Answer ε → mate.Answer ε → Prop}
    (stages : stage.UpToKinds casting mate meets) {code : Program κ ν ε (stage.Answer ε)}
    {also : Program κ' ν ε (mate.Answer ε)} (codes : code.UpToKinds casting meets also)
    (awake : code.Awake) (roused : also.Awake)
    (stacked : List.Forall₂ (Caller.UpToKinds casting) callers mates) :
    ((mk world ⟨stage, code⟩ callers).advance first).joined.UpToKinds casting
      ((mk other ⟨mate, also⟩ mates).advance second).joined := by
  have acts {world : World κ ν ε} {other : World κ' ν ε} (worlds : world.UpToKinds casting other)
      {code : Program κ ν ε (stage.Answer ε)} {also : Program κ' ν ε (mate.Answer ε)}
      (codes : code.UpToKinds casting meets also) :
      Progress.UpToKinds casting (.running (mk world ⟨stage, code⟩ callers).joined)
        (.running (mk other ⟨mate, also⟩ mates).joined) :=
    codedUpToKinds worlds stages codes stacked
  cases codes with
  | ended early late ends =>
    rw [advanceEnding, advanceEnding]
    exact resumeUpToKinds (Scheduler.concludeUpToKinds behaviours worlds stages ends) stacked
  | append queue step twin code also twins on => exact acts (worlds.append queue twins) on
  | ask queue code also on | look queue code also on => exact acts worlds (on (worlds.queues queue))
  | note remark code also on => exact acts (worlds.record (.noted remark)) on
  | discard queue code also on =>
    dsimp only [advance]
    rw [(worlds.queues queue).taken]
    split
    · exact acts worlds (on false)
    · exact acts (worlds.take queue) (on true)
  | run queue initial code also none on =>
    dsimp only [advance]
    rw [(worlds.queues queue).taken]
    split
    · exact acts worlds none
    · exact startUpToKinds behaviours (worlds.take queue) queue initial
        (.cons (.intro _ _ _ _ _ stages none on) stacked)
  | left code => exact absurd rfl (awake code)
  | right _ also => exact absurd rfl (roused also)

end Machine

variable {a c : Progress κ ν ε} {b d : Progress κ' ν ε}

theorem Progress.rouse (behaviour : Behaviour κ ν ε) {stage : Stage κ ν}
    {code rest : Program κ ν ε (stage.Answer ε)} (wakes : code.Wakes rest)
    (here : a.joined = .running ⟨world, ⟨stage, code⟩, callers⟩) :
    ∃ last, Progress.Goes behaviour a last ∧
      last.joined = ((Machine.mk world ⟨stage, rest⟩ callers).advance behaviour).joined := by
  obtain ⟨next, path, there⟩ :=
    wakes.goes behaviour (a := .running ⟨world, ⟨stage, code⟩, callers⟩) rfl
  exact Progress.goesJoined (path.tail (.advance next _ there)) (by rw [← here, a.joinedTwice])

namespace Progress.UpToKinds

theorem worlds (alike : a.joined.UpToKinds casting b.joined) :
    a.world.UpToKinds casting b.world := by
  rw [← Progress.worldOfJoined a, ← Progress.worldOfJoined b]
  generalize a.joined = start, b.joined = also at alike ⊢
  cases alike <;> assumption

theorem tasks (alike : a.joined.UpToKinds casting b.joined) :
    List.Forall₂ (Task.UpToKinds casting) a.tasks b.tasks := by
  cases a with
  | running | suspended =>
    cases b with
    | running | suspended =>
      cases alike with
      | running _ _ _ _ _ _ _ frames stacked => exact .cons ⟨frames, stacked⟩ .nil
    | ended => cases alike
  | ended =>
    cases b with
    | running | suspended => cases alike
    | ended => exact .nil

theorem ends {last : World κ ν ε} {outcome : Outcome ν}
    (alike : (Progress.ended last outcome).joined.UpToKinds casting b.joined) :
    ∃ final result, b = .ended final result ∧ last.UpToKinds casting final ∧
      Outcome.UpToKinds outcome result := by
  cases b with
  | running | suspended => cases alike
  | ended final result =>
    cases alike with
    | ended _ _ _ _ worlds outcomes => exact ⟨final, result, rfl, worlds, outcomes⟩

theorem endsAlso {final : World κ' ν ε} {result : Outcome ν}
    (alike : a.joined.UpToKinds casting (Progress.ended final result).joined) :
    ∃ last outcome, a = .ended last outcome ∧ last.UpToKinds casting final ∧
      Outcome.UpToKinds outcome result := by
  cases a with
  | running | suspended => cases alike
  | ended last outcome =>
    cases alike with
    | ended _ _ _ _ worlds outcomes => exact ⟨last, outcome, rfl, worlds, outcomes⟩

/- One step of the first execution is matched by some of the second one: by none while the code
only waits, or to enter the program of an async step. -/
theorem follows (behaviours : first.UpToKinds casting second)
    (alike : a.joined.UpToKinds casting b.joined)
    (turn : Progress.Turns first a c) :
    ∃ d, Progress.Goes second b d ∧ c.joined.UpToKinds casting d.joined := by
  rcases Progress.turnJoined turn with still | ⟨machine, here, moved⟩
  · exact ⟨b, .refl, still ▸ alike⟩
  · rw [here] at alike
    generalize late : b.joined = also at alike
    obtain ⟨world, other, _, _, callers, mates, worlds,
      ⟨stage, twin, code, also, meets, stages, codes⟩, stacked⟩ | _ := alike
    rcases code.waits with ⟨next, rfl⟩ | awake
    · refine ⟨b, .refl, ?_⟩
      rw [moved, Machine.suspendJoined, ← b.joinedTwice, late]
      exact Machine.codedUpToKinds worlds stages codes.passLeft stacked
    · obtain ⟨rest, wakes, roused⟩ := also.wakes
      obtain ⟨last, path, there⟩ := Progress.rouse second wakes late
      refine ⟨last, path, ?_⟩
      rw [moved, there]
      exact Machine.advanceUpToKinds behaviours worlds stages (codes.wakesRight wakes) awake roused
        stacked

theorem precedes (behaviours : first.UpToKinds casting second)
    (alike : a.joined.UpToKinds casting b.joined)
    (turn : Progress.Turns second b d) :
    ∃ c, Progress.Goes first a c ∧ c.joined.UpToKinds casting d.joined := by
  rcases Progress.turnJoined turn with still | ⟨machine, here, moved⟩
  · exact ⟨a, .refl, still ▸ alike⟩
  · rw [here] at alike
    generalize early : a.joined = start at alike
    obtain ⟨world, other, _, _, callers, mates, worlds,
      ⟨stage, twin, code, also, meets, stages, codes⟩, stacked⟩ | _ := alike
    rcases also.waits with ⟨next, rfl⟩ | roused
    · refine ⟨a, .refl, ?_⟩
      rw [moved, Machine.suspendJoined, ← a.joinedTwice, early]
      exact Machine.codedUpToKinds worlds stages codes.passRight stacked
    · obtain ⟨rest, wakes, awake⟩ := code.wakes
      obtain ⟨last, path, there⟩ := Progress.rouse first wakes early
      refine ⟨last, path, ?_⟩
      rw [moved, there]
      exact Machine.advanceUpToKinds behaviours worlds stages (codes.wakesLeft wakes) awake roused
        stacked

end Progress.UpToKinds

end Sequencer

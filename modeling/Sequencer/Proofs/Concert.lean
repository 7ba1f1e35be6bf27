import Sequencer.Proofs.Concord
import Sequencer.Proofs.Growth

/-! Executions that are the same up to leeway go on together. Both stand inside corresponding code,
or inside the recorder of a queue whose indexes shift, where nothing can happen to any queue. A run
of such a queue is told of no failure unless its observers are steady: there the two executions
part, with the same steps withdrawn. -/
namespace Sequencer

variable {κ κ' ν ε : Type} {concord : Concord κ κ' ε}

theorem Leeway.notTight {leeway : Leeway} (shifts : leeway.shifts = true) {fact : Prop}
    (tight : leeway.shifts = false) : fact :=
  nomatch shifts.symm.trans tight

section Relations

variable (concord)

structure Run.UpToLeeway (run other : Run) : Prop where
  queue : other.queue = run.queue
  exact : (concord.leeway run.queue).shifts = false → other = run

inductive Delivery.UpToLeeway (leeway : Leeway) : Delivery → Delivery → Prop where
  | refused (failure) (tight : leeway.shifts = false) :
      UpToLeeway leeway ⟨.recorder failure, none⟩ ⟨.recorder failure, none⟩
  | failed (error mate step other info also) (exact : leeway.shifts = false → other = step)
      (infos : StepInfo.UpToLeeway concord leeway info also)
      (errors : RunError.UpToLeeway concord leeway error mate) :
      UpToLeeway leeway ⟨error, some (step, info)⟩ ⟨mate, some (other, also)⟩

inductive Verdict.UpToLeeway (leeway : Leeway) : Verdict ν → Verdict ν → Prop where
  | completed (value) : UpToLeeway leeway (.completed value) (.completed value)
  | failed (error also dropped) (errors : RunError.UpToLeeway concord leeway error also) :
      UpToLeeway leeway (.failed error dropped) (.failed also dropped)

/- One stage of two runs, as it is in joined frames, and how the code there has to end in both. The
recorder of a queue whose indexes shift has no part in this. -/
inductive Stage.UpToLeeway : (first : Stage κ ν) → (second : Stage κ' ν) →
    (Ending (first.Answer ε) → Ending (second.Answer ε) → Prop) → Prop where
  | startingRun (queue value) (tight : (concord.leeway queue).shifts = false) :
      UpToLeeway (.startingRun queue value) (.startingRun queue value) Eq
  | startingStep (run value entry mate info also)
      (tight : (concord.leeway run.queue).shifts = false)
      (entries : Entry.UpToLeeway concord (concord.leeway run.queue) entry mate)
      (infos : StepInfo.UpToLeeway concord (concord.leeway run.queue) info also) :
      UpToLeeway (.startingStep run value entry info) (.startingStep run value mate also) Eq
  | awaiting (run other step id info also) (runs : Run.UpToLeeway concord run other)
      (steps : (concord.leeway run.queue).shifts = false → id = step)
      (infos : StepInfo.UpToLeeway concord (concord.leeway run.queue) info also) :
      UpToLeeway (.awaiting run step info) (.awaiting other id also)
        (Ending.UpToFailing (concord.leeway run.queue).lenient)
  | observing (run other step id info also value) (runs : Run.UpToLeeway concord run other)
      (steps : (concord.leeway run.queue).shifts = false → id = step)
      (infos : StepInfo.UpToLeeway concord (concord.leeway run.queue) info also) :
      UpToLeeway (.observing run step info value) (.observing other id also value) fun _ _ => True
  | delivering (run other delivery news label mate rest others index start dropped)
      (runs : Run.UpToLeeway concord run other)
      (deliveries : Delivery.UpToLeeway concord (concord.leeway run.queue) delivery news)
      (lines : concord.Lines (concord.leeway run.queue) rest others)
      (indexes : (concord.leeway run.queue).shifts = false → start = index)
      (steady : (concord.leeway run.queue).shifts = true → concord.steady = true) :
      UpToLeeway (.delivering run delivery label rest index dropped)
        (.delivering other news mate others start dropped) fun _ _ => True
  | completingStep (run info also verdict mate) (tight : (concord.leeway run.queue).shifts = false)
      (infos : StepInfo.UpToLeeway concord (concord.leeway run.queue) info also)
      (verdicts : Verdict.UpToLeeway concord (concord.leeway run.queue) verdict mate) :
      UpToLeeway (.completingStep run info verdict) (.completingStep run also mate)
        (Ending.Heeded true)
  | completingRun (run verdict mate) (tight : (concord.leeway run.queue).shifts = false)
      (verdicts : Verdict.UpToLeeway concord (concord.leeway run.queue) verdict mate) :
      UpToLeeway (.completingRun run verdict) (.completingRun run mate) (Ending.Heeded true)

inductive Frame.UpToLeeway : Frame κ ν ε → Frame κ' ν ε → Prop where
  | intro (first second code other meets) (stages : Stage.UpToLeeway concord first second meets)
      (codes : code.UpToLeeway concord meets other) : UpToLeeway ⟨first, code⟩ ⟨second, other⟩

inductive Caller.UpToLeeway : Caller κ ν ε → Caller κ' ν ε → Prop where
  | intro (first second resume other meets) (stages : Stage.UpToLeeway concord first second meets)
      (none : (resume none).UpToLeeway concord meets (other none))
      (codes : ∀ {early late}, concord.Results {} early late →
        (resume (some early)).UpToLeeway concord meets (other (some late))) :
      UpToLeeway ⟨first, resume⟩ ⟨second, other⟩

def Agenda.Rests (agenda : Agenda κ) : Prop := agenda.active = none ∧ agenda.buffer = []

inductive Records (other : World κ' ν ε) : Frame κ ν ε → Frame κ' ν ε → Prop where
  | startingRun (queue value code mate) (shifts : (concord.leeway queue).shifts = true)
      (rests : (other.agenda queue).Rests)
      (mute : code.Mute concord.heard Ending.Granted)
      (also : mate.Mute concord.heard Ending.Granted) :
      Records other ⟨.startingRun queue value, code⟩ ⟨.startingRun queue value, mate⟩
  | startingStep (run id value entry twin info news code mate)
      (shifts : (concord.leeway run.queue).shifts = true) (runs : Run.UpToLeeway concord run id)
      (entries : Entry.UpToLeeway concord (concord.leeway run.queue) entry twin)
      (infos : StepInfo.UpToLeeway concord (concord.leeway run.queue) info news)
      (mute : code.Mute concord.heard Ending.Granted)
      (also : mate.Mute concord.heard Ending.Granted) :
      Records other ⟨.startingStep run value entry info, code⟩
        ⟨.startingStep id value twin news, mate⟩
  | completingStep (run id info news verdict twin code mate)
      (shifts : (concord.leeway run.queue).shifts = true) (runs : Run.UpToLeeway concord run id)
      (verdicts : Verdict.UpToLeeway concord (concord.leeway run.queue) verdict twin)
      (rests : ∀ value, verdict = .completed value → (other.agenda run.queue).Rests)
      (mute : code.Mute concord.heard Ending.Heard) (also : mate.Mute concord.heard Ending.Heard) :
      Records other ⟨.completingStep run info verdict, code⟩ ⟨.completingStep id news twin, mate⟩
  | completingRun (run id verdict twin code mate)
      (shifts : (concord.leeway run.queue).shifts = true) (runs : Run.UpToLeeway concord run id)
      (verdicts : Verdict.UpToLeeway concord (concord.leeway run.queue) verdict twin)
      (mute : code.Mute concord.heard Ending.Heard) (also : mate.Mute concord.heard Ending.Heard) :
      Records other ⟨.completingRun run verdict, code⟩ ⟨.completingRun id twin, mate⟩

def Concord.leewayAt (stage : Stage κ ν) : Leeway := stage.queue?.elim {} concord.leeway

inductive Concord.Stack (bottom : Leeway) : (top : Leeway) → List (Caller κ ν ε) →
    List (Caller κ' ν ε) → Prop where
  | nil : Stack bottom bottom [] []
  | cons (caller mate callers mates) (alike : Caller.UpToLeeway concord caller mate)
      (stacked : Stack bottom (concord.leewayAt caller.stage) callers mates) :
      Stack bottom {} (caller :: callers) (mate :: mates)

inductive Outcome.UpToLeeway (leeway : Leeway) : Outcome ν → Outcome ν → Prop where
  | returned (first second) (results : concord.Results leeway first second) :
      UpToLeeway leeway (.returned first) (.returned second)
  | panicked (payload) : UpToLeeway leeway (.panicked payload) (.panicked payload)

inductive Turn.UpToLeeway (leeway : Leeway) : Turn κ ν ε → Turn κ' ν ε → Prop where
  | enter (first second) (frames : Frame.UpToLeeway concord first.joined second.joined)
      (own : concord.leewayAt first.joined.stage = leeway) :
      UpToLeeway leeway (.enter first) (.enter second)
  | returned (first second) (results : concord.Results leeway first second) :
      UpToLeeway leeway (.returned first) (.returned second)
  | unwound (payload) : UpToLeeway leeway (.unwound payload) (.unwound payload)

variable (old : List (Event κ ν ε)) (past : List (Event κ' ν ε))

inductive Progress.Concert (bottom : Leeway) : Progress κ ν ε → Progress κ' ν ε → Prop where
  | acting (world other frame mate callers mates)
      (worlds : World.UpToLeeway concord old past world other)
      (frames : Frame.UpToLeeway concord frame mate)
      (stacked : concord.Stack bottom (concord.leewayAt frame.stage) callers mates) :
      Concert bottom (.running ⟨world, frame, callers⟩) (.running ⟨other, mate, mates⟩)
  | recording (world other frame mate) (worlds : World.UpToLeeway concord old past world other)
      (records : Records concord other frame mate)
      (own : bottom = concord.leewayAt frame.stage) :
      Concert bottom (.running ⟨world, frame, []⟩) (.running ⟨other, mate, []⟩)
  | ended (world other outcome mate) (worlds : World.UpToLeeway concord old past world other)
      (outcomes : Outcome.UpToLeeway concord bottom outcome mate) :
      Concert bottom (.ended world outcome) (.ended other mate)
  | parted (first second queue remaining others early late)
      (shifts : (concord.leeway queue).shifts = true) (unsteady : concord.steady = false)
      (told : concord.Recounts old past (.withdrawn queue remaining :: early)
        (.withdrawn queue others :: late))
      (before : .withdrawn queue remaining :: early <:+ first.world.history)
      (also : .withdrawn queue others :: late <:+ second.world.history) :
      Concert bottom first second

def Progress.Follows (bottom : Leeway) (second : Behaviour κ' ν ε) (a : Progress κ ν ε)
    (b : Progress κ' ν ε) : Prop :=
  ∃ last, Progress.Goes second b last ∧ a.joined.Concert concord old past bottom last.joined

structure World.Trails (world : World κ ν ε) (start : World κ' ν ε) (queue : QueueId)
    (left : Agenda κ') (next : World κ' ν ε) : Prop where
  queues : ∀ id, next.queue id = (start.setAgenda queue left).queue id
  history : concord.Recounts old past world.history next.history

end Relations

section Stages

variable {stage : Stage κ ν} {mate : Stage κ' ν}
  {meets : Ending (stage.Answer ε) → Ending (mate.Answer ε) → Prop}

theorem Stage.UpToLeeway.plain (stages : Stage.UpToLeeway concord stage mate meets) :
    (∀ code : Program κ ν ε (stage.Answer ε), Frame.joined ⟨stage, code⟩ = ⟨stage, code⟩) ∧
      ∀ code : Program κ' ν ε (mate.Answer ε), Frame.joined ⟨mate, code⟩ = ⟨mate, code⟩ := by
  cases stages <;> exact ⟨fun _ => rfl, fun _ => rfl⟩

theorem Stage.UpToLeeway.panicked (stages : Stage.UpToLeeway concord stage mate meets)
    (payload : Payload) :
    meets (.panicked payload) (.panicked payload) := by
  cases stages with
  | startingRun | startingStep => rfl
  | awaiting => exact .same _
  | observing | delivering => trivial
  | completingStep | completingRun => exact .same _

theorem Caller.UpToLeeway.joined {caller : Caller κ ν ε} {other : Caller κ' ν ε}
    (alike : Caller.UpToLeeway concord caller other) :
    caller.joined = caller ∧ other.joined = other := by
  obtain ⟨_, _, _, _, meets, stages, _, _⟩ := alike
  cases stages <;> exact ⟨rfl, rfl⟩

end Stages

namespace Concord.Stack

variable {top bottom : Leeway} {callers : List (Caller κ ν ε)} {mates : List (Caller κ' ν ε)}

theorem joined (stacked : concord.Stack bottom top callers mates) :
    callers.map Caller.joined = callers ∧ mates.map Caller.joined = mates := by
  induction stacked with
  | nil => exact ⟨rfl, rfl⟩
  | cons caller mate callers mates alike _ ih =>
    simp only [List.map_cons, alike.joined.1, alike.joined.2, ih.1, ih.2, and_self]

theorem bare (stacked : concord.Stack bottom top ([] : List (Caller κ ν ε)) mates) :
    mates = [] := by
  cases stacked
  rfl

theorem alone (stacked : concord.Stack bottom top callers mates) (shifts : top.shifts = true) :
    callers = [] ∧ mates = [] ∧ bottom = top := by
  cases stacked with
  | nil => exact ⟨rfl, rfl, rfl⟩
  | cons => cases shifts

end Concord.Stack

variable {old : List (Event κ ν ε)} {past : List (Event κ' ν ε)} {bottom : Leeway}
  {second : Behaviour κ' ν ε} {world : World κ ν ε} {other : World κ' ν ε}
  {callers : List (Caller κ ν ε)} {mates : List (Caller κ' ν ε)}

theorem Turn.UpToLeeway.follows {leeway : Leeway} {turn : Turn κ ν ε} {mate : Turn κ' ν ε}
    (turns : Turn.UpToLeeway concord leeway turn mate)
    (worlds : World.UpToLeeway concord old past world other)
    (stacked : concord.Stack bottom leeway callers mates) :
    Progress.Follows concord old past bottom second (Machine.resume callers (world, turn))
      (Machine.resume mates (other, mate)) := by
  refine ⟨_, .refl, ?_⟩
  cases turns with
  | enter frame mate frames own =>
    simp only [Machine.resume, Progress.joined, Machine.joined, stacked.joined.1, stacked.joined.2]
    exact .acting _ _ _ _ _ _ worlds frames (own ▸ stacked)
  | returned result answer results =>
    cases stacked with
    | nil => exact .ended _ _ _ _ worlds (.returned _ _ results)
    | cons caller mate callers mates alike stacked =>
      obtain ⟨stage, mate, resume, also, meets, stages, none, codes⟩ := alike
      simp only [Machine.resume, Progress.joined, Machine.joined, stages.plain.1, stages.plain.2,
        stacked.joined.1, stacked.joined.2]
      exact .acting _ _ _ _ _ _ worlds (.intro _ _ _ _ _ stages (codes results)) stacked
  | unwound payload =>
    cases stacked with
    | nil => exact .ended _ _ _ _ worlds (.panicked payload)
    | cons caller mate callers mates alike stacked =>
      obtain ⟨stage, mate, resume, also, meets, stages, none, codes⟩ := alike
      simp only [Machine.resume, Progress.joined, Machine.joined, stages.plain.1, stages.plain.2,
        stacked.joined.1, stacked.joined.2]
      exact .acting _ _ _ _ _ _ worlds (.intro _ _ _ _ _ stages
        (.ended (.panicked payload) (.panicked payload) (stages.panicked payload))) stacked

theorem Program.Mute.concludes (behaviour : Behaviour κ ν ε) (world : World κ ν ε)
    (callers : List (Caller κ ν ε)) (stage : Stage κ ν) {heard : ε → Bool}
    {due : Ending (stage.Answer ε) → Prop} {code : Program κ ν ε (stage.Answer ε)}
    (mute : code.Mute heard due) :
    ∃ ending next, due ending ∧ world.Unmoved heard next ∧
      Progress.Goes behaviour (.running ⟨world, ⟨stage, code⟩, callers⟩)
        (Machine.resume callers (Scheduler.conclude behaviour next stage ending)) := by
  have here : (Progress.running ⟨world, ⟨stage, code⟩, callers⟩).machine? = _ := rfl
  obtain ⟨ending, next, last, holds, unmoved, path, there⟩ := mute.ends here
  refine ⟨ending, next, holds, unmoved, path.tail ?_⟩
  rw [← Machine.advanceEnding]
  exact .advance last _ there

namespace World.Trails

variable {start next last : World κ' ν ε} {queue : QueueId} {left : Agenda κ'}
  (trails : World.Trails concord old past world start queue left next)
include trails

theorem unmoved (unmoved : next.Unmoved concord.heard last) :
    World.Trails concord old past world start queue left last := by
  induction unmoved with
  | same => exact trails
  | remark last remark _ unheard ih =>
    exact ⟨ih.queues, .second _ _ _ (.noted remark unheard) ih.history⟩

theorem extra (shifts : (concord.leeway queue).shifts = true) {event : Event κ' ν ε}
    (extra : event.Extra concord queue) :
    World.Trails concord old past world start queue left (next.record event) :=
  ⟨trails.queues, .extra queue event _ _ shifts extra trails.history⟩

theorem noting {event? : Option (Event κ' ν ε)}
    (aside : ∀ event ∈ event?, event.Aside concord.heard) :
    World.Trails concord old past world start queue left (next.noting event?) := by
  cases event? with
  | none => exact trails
  | some event => exact ⟨trails.queues, .second event _ _ (aside event rfl) trails.history⟩

theorem agenda : next.agenda queue = left := by
  rw [World.agenda, trails.queues, queueOfSet, if_pos rfl]

theorem settle : World.Trails concord old past world start queue left.settle
    (next.settle queue) where
  queues id := by
    rw [World.settle, trails.agenda, queueOfSet, queueOfSet, trails.queues, trails.queues,
      queueOfSet, queueOfSet]
    split
    · rw [if_pos rfl]
    · rfl
  history := trails.history

theorem alike (worlds : World.UpToLeeway concord old past world start)
    (agendas : (world.agenda queue).UpToLeeway concord (concord.leeway queue) left) :
    World.UpToLeeway concord old past world next where
  queues id := by
    rw [trails.queues, queueOfSet]
    split
    · next same =>
      subst same
      exact ⟨(worlds.queues id).name, (worlds.queues id).taken, agendas⟩
    · exact worlds.queues id
  taken := worlds.taken
  history := trails.history

end World.Trails

end Sequencer

import Sequencer.Proofs.Interleaving
import Sequencer.Proofs.Replies

/-! Each queue of an ensemble follows its course. A step of the ensemble changes the standing of a
queue by one act of its course, or by a reply with what follows from it, or not at all; whatever
every act keeps therefore holds of every queue of every reachable ensemble. -/
namespace Sequencer
open Standing

def Task.stages (task : Task κ ν ε) : List (Stage κ ν) :=
  task.frame.stage :: task.callers.map Caller.stage

def Turn.stages : Turn κ ν ε → List (Stage κ ν)
  | .enter frame => [frame.stage]
  | _ => []

def ownStages (queue : QueueId) (stages : List (Stage κ ν)) : List (Stage κ ν) :=
  stages.filter fun stage => stage.queue? = some queue

theorem ownAppend (queue : QueueId) (left right : List (Stage κ ν)) :
    ownStages queue (left ++ right) = ownStages queue left ++ ownStages queue right :=
  List.filter_append _ _

theorem ownCons (queue : QueueId) (stage : Stage κ ν) (rest : List (Stage κ ν)) :
    ownStages queue (stage :: rest) =
      if stage.queue? = some queue then stage :: ownStages queue rest
      else ownStages queue rest := by
  simp [ownStages, List.filter_cons]

def Point.Fits (own : List (Stage κ ν)) (taken : Bool) : Point κ ν → Prop
  | .free => own = [] ∧ taken = false
  | .inside stage => own = [stage] ∧ taken = true
  | .finished _ => own = [] ∧ taken = true
  | _ => False

theorem Point.freeOfUntaken {own : List (Stage κ ν)} {point : Point κ ν}
    (fits : point.Fits own false) : point = .free ∧ own = [] := by
  cases point with
  | free => exact ⟨rfl, fits.1⟩
  | inside stage => cases fits.2
  | finished result => cases fits.2
  | proceeding run value => exact fits.elim
  | delivering run delivery rest index dropped => exact fits.elim

theorem resumedStages (callers : List (Caller κ ν ε)) (world : World κ ν ε) (turn : Turn κ ν ε) :
    ((Machine.resume callers (world, turn)).tasks.flatMap Task.stages).Sublist
      (turn.stages ++ callers.map Caller.stage) := by
  cases turn <;> cases callers <;> simp [Machine.resume, Progress.tasks, Task.stages, Machine.task,
    Turn.stages]

namespace Ensemble

variable {behaviour : Behaviour κ ν ε}

def stages (ensemble : Ensemble κ ν ε) : List (Stage κ ν) :=
  ensemble.tasks.flatMap Task.stages

def standing (ensemble : Ensemble κ ν ε) (queue : QueueId) (point : Point κ ν) : Standing κ ν ε :=
  ⟨ensemble.world.agenda queue, ensemble.world.log queue, point⟩

def At (ensemble : Ensemble κ ν ε) (queue : QueueId) (point : Point κ ν) : Prop :=
  point.Fits (ownStages queue ensemble.stages) (ensemble.world.queue queue).taken

inductive Move (queue : QueueId) (name : String) (before : Ensemble κ ν ε) :
    Standing κ ν ε → Standing κ ν ε → Prop where
  | still (a) : Move queue name before a a
  | given {a b} (act : Given queue name a b) : Move queue name before a b
  | reply {stage ending a middle b} (ends : before.Ends stage ending)
      (act : Response queue stage ending a middle) (path : Follows queue middle b) :
      Move queue name before a b

variable {queue : QueueId} {name : String} {point : Point κ ν}

theorem atSublist (name : String) (before : Ensemble κ ν ε) {a b : Ensemble κ ν ε}
    (here : a.At queue point)
    (agenda : b.world.agenda queue = a.world.agenda queue)
    (log : b.world.log queue = a.world.log queue)
    (taken : (b.world.queue queue).taken = (a.world.queue queue).taken)
    (stages : (ownStages queue b.stages).Sublist (ownStages queue a.stages)) :
    ∃ next, b.At queue next ∧
      Move queue name before (a.standing queue point) (b.standing queue next) := by
  have same : b.standing queue = a.standing queue := by
    unfold standing
    rw [agenda, log]
  unfold At at here ⊢
  rw [same, taken]
  cases point with
  | free =>
    rw [here.1, List.sublist_nil] at stages
    exact ⟨.free, ⟨stages, here.2⟩, .still _⟩
  | inside stage =>
    rw [here.1, List.sublist_cons_iff] at stages
    rcases stages with gone | ⟨rest, kept, none⟩
    · exact ⟨.finished none, ⟨List.sublist_nil.mp gone, here.2⟩, .given (.leave _ _ stage)⟩
    · cases List.sublist_nil.mp none
      exact ⟨.inside stage, ⟨kept, here.2⟩, .still _⟩
  | finished result =>
    rw [here.1, List.sublist_nil] at stages
    exact ⟨.finished result, ⟨stages, here.2⟩, .still _⟩
  | proceeding run value => exact here.elim
  | delivering run delivery rest index dropped => exact here.elim

theorem atOwn {world : World κ ν ε} {first rest : List (Task κ ν ε)} {task : Task κ ν ε}
    (here : (Ensemble.mk world (first ++ task :: rest)).At queue point)
    (own : task.frame.stage.queue? = some queue) :
    point = .inside task.frame.stage ∧ (world.queue queue).taken = true ∧
      ownStages queue (first.flatMap Task.stages) = [] ∧
      ownStages queue (task.callers.map Caller.stage) = [] ∧
      ownStages queue (rest.flatMap Task.stages) = [] := by
  have stages : ownStages queue (Ensemble.mk world (first ++ task :: rest)).stages =
      ownStages queue (first.flatMap Task.stages) ++ task.frame.stage ::
        (ownStages queue (task.callers.map Caller.stage) ++
          ownStages queue (rest.flatMap Task.stages)) := by
    simp [ownStages, Ensemble.stages, Task.stages, own]
  unfold At at here
  rw [stages] at here
  cases point with
  | free => simp [Point.Fits] at here
  | finished result => simp [Point.Fits] at here
  | proceeding run value => exact here.elim
  | delivering run delivery rest index dropped => exact here.elim
  | inside stage =>
    obtain ⟨single, taken⟩ := here
    rw [List.append_eq_singleton_iff] at single
    rcases single with ⟨before, after⟩ | ⟨-, impossible⟩
    · obtain ⟨same, none⟩ := List.cons.inj after
      rw [List.append_eq_nil_iff] at none
      exact ⟨by rw [same], taken, before, none.1, none.2⟩
    · contradiction

theorem atStage {s : Ensemble κ ν ε} (here : s.At queue point) {stage : Stage κ ν}
    (present : stage ∈ s.stages) (own : stage.queue? = some queue) : point = .inside stage := by
  have mine : stage ∈ ownStages queue s.stages := by simp [ownStages, present, own]
  cases point with
  | inside other =>
    rw [here.1, List.mem_singleton] at mine
    rw [mine]
  | free => simp [here.1] at mine
  | finished result => simp [here.1] at mine
  | proceeding run value => exact here.elim
  | delivering run delivery rest index dropped => exact here.elim

variable (queue) in
theorem stagesAfter (world : World κ ν ε) (first rest : List (Task κ ν ε))
    (callers : List (Caller κ ν ε)) (turn : Turn κ ν ε) :
    (ownStages queue (Ensemble.mk world
      (first ++ (Machine.resume callers (world, turn)).tasks ++ rest)).stages).Sublist
      (ownStages queue (first.flatMap Task.stages) ++ (ownStages queue turn.stages ++
        ownStages queue (callers.map Caller.stage)) ++
        ownStages queue (rest.flatMap Task.stages)) := by
  have resumed := (resumedStages callers world turn).filter fun stage => stage.queue? = some queue
  simp only [Ensemble.stages, ownStages, List.flatMap_append, List.filter_append] at resumed ⊢
  exact ((List.Sublist.refl _).append resumed).append (.refl _)

theorem fewerStages {before after : World κ ν ε} {first rest : List (Task κ ν ε)}
    {frame : Frame κ ν ε} {callers : List (Caller κ ν ε)} {turn : Turn κ ν ε}
    (none : ownStages queue turn.stages = []) :
    (ownStages queue (Ensemble.mk after
      (first ++ (Machine.resume callers (after, turn)).tasks ++ rest)).stages).Sublist
      (ownStages queue (Ensemble.mk before (first ++ ⟨frame, callers⟩ :: rest)).stages) := by
  refine (stagesAfter queue after first rest callers turn).trans ?_
  rw [none, List.nil_append]
  simp only [Ensemble.stages, ownStages, List.flatMap_append, List.flatMap_cons,
    List.filter_append, Task.stages, List.append_assoc]
  refine (List.Sublist.refl _).append (.append ?_ (.refl _))
  exact (List.sublist_cons_self _ _).filter _

variable (name) in
theorem concludeMoves {world : World κ ν ε} {first rest : List (Task κ ν ε)} {stage : Stage κ ν}
    {ending : Ending (stage.Answer ε)} {callers : List (Caller κ ν ε)} {left : World κ ν ε}
    {turn : Turn κ ν ε}
    (concluded : Scheduler.conclude behaviour world stage ending = (left, turn))
    (here : (Ensemble.mk world (first ++ ⟨⟨stage, ending.code⟩, callers⟩ :: rest)).At queue point) :
    (left.queue queue).name = (world.queue queue).name ∧ ∃ next,
      (Ensemble.mk left
        (first ++ (Machine.resume callers (left, turn)).tasks ++ rest)).At queue next ∧
      Move queue name ⟨world, first ++ ⟨⟨stage, ending.code⟩, callers⟩ :: rest⟩
        ⟨world.agenda queue, world.log queue, point⟩
        ⟨left.agenda queue, left.log queue, next⟩ := by
  have frozen (same : left = world) (none : turn.stages = []) :=
    atSublist name ⟨world, first ++ ⟨⟨stage, ending.code⟩, callers⟩ :: rest⟩
      (b := ⟨left, first ++ (Machine.resume callers (left, turn)).tasks ++ rest⟩) here
      (by rw [same]) (by rw [same]) (by rw [same]) (fewerStages (by rw [none]; rfl))
  cases home : stage.queue? with
  | none =>
    cases stage <;> simp only [Stage.queue?, reduceCtorEq] at home
    cases ending <;> cases concluded <;> exact ⟨rfl, frozen rfl rfl⟩
  | some id =>
    rcases Scheduler.concludeReplies behaviour stage ending home with replies | ⟨payload, unwound⟩
    · rw [concluded] at replies
      refine ⟨replies.apart.name queue, ?_⟩
      -- the code belongs to one queue: that one moves on, every other may at most lose its callers
      by_cases mine : id = queue
      · cases mine
        obtain ⟨rfl, taken, before, among, behind⟩ := atOwn here home
        obtain ⟨middle, act, path⟩ := replies.acts
        refine ⟨turn.point, ?_, .reply ⟨callers, by simp⟩ act path⟩
        have taken := (replies.apart.taken queue).trans taken
        have stages := stagesAfter queue left first rest callers turn
        dsimp only at among
        rw [before, among, behind] at stages
        cases turn with
        | enter frame =>
          refine ⟨?_, taken⟩
          have within : frame.stage.queue? = some queue := replies.within
          change ownStages queue (List.flatMap _ _) = _
          simp only [Machine.resume, Progress.tasks, List.flatMap_append, List.flatMap_singleton,
            ownStages, List.filter_append] at before behind ⊢
          rw [before, behind]
          simpa [Task.stages, Machine.task, within, ownStages] using among
        | returned result => exact ⟨List.sublist_nil.mp stages, taken⟩
        | unwound payload => exact ⟨List.sublist_nil.mp stages, taken⟩
        | left => exact ⟨List.sublist_nil.mp stages, taken⟩
      · refine atSublist name _ here (replies.apart.agenda queue (Ne.symm mine))
          (replies.apart.log queue (Ne.symm mine)) (replies.apart.taken queue) (fewerStages ?_)
        cases turn with
        | enter frame =>
          have within : frame.stage.queue? = some id := replies.within
          simp [ownStages, Turn.stages, within, mine]
        | returned result => rfl
        | unwound payload => rfl
        | left => rfl
    · cases concluded.symm.trans unwound
      exact ⟨rfl, frozen rfl rfl⟩

theorem endMoves {world : World κ ν ε} {first rest : List (Task κ ν ε)} {stage : Stage κ ν}
    {callers : List (Caller κ ν ε)} (ending : Ending (stage.Answer ε))
    (here : (Ensemble.mk world (first ++ ⟨⟨stage, ending.code⟩, callers⟩ :: rest)).At queue point)
    (named : (world.queue queue).name = name) :
    let progress := (Machine.mk world ⟨stage, ending.code⟩ callers).advance behaviour
    (progress.world.queue queue).name = name ∧ ∃ next,
      (Ensemble.mk progress.world (first ++ progress.tasks ++ rest)).At queue next ∧
      Move queue name ⟨world, first ++ ⟨⟨stage, ending.code⟩, callers⟩ :: rest⟩
        ⟨world.agenda queue, world.log queue, point⟩
        ⟨progress.world.agenda queue, progress.world.log queue, next⟩ := by
  intro progress
  cases concluded : Scheduler.conclude behaviour world stage ending with
  | mk left turn =>
    have same : progress = Machine.resume callers (left, turn) :=
      (Machine.advanceEnding behaviour world stage ending callers).trans (by rw [concluded])
    obtain ⟨kept, moves⟩ := concludeMoves name concluded here
    rw [same, Machine.worldOfResume]
    exact ⟨kept.trans named, moves⟩

variable (behaviour) in
theorem startMoves {world : World κ ν ε} {tasks others : List (Task κ ν ε)}
    (left right : List (Stage κ ν)) (before : Ensemble κ ν ε) (id : QueueId) (value : ν)
    (untaken : (world.queue id).taken = false)
    (here : (Ensemble.mk world tasks).At queue point) (named : (world.queue queue).name = name)
    (old : (Ensemble.mk world tasks).stages = left ++ right)
    (new : (Ensemble.mk world others).stages = left ++ .startingRun id value :: right) :
    let next := (Scheduler.startRun behaviour (world.take id) id value).1
    (next.queue queue).name = name ∧ ∃ there, (Ensemble.mk next others).At queue there ∧
      Move queue name before ⟨world.agenda queue, world.log queue, point⟩
        ⟨next.agenda queue, next.log queue, there⟩ := by
  intro next
  have kept := World.queueAfterTake world id queue
  have agenda : next.agenda queue = world.agenda queue := World.agendaAfterTake world id queue
  have log : next.log queue = if id = queue then
      world.log queue ++ [.asked id (.startRun ((world.take id).nameOf id))]
      else world.log queue := by
    change (World.record _ _).log queue = _
    simp [Event.queue?]
  refine ⟨kept.1.trans named, ?_⟩
  by_cases mine : id = queue
  · cases mine
    have name : (world.take queue).nameOf queue = name := kept.1.trans named
    rw [name, if_pos rfl] at log
    change point.Fits (ownStages queue (Ensemble.mk world tasks).stages) _ at here
    rw [old, untaken, ownAppend] at here
    obtain ⟨rfl, none⟩ := Point.freeOfUntaken here
    rw [List.append_eq_nil_iff] at none
    refine ⟨.inside (.startingRun queue value), ⟨?_, kept.2.trans (by simp)⟩, ?_⟩
    · change ownStages queue (Ensemble.mk world others).stages = _
      rw [new, ownAppend, ownCons, none.1, none.2, List.nil_append]
      exact if_pos rfl
    · rw [agenda, log]
      exact .given (.begin _ _ value)
  · rw [if_neg mine] at log
    have foreign : (Stage.startingRun id value : Stage κ ν).queue? ≠ some queue :=
      fun same => mine (Option.some.inj same)
    have unmoved : (next.queue queue).taken = (world.queue queue).taken :=
      kept.2.trans (by simp [Ne.symm mine])
    refine atSublist name before (b := ⟨next, others⟩) here agenda log unmoved ?_
    change (ownStages queue (Ensemble.mk world others).stages).Sublist _
    have same : ownStages queue (Ensemble.mk world others).stages =
        ownStages queue (Ensemble.mk world tasks).stages := by
      rw [new, old, ownAppend, ownAppend, ownCons, if_neg foreign]
    exact same ▸ .refl _

theorem sameStages (before after : World κ ν ε) (first rest : List (Task κ ν ε)) (stage : Stage κ ν)
    (code next : Program κ ν ε (stage.Answer ε)) (callers : List (Caller κ ν ε)) :
    (Ensemble.mk after (first ++ [⟨⟨stage, next⟩, callers⟩] ++ rest)).stages =
      (Ensemble.mk before (first ++ ⟨⟨stage, code⟩, callers⟩ :: rest)).stages := by
  simp [Ensemble.stages, Task.stages]

section Within

variable {world : World κ ν ε} {first rest : List (Task κ ν ε)} {stage : Stage κ ν}
  {code : Program κ ν ε (stage.Answer ε)} {callers : List (Caller κ ν ε)}
  (here : (Ensemble.mk world (first ++ ⟨⟨stage, code⟩, callers⟩ :: rest)).At queue point)

include here

theorem goesOnMoves (left : World κ ν ε) (after : Program κ ν ε (stage.Answer ε))
    (agenda : left.agenda queue = world.agenda queue) (log : left.log queue = world.log queue)
    (taken : (left.queue queue).taken = (world.queue queue).taken) :
    ∃ next, (Ensemble.mk left (first ++ [⟨⟨stage, after⟩, callers⟩] ++ rest)).At queue next ∧
      Move queue name ⟨world, first ++ ⟨⟨stage, code⟩, callers⟩ :: rest⟩
        ⟨world.agenda queue, world.log queue, point⟩
        ⟨left.agenda queue, left.log queue, next⟩ :=
  atSublist name ⟨world, first ++ ⟨⟨stage, code⟩, callers⟩ :: rest⟩
    (b := ⟨left, first ++ [⟨⟨stage, after⟩, callers⟩] ++ rest⟩) here agenda log taken
    (sameStages world left first rest stage code after callers ▸ .refl _)

theorem appendMoves (id : QueueId) (step : Step κ) (after : Program κ ν ε (stage.Answer ε)) :
    ∃ next, (Ensemble.mk (world.append id step)
        (first ++ [⟨⟨stage, after⟩, callers⟩] ++ rest)).At queue next ∧
      Move queue name ⟨world, first ++ ⟨⟨stage, code⟩, callers⟩ :: rest⟩
        ⟨world.agenda queue, world.log queue, point⟩
        ⟨(world.append id step).agenda queue, (world.append id step).log queue, next⟩ := by
  have kept := World.queueAfterSet world id queue ((world.agenda id).append step)
  by_cases mine : id = queue
  · cases mine
    obtain ⟨agenda, log⟩ := World.appendOwn world queue step
    rw [agenda, log]
    refine ⟨point, ?_, .given (.append _ _ point step)⟩
    have stages := sameStages world (world.append queue step) first rest stage code after callers
    change point.Fits (ownStages queue _) ((world.append queue step).queue queue).taken
    rw [stages]
    exact kept.2 ▸ here
  · obtain ⟨agenda, log⟩ := World.appendOther world mine step
    exact goesOnMoves here _ after agenda log kept.2

theorem discardMoves (id : QueueId) (untaken : (world.queue id).taken = false)
    (after : Program κ ν ε (stage.Answer ε)) :
    ∃ next, (Ensemble.mk (world.take id)
        (first ++ [⟨⟨stage, after⟩, callers⟩] ++ rest)).At queue next ∧
      Move queue name ⟨world, first ++ ⟨⟨stage, code⟩, callers⟩ :: rest⟩
        ⟨world.agenda queue, world.log queue, point⟩
        ⟨(world.take id).agenda queue, (world.take id).log queue, next⟩ := by
  have kept := World.queueAfterTake world id queue
  by_cases mine : id = queue
  · cases mine
    have stages := sameStages world (world.take queue) first rest stage code after callers
    change point.Fits _ _ at here
    rw [untaken] at here
    obtain ⟨rfl, none⟩ := Point.freeOfUntaken here
    refine ⟨.finished .none, ⟨?_, kept.2.trans (by simp)⟩, ?_⟩
    · exact (congrArg (ownStages queue) stages).trans none
    · rw [World.agendaAfterTake]
      exact .given (.discard _ _)
  · exact goesOnMoves here _ after (World.agendaAfterTake world id queue) rfl
      (kept.2.trans (by simp [Ne.symm mine]))

end Within

theorem advanceMoves {world : World κ ν ε} {first rest : List (Task κ ν ε)} {task : Task κ ν ε}
    (here : (Ensemble.mk world (first ++ task :: rest)).At queue point)
    (named : (world.queue queue).name = name) :
    let progress := (task.on world).advance behaviour
    (progress.world.queue queue).name = name ∧ ∃ next,
      (Ensemble.mk progress.world (first ++ progress.tasks ++ rest)).At queue next ∧
      Move queue name ⟨world, first ++ task :: rest⟩ ⟨world.agenda queue, world.log queue, point⟩
        ⟨progress.world.agenda queue, progress.world.log queue, next⟩ := by
  obtain ⟨⟨stage, code⟩, callers⟩ := task
  cases code with
  | done answer => exact endMoves (.returned answer) here named
  | fail failure => exact endMoves (.failed failure) here named
  | panic payload => exact endMoves (.panicked payload) here named
  | append id step next =>
    have kept := World.queueAfterSet world id queue ((world.agenda id).append step)
    exact ⟨kept.1.trans named, appendMoves here id step next⟩
  | ask id next => exact ⟨named, goesOnMoves here world _ rfl rfl rfl⟩
  | look id next => exact ⟨named, goesOnMoves here world _ rfl rfl rfl⟩
  | note remark next =>
    exact ⟨named, goesOnMoves here _ next rfl (World.logAfterRecord _ _ _) rfl⟩
  | suspend next =>
    dsimp only [Task.on, Machine.advance]
    split
    · exact ⟨named, goesOnMoves here world next rfl rfl rfl⟩
    · exact ⟨named, goesOnMoves here world next rfl rfl rfl⟩
  | discard id next =>
    dsimp only [Task.on, Machine.advance]
    split
    · exact ⟨named, goesOnMoves here world _ rfl rfl rfl⟩
    · next untaken =>
      have kept := World.queueAfterTake world id queue
      exact ⟨kept.1.trans named, discardMoves here id (Bool.eq_false_iff.mpr untaken) _⟩
  | run id initial next =>
    dsimp only [Task.on, Machine.advance]
    split
    · exact ⟨named, goesOnMoves here world _ rfl rfl rfl⟩
    · next untaken =>
      refine startMoves behaviour (first.flatMap Task.stages)
        (stage :: callers.map Caller.stage ++ rest.flatMap Task.stages) _ id
        (initial.getD behaviour.neutral) (Bool.eq_false_iff.mpr untaken) here named ?_ ?_
      · simp [Ensemble.stages, Task.stages]
      · simp [Ensemble.stages, Task.stages, Progress.tasks, Machine.task, Machine.start,
          Scheduler.startRun]

theorem nextMoves {a b : Ensemble κ ν ε} (step : Next behaviour a b) (here : a.At queue point)
    (named : (a.world.queue queue).name = name) :
    (b.world.queue queue).name = name ∧ ∃ next, b.At queue next ∧
      Move queue name a (a.standing queue point) (b.standing queue next) := by
  cases step with
  | outside world tasks code =>
    refine ⟨named, point, ?_, .still _⟩
    simpa [At, Ensemble.stages, Machine.outside, Machine.task, Task.stages, ownStages,
      Stage.queue?] using here
  | run world tasks id initial untaken =>
    exact startMoves behaviour [] _ _ id _ untaken here named rfl rfl
  | advance world first task rest => exact advanceMoves here named
  | drop world first task rest =>
    refine ⟨named, atSublist name _ here rfl rfl rfl ?_⟩
    simp only [Ensemble.stages, List.flatMap_append, List.flatMap_cons, ownAppend]
    exact (List.Sublist.refl _).append (List.sublist_append_right _ _)

end Ensemble

end Sequencer

import Sequencer.Proofs.Causes
import Sequencer.Proofs.Entered
import Sequencer.Proofs.Outcome

/-! What a recorder is told, in any run that gives its result. A run that is not admitted makes no
other call. One that is makes an exchange for each applied step, perhaps one more start that is
refused, and one completion; every id in a call is what the recorder answered before. The code that
is entered for the calls is the recorder's own. -/
namespace Sequencer
open Standing

structure Exchange where
  info : StepInfo
  step : Int
  status : StepStatus

def Exchange.calls (run : Int) (exchange : Exchange) : List Call :=
  [.startStep run exchange.info, .completeStep exchange.step exchange.status]

def dialogue (name : String) (run : Int) (exchanges : List Exchange) : List Call :=
  .startRun name :: exchanges.flatMap (Exchange.calls run)

theorem dialogueOfSnoc (name : String) (run : Int) (exchanges : List Exchange)
    (exchange : Exchange) : dialogue name run (exchanges ++ [exchange]) =
      dialogue name run exchanges ++ exchange.calls run := by
  simp [dialogue]

def Exchange.Completed (exchange : Exchange) : Prop :=
  ∃ spliced, exchange.status = .completed spliced

def Log.Sound (log : Log κ ν ε) : Prop :=
  ∀ queue info spliced error, Event.settled queue info spliced (.error error) ∉ log

theorem Log.soundOfDeeds {log : Log κ ν ε} (sound : Log.Sound log.deeds) : log.Sound :=
  fun queue info spliced error present =>
    sound queue info spliced error (Log.deedPresent present rfl)

def Invocation.call? : Invocation κ ν → Option Call
  | .recorder call => some call
  | _ => none

theorem Log.callsInvoked (log : Log κ ν ε) :
    log.invocations.filterMap Invocation.call? = log.calls := by
  rw [Log.invocations, List.filterMap_filterMap]
  congr
  funext event
  cases event <;> rfl

theorem Log.latestCall {log : Log κ ν ε} {call : Call}
    (latest : log.invocations.getLast? = some (.recorder call)) :
    log.calls.getLast? = some call := by
  obtain ⟨earlier, invocations⟩ := List.getLast?_eq_some_iff.mp latest
  simp [← Log.callsInvoked, invocations, Invocation.call?]

/- A frame with code of a recorder is entered for a call of it, and for each call one. -/
abbrev Calls (behaviour : Behaviour κ ν ε) (calls : List Call) (frames : List (Frame κ ν ε)) :
    Prop :=
  List.Forall₂ (fun call frame => Invocation.Enters behaviour (.recorder call) frame) calls
    (frames.filter fun frame => frame.stage.recorder)

theorem Summons.recorded (summons : Summons κ ν) (behaviour : Behaviour κ ν ε) :
    Calls behaviour summons.invocation.call?.toList [summons.frame behaviour] := by
  cases summons <;> first | exact .nil | exact .cons ⟨_, rfl, rfl⟩ .nil

theorem Performed.recorded {behaviour : Behaviour κ ν ε} {last : Option (Frame κ ν ε)}
    {invocations : List (Invocation κ ν)} {frames : List (Frame κ ν ε)}
    (performed : Performed behaviour last invocations frames) :
    Calls behaviour (invocations.filterMap Invocation.call?) frames := by
  induction performed with
  | nothing => exact .nil
  | call _ enters ih =>
    obtain ⟨summons, rfl, rfl⟩ := enters
    rw [Calls, List.filterMap_append, List.filter_append]
    refine List.rel_append ih ?_
    have recorded := summons.recorded behaviour
    cases called : summons.invocation.call? <;> simpa [called] using recorded
  | given _ latest gave ih => simpa [Calls, Stage.recorder] using ih

namespace Fall

def exchanges (index : UInt32) (fall : Fall κ ν) : List Exchange :=
  fall.attempt.toList.map fun attempt =>
    ⟨fall.entry.info index, attempt.step, .failed fall.error.text⟩

def refusals (index : UInt32) (fall : Fall κ ν) : List StepInfo :=
  if fall.attempt.isSome then [] else [fall.entry.info index]

end Fall

namespace Trunk

def exchanges (trunk : Trunk κ ν) : List Exchange :=
  trunk.rounds.zipIdx.map fun (round, place) =>
    ⟨round.entry.info (UInt32.ofNat place), round.step, .completed round.spliced⟩

theorem dialogueOfCalls (trunk : Trunk κ ν) (name : String) :
    dialogue name trunk.run trunk.exchanges = .startRun name :: trunk.calls := by
  simp only [dialogue, exchanges, calls, List.flatMap_map]
  rfl

theorem exchangesOfGrow (trunk : Trunk κ ν) (round : Round κ ν) :
    (trunk.grow round).exchanges = trunk.exchanges ++
      [⟨round.entry.info trunk.index, round.step, .completed round.spliced⟩] := by
  simp [exchanges, grow, List.zipIdx_append, index]

theorem lengthOfExchanges (trunk : Trunk κ ν) :
    trunk.exchanges.length = trunk.rounds.length := by
  simp [exchanges]

theorem exchangesCompleted (trunk : Trunk κ ν) :
    ∀ exchange ∈ trunk.exchanges, exchange.Completed := by
  intro exchange present
  obtain ⟨⟨round, place⟩, -, rfl⟩ := List.mem_map.mp present
  exact ⟨round.spliced, rfl⟩

theorem sound (queue : QueueId) (name : String) (trunk : Trunk κ ν) :
    Log.Sound (trunk.events queue name : Log κ ν ε) := by
  intro id info spliced error
  simp [events, Round.events, opening]

end Trunk

theorem Completed.sound {queue : QueueId} {name : String} {value : ν} {agenda : Agenda κ}
    {log before after : Log κ ν ε} {trunk : Trunk κ ν}
    (completed : Completed queue name value agenda log trunk before after) : log.Sound := by
  obtain ⟨complaint, deeds⟩ := completed.deeds
  refine Log.soundOfDeeds fun id info spliced error => ?_
  have trunks := trunk.sound (ε := ε) queue name id info spliced error
  simp [deeds, trunks]

namespace Fell

variable {queue : QueueId} {name : String} {error : RunError} {agenda : Agenda κ}
  {log before after : Log κ ν ε} {trunk : Trunk κ ν} {fall : Fall κ ν}

theorem leads (fell : Fell queue name error agenda log trunk fall before after) :
    trunk.events queue name ++ fall.lead queue trunk.run trunk.index ++
      [fall.blow queue trunk.index] <+: log.deeds := by
  obtain ⟨complaint, cut⟩ := fell.cut
  rw [cut, List.prefix_append_right_inj, List.cons_prefix_cons]
  exact ⟨rfl, List.nil_prefix⟩

theorem sound (fell : Fell queue name error agenda log trunk fall before after)
    (refused : fall.attempt = none) : log.Sound := by
  obtain ⟨complaint, cut⟩ := fell.cut
  refine Log.soundOfDeeds fun id info spliced thrown => ?_
  have trunks := trunk.sound (ε := ε) queue name id info spliced thrown
  simp [cut, trunks, Fall.lead, Fall.blow, Fall.closing, opening, refused, notices]

end Fell

namespace Ensemble

variable {behaviour : Behaviour κ ν ε} {queue : QueueId} {name : String} {last : Ensemble κ ν ε}

/- The start of a step that came next after the exchanges: it bears its place, the calls were the
exchanges and this start, and the recorder's code for it ended so. -/
def Opened (behaviour : Behaviour κ ν ε) (queue : QueueId) (name : String) (run : Int)
    (last : Ensemble κ ν ε) (exchanges : List Exchange) (info : StepInfo) (ending : Ending Int) :
    Prop :=
  info.index = UInt32.ofNat exchanges.length ∧
  ∃ (a : Ensemble κ ν ε) (value : ν) (entry : Entry κ), Reaches behaviour a last ∧
    (a.world.log queue).calls = dialogue name run exchanges ++ [.startStep run info] ∧
    a.Ends (.startingStep ⟨queue, run, UInt32.ofNat exchanges.length⟩ value entry info) ending ∧
    ((behaviour.recorder queue).startStep run info).Comes ending.code

def Exchanged (behaviour : Behaviour κ ν ε) (queue : QueueId) (name : String) (run : Int)
    (last : Ensemble κ ν ε) (exchanges : List Exchange) : Prop :=
  ∀ place exchange, exchanges[place]? = some exchange →
    Opened behaviour queue name run last (exchanges.take place) exchange.info
      (.returned exchange.step)

/- How the exchanges lead to the result: each was completed and the run ends well, or a step failed
in the last one, or the start of one more step was refused. -/
inductive Concluded (behaviour : Behaviour κ ν ε) (queue : QueueId) (name : String) (run : Int)
    (last : Ensemble κ ν ε) :
    List Exchange → Except RunError ν → List StepInfo → RunStatus → Prop where
  | completed {exchanges value} (all : ∀ exchange ∈ exchanges, exchange.Completed)
      (sound : Log.Sound (last.world.log queue)) :
      Concluded behaviour queue name run last exchanges (.ok value) []
        (.completed (UInt32.ofNat exchanges.length))
  | failed {exchanges info step spliced error dropped}
      (all : ∀ exchange ∈ exchanges, exchange.Completed)
      (settled : .settled queue info spliced (.error error) ∈ last.world.log queue) :
      Concluded behaviour queue name run last
        (exchanges ++ [⟨info, step, .failed error.text⟩]) (.error error) []
        (.failed error.text dropped)
  | refused {exchanges info failure error dropped}
      (all : ∀ exchange ∈ exchanges, exchange.Completed)
      (sound : Log.Sound (last.world.log queue))
      (opened : Opened behaviour queue name run last exchanges info (.failed failure))
      (cause : error = .recorder failure) :
      Concluded behaviour queue name run last exchanges (.error error) [info]
        (.failed error.text dropped)

structure Converses (behaviour : Behaviour κ ν ε) (queue : QueueId) (name : String)
    (last : Ensemble κ ν ε) (result : Except RunError ν) (run : Int) (exchanges : List Exchange)
    (refused : List StepInfo) (status : RunStatus) : Prop where
  started : ∃ (a : Ensemble κ ν ε) (value : ν), Reaches behaviour a last ∧
    (a.world.log queue).calls = [.startRun name] ∧
    a.Ends (.startingRun queue value) (.returned run) ∧
    ((behaviour.recorder queue).startRun name).Comes (.done run)
  exchanged : Exchanged behaviour queue name run last exchanges
  calls : (last.world.log queue).calls = dialogue name run exchanges ++
    refused.map (.startStep run) ++ [.completeRun run status]
  concluded : Concluded behaviour queue name run last exchanges result refused status

theorem Exchanged.snoc {run : Int} {exchanges : List Exchange} {exchange : Exchange}
    (exchanged : Exchanged behaviour queue name run last exchanges)
    (opened : Opened behaviour queue name run last exchanges exchange.info
      (.returned exchange.step)) :
    Exchanged behaviour queue name run last (exchanges ++ [exchange]) := by
  intro place other present
  rcases Nat.lt_trichotomy place exchanges.length with earlier | rfl | later
  · rw [List.getElem?_append_left earlier] at present
    rw [List.take_append_of_le_length (Nat.le_of_lt earlier)]
    exact exchanged place other present
  · rw [List.getElem?_concat_length] at present
    cases Option.some.inj present
    rw [List.take_left]
    exact opened
  · rw [List.getElem?_eq_none (by simp; omega)] at present
    contradiction

theorem startComes {world : World κ ν ε} {value : ν} {code : Program κ ν ε Int}
    (remains : Remains behaviour world ⟨.startingRun queue value, code⟩)
    (calls : (world.log queue).calls = [.startRun name]) :
    ((behaviour.recorder queue).startRun name).Comes code := by
  obtain ⟨other, latest, comes⟩ := remains.startingRun
  have latest := Log.latestCall latest
  rw [calls] at latest
  cases latest
  exact comes

theorem openingAnswered (reached : Reachable behaviour last) {trunk : Trunk κ ν} {entry : Entry κ}
    {event : Event κ ν ε} (answers : event.answers = true)
    (deeds : trunk.events queue (last.world.nameOf queue) ++
      opening queue trunk.run entry trunk.index ++ [event] <+: (last.world.log queue).deeds) :
    ∃ a stage ending rest, Reaches behaviour a last ∧ a.Ends stage ending ∧
      Remains behaviour a.world ⟨stage, ending.code⟩ ∧
      (a.world.log queue).calls = dialogue (last.world.nameOf queue) trunk.run trunk.exchanges ++
        [.startStep trunk.run (entry.info trunk.index)] ∧
      Answer queue stage ending (a.world.agenda queue) event rest ∧
      ∀ run value other info, stage = .startingStep run value other info →
        run = trunk.asRun queue := by
  obtain ⟨rest, deeds⟩ := deeds
  rw [List.append_assoc, List.singleton_append] at deeds
  obtain ⟨before, after, log, lead, -⟩ := Log.splitDeeds deeds.symm
  obtain ⟨a, stage, ending, behind, arrived, onTheWay, ⟨callers, present⟩, rfl, told, answer, -⟩ :=
    reached.answered (keptTold queue _) answers log
  refine ⟨a, stage, ending, behind, onTheWay, ⟨callers, present⟩,
    (arrived.faithful _ present).frame, ?_, answer, ?_⟩
  · have opened : (trunk.events queue (last.world.nameOf queue) : Log κ ν ε).calls = _ :=
      congrArg Reading.calls (trunk.read queue _)
    rw [Log.calls, ← Log.readDeeds _ Event.call? fun _ _ _ => rfl, lead, List.filterMap_append,
      ← Log.calls, opened, trunk.dialogueOfCalls]
    rfl
  · rintro run value other info rfl
    obtain ⟨mine, rfl, same, opened⟩ := told
    exact (sameOpening (opened.symm.trans lead)).2

theorem appliedAnswered (reached : Reachable behaviour last) {trunk : Trunk κ ν} {entry : Entry κ}
    {step : Int} (value : ν)
    (deeds : trunk.events queue (last.world.nameOf queue) ++
      opening queue trunk.run entry trunk.index ++
      [.applied queue step entry (entry.info trunk.index) value] <+: (last.world.log queue).deeds) :
    Opened behaviour queue (last.world.nameOf queue) trunk.run last trunk.exchanges
      (entry.info trunk.index) (.returned step) := by
  obtain ⟨a, stage, ending, rest, onTheWay, ends, remains, calls, answer, same⟩ :=
    openingAnswered reached rfl deeds
  rw [Opened, trunk.lengthOfExchanges]
  refine ⟨rfl, ?_⟩
  generalize entry.info trunk.index = info at answer calls ⊢
  cases answer with
  | applied agenda run value entry _ step =>
    cases same run _ _ _ rfl
    exact ⟨a, _, _, onTheWay, calls, ends, remains.startingStep⟩

theorem refusedAnswered (reached : Reachable behaviour last) {trunk : Trunk κ ν} {entry : Entry κ}
    {error : RunError} (deeds : trunk.events queue (last.world.nameOf queue) ++
      opening queue trunk.run entry trunk.index ++
      [.refused queue (entry.info trunk.index) error] <+: (last.world.log queue).deeds) :
    ∃ failure, error = .recorder failure ∧
      Opened behaviour queue (last.world.nameOf queue) trunk.run last trunk.exchanges
        (entry.info trunk.index) (.failed failure) := by
  obtain ⟨a, stage, ending, rest, onTheWay, ends, remains, calls, answer, same⟩ :=
    openingAnswered reached rfl deeds
  have index : (entry.info trunk.index).index = UInt32.ofNat trunk.rounds.length := rfl
  generalize entry.info trunk.index = info at answer calls index ⊢
  cases answer with
  | refused agenda run value entry _ failure =>
    cases same run _ _ _ rfl
    refine ⟨failure, rfl, ?_⟩
    rw [Opened, trunk.lengthOfExchanges]
    exact ⟨index, a, _, _, onTheWay, calls, ends, remains.startingStep⟩

theorem trunkExchanged (reached : Reachable behaviour last) (trunk : Trunk κ ν)
    (deeds : trunk.events queue (last.world.nameOf queue) <+: (last.world.log queue).deeds) :
    Exchanged behaviour queue (last.world.nameOf queue) trunk.run last trunk.exchanges := by
  -- a log that starts with a trunk starts with every shorter one, so the last round is split off
  induction trunk using Trunk.byRounds with
  | admitted run queued =>
    intro place exchange present
    simp [Trunk.exchanges] at present
  | grown trunk round ih =>
    rw [Trunk.eventsOfGrow] at deeds
    rw [Trunk.exchangesOfGrow]
    refine Exchanged.snoc (ih ((List.prefix_append _ _).trans deeds)) ?_
    refine appliedAnswered reached round.input ?_
    rw [List.append_assoc]
    exact ((List.prefix_append_right_inj _).mpr (round.eventsOpen queue trunk.run _)).trans deeds

theorem startCounted (reached : Reachable behaviour last) {trunk : Trunk κ ν}
    (deeds : trunk.events queue (last.world.nameOf queue) <+: (last.world.log queue).deeds) :
    ∃ (a : Ensemble κ ν ε) (value : ν), Reaches behaviour a last ∧
      (a.world.log queue).calls = [.startRun (last.world.nameOf queue)] ∧
      a.Ends (.startingRun queue value) (.returned trunk.run) ∧
      ((behaviour.recorder queue).startRun (last.world.nameOf queue)).Comes (.done trunk.run) ∧
      trunk.queued = (a.world.agenda queue).len := by
  obtain ⟨rest, deeds⟩ := deeds
  obtain ⟨before, after, log, lead, -⟩ := Log.splitDeeds (deeds.symm.trans (by
    rw [Trunk.events, List.append_assoc]
    exact List.singleton_append.symm))
  obtain ⟨a, stage, ending, behind, arrived, onTheWay, ⟨callers, present⟩, rfl, -, answer, -⟩ :=
    reached.answered (keptTold queue _) rfl log
  have remains := (arrived.faithful _ present).frame
  have calls : (a.world.log queue).calls = [.startRun (last.world.nameOf queue)] := by
    rw [Log.calls, ← Log.readDeeds _ Event.call? fun _ _ _ => rfl, lead]
    rfl
  generalize trunk.queued = queued at answer
  cases answer with
  | started agenda value id =>
    exact ⟨a, value, onTheWay, calls, ⟨callers, present⟩, startComes remains calls, rfl⟩

theorem startAnswered (reached : Reachable behaviour last) {trunk : Trunk κ ν}
    (deeds : trunk.events queue (last.world.nameOf queue) <+: (last.world.log queue).deeds) :
    ∃ (a : Ensemble κ ν ε) (value : ν), Reaches behaviour a last ∧
      (a.world.log queue).calls = [.startRun (last.world.nameOf queue)] ∧
      a.Ends (.startingRun queue value) (.returned trunk.run) ∧
      ((behaviour.recorder queue).startRun (last.world.nameOf queue)).Comes (.done trunk.run) := by
  obtain ⟨a, value, onTheWay, calls, ends, comes, -⟩ := startCounted reached deeds
  exact ⟨a, value, onTheWay, calls, ends, comes⟩

theorem completedConverses (reached : Reachable behaviour last) {value : ν} {agenda : Agenda κ}
    {trunk : Trunk κ ν} {before after : Log κ ν ε}
    (completed : Completed queue (last.world.nameOf queue) value agenda (last.world.log queue) trunk
      before after) :
    Converses behaviour queue (last.world.nameOf queue) last (.ok value) trunk.run trunk.exchanges
      [] (.completed (UInt32.ofNat trunk.exchanges.length)) := by
  obtain ⟨-, -, -, -, called⟩ := completed.read
  obtain ⟨complaint, deeds⟩ := completed.deeds
  have prefixed :
      trunk.events queue (last.world.nameOf queue) <+: (last.world.log queue).deeds := by
    rw [deeds, List.append_assoc, List.append_assoc]
    exact List.prefix_append _ _
  refine ⟨startAnswered reached prefixed, trunkExchanged reached trunk prefixed, ?_,
    .completed trunk.exchangesCompleted completed.sound⟩
  rw [called, trunk.dialogueOfCalls, Trunk.lengthOfExchanges, List.map_nil, List.append_nil]
  rfl

theorem fellExchanges (reached : Reachable behaviour last) {error : RunError} {agenda : Agenda κ}
    {trunk : Trunk κ ν} {fall : Fall κ ν} {before after : Log κ ν ε}
    (fell : Fell queue (last.world.nameOf queue) error agenda (last.world.log queue) trunk fall
      before after) :
    Converses behaviour queue (last.world.nameOf queue) last (.error error) trunk.run
      (trunk.exchanges ++ fall.exchanges trunk.index) (fall.refusals trunk.index)
      (.failed error.text fall.dropped) := by
  obtain ⟨-, -, -, -, called⟩ := fell.read
  have leads := fell.leads
  have cause := fell.cause
  have prefixed :
      trunk.events queue (last.world.nameOf queue) <+: (last.world.log queue).deeds := by
    rw [List.append_assoc] at leads
    exact (List.prefix_append _ _).trans leads
  have exchanged := trunkExchanged reached trunk prefixed
  have started := startAnswered reached prefixed
  cases tried : fall.attempt with
  | none =>
    have exchanges : fall.exchanges trunk.index = [] := by simp [Fall.exchanges, tried]
    have refusals : fall.refusals trunk.index = [fall.entry.info trunk.index] := by
      simp [Fall.refusals, tried]
    simp only [Fall.lead, Fall.blow, tried, Option.toList_none, List.map_nil, List.append_nil]
      at leads
    obtain ⟨failure, thrown, opened⟩ := refusedAnswered reached leads
    rw [exchanges, refusals, List.append_nil]
    refine ⟨started, exchanged, ?_,
      .refused trunk.exchangesCompleted (fell.sound tried) opened (cause.trans thrown)⟩
    rw [called, trunk.dialogueOfCalls]
    simp [Fall.completion, tried]
  | some attempt =>
    have exchanges : fall.exchanges trunk.index =
        [⟨fall.entry.info trunk.index, attempt.step, .failed error.text⟩] := by
      simp [Fall.exchanges, tried, cause]
    have refusals : fall.refusals trunk.index = [] := by simp [Fall.refusals, tried]
    have blown := fell.blown
    simp only [Fall.lead, Fall.blow, tried, Option.toList_some, List.map_singleton] at leads blown
    rw [← List.append_assoc] at leads
    have opened := appliedAnswered reached _ ((List.prefix_append _ _).trans leads)
    rw [exchanges, refusals]
    refine ⟨started, exchanged.snoc opened, ?_,
      .failed trunk.exchangesCompleted (cause ▸ blown)⟩
    rw [called, dialogueOfSnoc, trunk.dialogueOfCalls]
    simp [Fall.completion, tried, Exchange.calls, cause]

theorem fellConverses (reached : Reachable behaviour last) {error : RunError} {agenda : Agenda κ}
    {trunk : Trunk κ ν} {fall : Fall κ ν} {before after : Log κ ν ε}
    (fell : Fell queue (last.world.nameOf queue) error agenda (last.world.log queue) trunk fall
      before after) :
    ∃ exchanges refused, Converses behaviour queue (last.world.nameOf queue) last (.error error)
      trunk.run exchanges refused (.failed error.text fall.dropped) :=
  ⟨_, _, fellExchanges reached fell⟩

variable {result : Except RunError ν} {s r t : Ensemble κ ν ε}

theorem Returns.rejection {error : RunError} (returns : Returns behaviour queue (.error error) s r)
    (reached : Reachable behaviour s) (rejected : Rejected queue name error (r.world.log queue)) :
    ∃ value failure, error = .recorder failure ∧
      s.Ends (.startingRun queue value) (.failed failure) ∧
      ((behaviour.recorder queue).startRun name).Comes (.fail failure) ∧
      r.world.agenda queue = s.world.agenda queue := by
  obtain ⟨point, here⟩ := reached.somewhere queue
  obtain ⟨-, stage, ending, -, ⟨callers, present⟩, response⟩ := returns.response here
  have untold (dropped : Nat) : Event.failed queue error dropped ∉ r.world.log queue := by
    intro failed
    have deed := Log.deedPresent failed rfl
    simp [rejected.deeds] at deed
  obtain ⟨value, failure, frame, agenda, log, cause⟩ := response.rejection rfl untold
  have calls : (s.world.log queue).calls = [.startRun name] := by
    have same : s.world.log queue = r.world.log queue := log.symm
    rw [same, Log.calls, ← Log.readDeeds _ _ fun _ _ _ => rfl, rejected.deeds]
    rfl
  have remains := (reached.faithful _ present).frame
  rw [frame] at present remains
  exact ⟨value, failure, cause, ⟨callers, present⟩, startComes remains calls, agenda⟩

/-- The calls of a run that gives its result follow the protocol, and no later one comes. For each
of them the code of the recorder is entered, and for nothing else. -/
theorem recorderProtocol (reached : Reachable behaviour s)
    (returns : Returns behaviour queue result s r) (later : Reaches behaviour r t) :
    (∃ value failure, result = .error (.recorder failure) ∧
      s.Ends (.startingRun queue value) (.failed failure) ∧
      ((behaviour.recorder queue).startRun (s.world.nameOf queue)).Comes (.fail failure) ∧
      r.world.agenda queue = s.world.agenda queue ∧
      (t.world.log queue).invocations = [.recorder (.startRun (s.world.nameOf queue))] ∧
      ∀ frames, Ran behaviour queue frames t →
        List.Forall₂ (Invocation.Enters behaviour) (t.world.log queue).invocations frames) ∨
    (t.world.log queue).calls = (r.world.log queue).calls ∧
      (∀ frames, Ran behaviour queue frames t →
        Calls behaviour (t.world.log queue).calls frames) ∧
      ∃ (run : Int) (exchanges : List Exchange) (refused : List StepInfo) (status : RunStatus),
        Converses behaviour queue (s.world.nameOf queue) r result run exchanges refused status := by
  have arrived := reached.next returns.next
  have named : r.world.nameOf queue = s.world.nameOf queue := reached.named (.single returns.next)
  obtain ⟨more, grown, none⟩ := returns.appends reached later
  have calls : (t.world.log queue).calls = (r.world.log queue).calls := by
    rw [grown]
    exact Log.readAppended _ none _ fun _ _ _ => rfl
  have called (frames : List (Frame κ ν ε)) (ran : Ran behaviour queue frames t) :
      Calls behaviour (t.world.log queue).calls frames :=
    Log.callsInvoked _ ▸ ran.performed.1.recorded
  cases result with
  | ok value =>
    obtain ⟨trunk, before, after, completed⟩ := returns.completed reached .refl
    rw [← named] at completed ⊢
    exact .inr ⟨calls, called, _, _, _, _, completedConverses arrived completed⟩
  | error error =>
    rcases returns.failed reached .refl with rejected | ⟨trunk, fall, before, after, fell⟩
    · obtain ⟨value, failure, cause, ends, comes, agenda⟩ := returns.rejection reached rejected
      have invocations : (t.world.log queue).invocations =
          [.recorder (.startRun (s.world.nameOf queue))] := by
        rw [grown, Log.invocations, Log.readAppended _ none _ fun _ _ _ => rfl,
          ← Log.readDeeds _ _ fun _ _ _ => rfl, rejected.deeds]
        rfl
      refine .inl ⟨value, failure, congrArg Except.error cause, ends, comes, agenda, invocations,
        fun frames ran => ran.performed.1.entersEach ?_ ?_⟩
      · simp [invocations]
      · intro run step info code program same
        cases same
    · rw [← named] at fell ⊢
      obtain ⟨exchanges, refused, converses⟩ := fellConverses arrived fell
      exact .inr ⟨calls, called, _, exchanges, refused, _, converses⟩

def opens : Call → Bool
  | .startRun _ | .startStep _ _ => true
  | .completeStep _ _ | .completeRun _ _ => false

theorem heedingEnters {call : Call} {frame : Frame Nat Nat Unit}
    (enters : Invocation.Enters heeding (.recorder call) frame) :
    frame.code.ended = opens call := by
  obtain ⟨summons, same, rfl⟩ := enters
  cases summons <;> cases same <;> rfl

theorem recorderProtocolCounting :
    Reachable heeding (heeded 8) ∧
    Returns heeding 0 (.error (.stepFailed "last" (.message "spent"))) (heeded 8) (heeded 9) ∧
    ∃ frames, Ran heeding 0 frames (heeded 9) ∧
      Calls heeding ((heeded 9).world.log 0).calls frames ∧
      (frames.filter fun frame => frame.stage.recorder).map (fun frame => frame.code.ended) =
        [true, true, false, false] ∧
      ∃ run exchanges refused status, Converses heeding 0 "counting" (heeded 9)
        (.error (.stepFailed "last" (.message "spent"))) run exchanges refused status := by
  obtain ⟨frames, ran⟩ := ((heededReachable 8).next heededReturns.next).ran 0
  obtain ⟨value, failure, cause, -⟩ | ⟨-, called, run, exchanges, refused, status, converses⟩ :=
    recorderProtocol (heededReachable 8) heededReturns .refl
  · cases cause
  · have calls := called frames ran
    refine ⟨heededReachable 8, heededReturns, frames, ran, calls, ?_, run, exchanges, refused,
      status, converses⟩
    change _ = ((heeded 9).world.log 0).calls.map opens
    rw [eq_comm, ← List.forall₂_eq_eq_eq, List.forall₂_map_left_iff, List.forall₂_map_right_iff]
    exact calls.imp fun _ _ enters => (heedingEnters enters).symm

end Ensemble

end Sequencer

import Sequencer.Proofs.FailureDelivery
import Sequencer.Proofs.Hearing
import Sequencer.Proofs.Independence

/-! The lines of a queue against what happened to it. There are two accounts of a run: the lines of
the log and the calls of the recorder. They are made at different places with counts of their own,
and they agree with each other and with the queue: on what was appended and when, on what waited
when the run began, on each applied step and the appends in its window, and on how the run ended. -/
namespace Sequencer
open Standing

def World.lines (level : Level) (world : World κ ν ε) (queue : QueueId) : List Line :=
  ((world.log queue).filterMap (Event.line? world.nameOf)).filter fun line =>
    level.keeps line.level

theorem World.ownLog (world : World κ ν ε) (queue : QueueId) :
    ∀ event ∈ world.log queue, event.queue? = some queue := fun _ present => by
  simpa using (List.mem_filter.mp present).2

theorem Session.linesReported {setup : Setup} {level : Level} (set : setup.level = some level)
    (session : Session) (queue : QueueId) :
    (session.log queue).filterMap (setup.report? session.nameOf) =
      (session.lines level queue).map Report.line := by
  rw [World.lines, List.filter_filterMap, List.map_filterMap]
  refine List.filterMap_congr fun event present => ?_
  have own := session.ownLog queue event present
  have reported : setup.report? session.nameOf event = (event.line? session.nameOf).bind
      fun line => if level.keeps line.level then some (.line line) else none := by
    cases event with
    | noted note => cases own
    | _ =>
      unfold Setup.report?
      rw [set]
      rfl
  rw [reported]
  cases event.line? session.nameOf with
  | none => rfl
  | some line => by_cases kept : level.keeps line.level <;> simp [Option.filter, kept]

theorem World.linesOfTrace (world : World κ ν ε) (queue : QueueId) :
    world.lines .trace queue = (world.log queue).filterMap (Event.line? world.nameOf) := by
  refine List.filter_eq_self.mpr fun line _ => ?_
  obtain ⟨level, message, fields⟩ := line
  cases level <;> rfl

theorem Log.tracedBy {queue : QueueId} {names others : QueueId → String}
    (same : names queue = others queue) {log : Log κ ν ε}
    (own : ∀ event ∈ log, event.queue? = some queue) :
    log.filterMap (Event.line? names) = log.filterMap (Event.line? others) := by
  refine List.filterMap_congr fun event present => ?_
  have here := own event present
  cases event <;> first | rfl | (cases here; simp only [Event.line?, same])

structure Watch where
  windows : List Nat := []
  count : Nat := 0

def Watch.observe (watch : Watch) : Event κ ν ε → Watch
  | .activated _ _ _ => { watch with count := 0 }
  | .appended _ _ _ => { watch with count := watch.count + 1 }
  | .settled _ _ _ _ => { watch with windows := watch.windows ++ [watch.count] }
  | _ => watch

def Event.watched : Event κ ν ε → Bool
  | .activated _ _ _ | .appended _ _ _ | .settled _ _ _ _ => true
  | _ => false

namespace Log

def watch (log : Log κ ν ε) : Watch := log.foldl Watch.observe {}

def windows (log : Log κ ν ε) : List Nat := log.watch.windows

theorem watchAppend (log events : Log κ ν ε) :
    Log.watch (log ++ events) = events.foldl Watch.observe log.watch := by
  rw [watch, List.foldl_append, watch]

theorem watchUnseen (log events : Log κ ν ε) (unseen : ∀ event ∈ events, event.watched = false) :
    Log.watch (log ++ events) = log.watch ∧ Log.splices (log ++ events) = log.splices := by
  induction events generalizing log with
  | nil => rw [List.append_nil]; exact ⟨rfl, rfl⟩
  | cons event rest ih =>
    rw [List.forall_mem_cons] at unseen
    obtain ⟨watch, splices⟩ := ih (log ++ [event]) unseen.2
    rw [List.append_cons, watch, splices, watchAppend, Log.splices, List.filterMap_append]
    cases event with
    | activated | appended | settled => cases unseen.1
    | _ => exact ⟨rfl, List.append_nil _⟩

end Log

namespace Standing

variable {queue : QueueId} {name : String}

structure Watched (a : Standing κ ν ε) : Prop where
  marked : a.Marked
  windows : a.log.windows = a.log.splices
  count : a.agenda.active ≠ none → a.log.watch.count = a.agenda.buffer.length

theorem Watched.unseen {agenda next : Agenda κ} {log : Log κ ν ε} {point there : Point κ ν}
    (holds : Watched ⟨agenda, log, point⟩) (events : Log κ ν ε)
    (marked : Marked ⟨next, log ++ events, there⟩)
    (count : next.active ≠ none → agenda.active ≠ none ∧ next.buffer = agenda.buffer)
    (unseen : ∀ event ∈ events, event.watched = false) : Watched ⟨next, log ++ events, there⟩ := by
  obtain ⟨watch, splices⟩ := Log.watchUnseen log events unseen
  refine ⟨marked, ?_, fun busy => ?_⟩
  · rw [Log.windows, watch, splices]
    exact holds.windows
  · obtain ⟨active, buffer⟩ := count busy
    rw [watch, buffer]
    exact holds.count active

theorem Watched.settle {agenda next : Agenda κ} {log : Log κ ν ε} {stage : Stage κ ν}
    {ending : Ending (stage.Answer ε)} {run : Run} {step : Int} {info : StepInfo}
    {result : Except RunError ν} {there : Point κ ν}
    (settles : Settles stage ending run step info result)
    (holds : Watched ⟨agenda, log, .inside stage⟩) (event : Event κ ν ε)
    (unseen : event.watched = false) (idle : next.active = none)
    (marked : Marked ⟨next,
      log ++ [.settled queue info agenda.found.size result, event], there⟩) :
    Watched ⟨next, log ++ [.settled queue info agenda.found.size result, event], there⟩ := by
  have busy : agenda.active ≠ none := by
    rw [show agenda.active = stage.mark from holds.marked.mark, settles.mark]
    exact Option.some_ne_none _
  have count : log.watch.count = agenda.found.size :=
    (holds.count busy).trans (Lane.lengthOfList agenda.found)
  have windows : log.windows = log.splices := holds.windows
  refine ⟨marked, ?_, fun busy => absurd idle busy⟩
  have past := Log.watchUnseen (log ++ [.settled queue info agenda.found.size result]) [event]
    (by simpa using unseen)
  rw [List.append_assoc, List.singleton_append] at past
  dsimp only
  rw [Log.windows, past.1, past.2, Log.watchAppend, Log.splices, List.filterMap_append,
    ← Log.splices, ← windows, ← count]
  rfl

theorem Watched.append {agenda : Agenda κ} {log : Log κ ν ε} {point : Point κ ν}
    (holds : Watched ⟨agenda, log, point⟩) (step : Step κ) (nested : Bool)
    (marked : Marked ⟨agenda.append step,
      log ++ [.appended queue (agenda.entry step) nested], point⟩) :
    Watched ⟨agenda.append step, log ++ [.appended queue (agenda.entry step) nested], point⟩ := by
  have windows : log.windows = log.splices := holds.windows
  refine ⟨marked, ?_, fun busy => ?_⟩
  · dsimp only
    rw [Log.windows, Log.watchAppend]
    exact windows.trans (log.readQuiet rfl).symm
  · dsimp only at busy ⊢
    rw [agenda.activeAfterAppend] at busy
    obtain ⟨active, mark⟩ := Option.ne_none_iff_exists'.mp busy
    rw [(Agenda.appendActive mark step).2, List.length_append, Log.watchAppend,
      ← holds.count busy]
    rfl

theorem Watched.activate {agenda next : Agenda κ} {log : Log κ ν ε} {point there : Point κ ν}
    (holds : Watched ⟨agenda, log, point⟩) (idle : agenda.active = none) {index : UInt32}
    {entry : Entry κ} (taken : agenda.activate index = some (entry, next)) (info : StepInfo)
    (call : Call)
    (marked : Marked ⟨next, log ++ [.activated queue entry info, .asked queue call], there⟩) :
    Watched ⟨next, log ++ [.activated queue entry info, .asked queue call], there⟩ := by
  have windows : log.windows = log.splices := holds.windows
  refine ⟨marked, ?_, fun _ => ?_⟩
  · dsimp only
    rw [Log.windows, Log.watchAppend]
    exact windows.trans (log.readQuiet rfl).symm
  · dsimp only
    rw [(Agenda.activateSome taken).2.1, holds.marked.idle idle, Log.watchAppend]
    rfl

variable (queue name) in
theorem keptWatched : Kept queue name (@Watched κ ν ε) where
  start := ⟨(keptMarked queue name).start, rfl, fun busy => absurd rfl busy⟩
  given act holds := by
    have marked := (keptMarked queue name).given act holds.marked
    cases act with
    | append agenda log point step => exact holds.append step _ marked
    | begin => exact holds.unseen _ marked (fun busy => ⟨busy, rfl⟩) (by simp [Event.watched])
    | discard | leave => exact { holds with marked }
  reply act holds := by
    have marked := (keptMarked queue name).reply act holds.marked
    cases act with
    | accept | apply =>
      exact holds.unseen _ marked (fun busy => ⟨busy, rfl⟩) (by simp [Event.watched])
    | settle agenda log stage ending run step info value settles =>
      exact holds.settle settles _ rfl rfl marked
    | fail agenda log stage ending run step info error settles =>
      exact holds.settle settles _ rfl rfl marked
    | refuse => exact holds.unseen _ marked (fun busy => absurd rfl busy) (by simp [Event.watched])
    | goOn agenda log run info value ending heard =>
      exact holds.unseen _ marked (fun busy => ⟨busy, rfl⟩)
        (by cases ending <;> simp [Ending.complaint?, Event.watched])
    | giveUp agenda log run info error dropped ending heard =>
      rw [List.append_assoc] at marked ⊢
      exact holds.unseen _ marked (fun busy => ⟨busy, rfl⟩)
        (by cases ending <;> simp [Ending.complaint?, Event.watched])
    | finish agenda log run verdict ending heard =>
      rw [List.append_assoc] at marked ⊢
      exact holds.unseen _ marked (fun busy => ⟨busy, rfl⟩) (by
        cases ending <;> cases verdict <;> simp [Ending.complaint?, Verdict.event, Event.watched])
    | reject | call | told => exact { holds with marked }
  follow act holds := by
    have marked := (keptMarked queue name).follow act holds.marked
    cases act with
    | activate agenda log run value entry next taken =>
      exact holds.activate holds.marked.mark taken _ _ marked
    | pass => exact { holds with marked }
    | _ => exact holds.unseen _ marked (fun busy => ⟨busy, rfl⟩) (by simp [Event.watched])

end Standing

theorem Standing.Response.last {queue : QueueId} {stage : Stage κ ν}
    {ending : Ending (stage.Answer ε)} {a b : Standing κ ν ε} {result : Except RunError ν}
    (act : Response queue stage ending a b) (finished : b.point = .finished (some result)) :
    (∃ value failure, a.point = .inside (.startingRun queue value) ∧
        result = .error (.recorder failure) ∧ b.log = a.log) ∨
      ∃ (before : Log κ ν ε) (verdict : Verdict ν) (index : UInt32),
        b.log = before ++ [verdict.event queue index] := by
  cases act with
  | reject agenda log value failure =>
    cases finished
    exact .inl ⟨value, failure, rfl, rfl, rfl⟩
  | finish agenda log run verdict ending heard => exact .inr ⟨_, verdict, run.index, rfl⟩
  | _ => cases finished

namespace Ensemble

variable {behaviour : Behaviour κ ν ε} {queue : QueueId} {result : Except RunError ν}
  {last s r t : Ensemble κ ν ε}

theorem Reachable.stepped (reached : Reachable behaviour last) {before : Log κ ν ε}
    {event : Event κ ν ε} (passed : before ++ [event] <+: last.world.log queue) :
    ∃ a b, Reachable behaviour a ∧ Next behaviour a b ∧ Reaches behaviour b last ∧
      a.world.log queue <+: before ∧ before ++ [event] <+: b.world.log queue := by
  obtain ⟨world, blank, path⟩ := reached
  induction path with
  | refl =>
    rw [world.logOfBlank blank.silent] at passed
    simp at passed
  | @tail a b earlier step ih =>
    have arrived : Reachable behaviour a := ⟨world, blank, earlier⟩
    rcases logPassed (arrived.grows (.single step) queue) passed with already | ahead
    · obtain ⟨x, y, reached, next, onward, ahead, passed⟩ := ih already
      exact ⟨x, y, reached, next, onward.tail step, ahead, passed⟩
    · exact ⟨a, b, arrived, step, .refl, ahead, passed⟩

def AppendsTold (behaviour : Behaviour κ ν ε) (queue : QueueId) (last : Ensemble κ ν ε) : Prop :=
  ∃ placed : List (Entry κ × Bool),
    saying ["step appended"] (last.world.lines .trace queue) = placed.map (fun (entry, nested) =>
      Line.appended (last.world.nameOf queue) entry.kind nested) ∧
    placed.map (fun (entry, _) => entry.ticket) =
      List.range (last.world.agenda queue).arrivals ∧
    ∀ entry nested, (entry, nested) ∈ placed → ∃ a b, Reachable behaviour a ∧
      Next behaviour a b ∧ Reaches behaviour b last ∧
      (a.world.agenda queue).Places entry (b.world.agenda queue) ∧
      nested = (a.world.agenda queue).active.isSome

theorem Reachable.appendsTold (reached : Reachable behaviour last) (queue : QueueId) :
    AppendsTold behaviour queue last := by
  have own := last.world.ownLog queue
  obtain ⟨point, -, ticketed⟩ := reached.holds (keptTicketed queue _)
  refine ⟨(last.world.log queue).filterMap Event.placement?, ?_, ?_, fun entry nested present => ?_⟩
  · rw [World.linesOfTrace]
    exact Log.saidAppends last.world.nameOf own
  · refine Eq.trans ?_ ticketed
    rw [Log.arrivals, List.map_filterMap, List.map_filterMap]
    refine List.filterMap_congr fun event _ => ?_
    cases event <;> rfl
  · obtain ⟨event, among, placement⟩ := List.mem_filterMap.mp present
    obtain ⟨before, after, log⟩ := List.append_of_mem among
    cases event with
    | appended id other flag =>
      cases placement
      cases own _ among
      have passed : before ++ [.appended queue entry nested] <+: last.world.log queue :=
        ⟨after, by rw [log, List.append_assoc]; rfl⟩
      obtain ⟨a, b, arrived, step, onward, ahead, passed⟩ := reached.stepped passed
      obtain ⟨point, here⟩ := arrived.somewhere queue
      obtain ⟨-, next, -, move⟩ := nextMoves step here rfl
      obtain ⟨new, grown⟩ : a.world.log queue <+: b.world.log queue := move.grows
      rw [← grown] at passed
      obtain ⟨left, right, rfl, -⟩ := placeOfPassed ahead passed
      have new : .appended queue entry nested ∈ left ++ .appended queue entry nested :: right := by
        simp
      obtain ⟨-, places, mark⟩ := move.places grown.symm new
      exact ⟨a, b, arrived, step, onward, places, mark⟩
    | _ => cases placement

/- A run that ended well has taken nothing out; one that failed has taken out what waited when the
code that made it fail had ended. -/
def Withdraws (behaviour : Behaviour κ ν ε) (queue : QueueId) (last : Ensemble κ ν ε) :
    Except RunError ν → Prop
  | .ok _ => (last.world.log queue).withdrawn = []
  | .error error => ∃ (a : Ensemble κ ν ε) (run : Run) (entry : Entry κ) (completion : List Call),
    Reaches behaviour a last ∧ Fails behaviour a run entry error completion ∧
      (a.world.agenda queue).pending = (last.world.log queue).withdrawn

/- How an admitted run that has given its result was told of. Its exchanges are those with the
recorder, and `refused` has the start that the recorder refused, if it did. -/
structure RunTold (behaviour : Behaviour κ ν ε) (queue : QueueId) (last : Ensemble κ ν ε)
    (result : Except RunError ν) (run : Int) (exchanges : List Exchange) (refused : List StepInfo)
    (status : RunStatus) : Prop where
  started : ∃ (a : Ensemble κ ν ε) (value : ν), Reaches behaviour a last ∧
    a.Ends (.startingRun queue value) (.returned run) ∧
    saying ["run started"] (last.world.lines .trace queue) =
      [Line.started (last.world.nameOf queue) (a.world.agenda queue).pending.length]
  applying : saying ["applying step"] (last.world.lines .trace queue) =
    exchanges.map (Exchange.applying (last.world.nameOf queue))
  windows : (last.world.log queue).windows.length = exchanges.length
  spliced : saying ["spliced nested steps"] (last.world.lines .trace queue) =
    splicedLines (last.world.nameOf queue) exchanges (last.world.log queue).windows
  completed : ∀ exchange appends,
    (exchange, appends) ∈ exchanges.zip (last.world.log queue).windows →
    ∀ spliced, exchange.status = .completed spliced → spliced = appends
  ended : ∃ before, last.world.lines .trace queue =
      before ++ [Line.ended (last.world.nameOf queue) status] ∧
    saying ["run completed", "run failed"] before = []
  dropped : saying ["dropped steps after failure"] (last.world.lines .trace queue) =
    (Line.dropped? (last.world.nameOf queue) (skipped (last.world.log queue).withdrawn)).toList
  failed : ∀ error dropped, status = .failed error dropped →
    dropped = skipped (last.world.log queue).withdrawn + refused.length
  withdrawn : Withdraws behaviour queue last result

theorem Returns.lastLine (returns : Returns behaviour queue result s r)
    (reached : Reachable behaviour s) {line : Line}
    (ended : (r.world.log queue).said r.world.nameOf ["run completed", "run failed"] = [line]) :
    ∃ before, r.world.lines .trace queue = before ++ [line] ∧
      saying ["run completed", "run failed"] before = [] := by
  obtain ⟨point, here, told⟩ := reached.holds (keptTold queue _)
  obtain ⟨-, stage, ending, rfl, -, response⟩ := returns.response here
  rcases response.last rfl with
    ⟨value, failure, starting, -, same⟩ | ⟨before, verdict, index, log⟩
  · cases starting
    have deeds : (r.world.log queue).deeds = [.asked queue (.startRun _)] :=
      (congrArg Log.deeds same).trans told
    rw [← Log.saidOfDeeds _ (by simp), deeds] at ended
    cases ended
  · have log : r.world.log queue = before ++ [verdict.event queue index] := log
    have told : (verdict.event queue index : Event κ ν ε).line? r.world.nameOf =
        some (Line.ended (r.world.nameOf queue) (verdict.status index)) := by
      cases verdict <;> rfl
    have message : (Line.ended (r.world.nameOf queue) (verdict.status index)).message ∈
        ["run completed", "run failed"] := by
      cases verdict <;> simp [Line.ended, Verdict.status]
    have last : saying ["run completed", "run failed"]
        [Line.ended (r.world.nameOf queue) (verdict.status index)] =
          [Line.ended (r.world.nameOf queue) (verdict.status index)] := by
      simpa [saying] using message
    rw [Log.said, log, List.filterMap_append, List.filterMap_cons_some told, List.filterMap_nil,
      sayingAppend, last, List.append_eq_singleton_iff] at ended
    obtain ⟨none, same⟩ | ⟨-, impossible⟩ := ended
    · refine ⟨_, ?_, none⟩
      rw [World.linesOfTrace, log, List.filterMap_append, List.filterMap_cons_some told,
        List.filterMap_nil, same]
    · cases impossible

theorem Reachable.failsWaiting (reached : Reachable behaviour last) {error : RunError}
    {agenda : Agenda κ} {trunk : Trunk κ ν} {fall : Fall κ ν} {before after : Log κ ν ε}
    (fell : Fell queue (last.world.nameOf queue) error agenda (last.world.log queue) trunk fall
      before after) :
    ∃ (a : Ensemble κ ν ε) (run : Run) (entry : Entry κ) (completion : List Call),
      Reaches behaviour a last ∧ Fails behaviour a run entry error completion ∧
      (a.world.agenda queue).pending = fall.remaining := by
  obtain ⟨before, after, rest, log, lead, waiting, -⟩ := fell.invokes
  obtain ⟨answers, -⟩ := fall.blowAnswers (ε := ε) queue trunk.index
  obtain ⟨a, stage, ending, behind, arrived, onTheWay, ends, rfl, ⟨balanced, told⟩, answer,
      within⟩ :=
    reached.answered ((keptBalanced queue _).and (keptTold queue _)) answers log
  obtain ⟨fails, -, rfl⟩ := failsByBlow arrived ends told answer lead balanced.accounts
  rw [← fell.cause] at fails
  exact ⟨a, _, _, _, onTheWay, fails, Log.withdrawnNext within waiting⟩

theorem Returns.told (returns : Returns behaviour queue result s r)
    (reached : Reachable behaviour s) {trunk : Trunk κ ν} {exchanges : List Exchange}
    {refused : List StepInfo} {status : RunStatus}
    (prefixed : trunk.events queue (r.world.nameOf queue) <+: (r.world.log queue).deeds)
    (heard : (r.world.log queue).heard r.world.nameOf =
      { started := [Line.started (r.world.nameOf queue) trunk.queued]
        applying := exchanges.map (Exchange.applying (r.world.nameOf queue))
        spliced := splicedLines (r.world.nameOf queue) exchanges (r.world.log queue).splices
        dropped := (Line.dropped? (r.world.nameOf queue)
          (skipped (r.world.log queue).withdrawn)).toList
        ended := [Line.ended (r.world.nameOf queue) status] })
    (length : (r.world.log queue).splices.length = exchanges.length)
    (completed : ∀ exchange appends,
      (exchange, appends) ∈ exchanges.zip (r.world.log queue).splices →
      ∀ spliced, exchange.status = .completed spliced → spliced = appends)
    (failed : ∀ error dropped, status = .failed error dropped →
      dropped = skipped (r.world.log queue).withdrawn + refused.length)
    (withdrawn : Withdraws behaviour queue r result) :
    RunTold behaviour queue r result trunk.run exchanges refused status := by
  have arrived := reached.next returns.next
  obtain ⟨point, -, watched⟩ := arrived.holds (keptWatched queue _)
  have windows : (r.world.log queue).windows = (r.world.log queue).splices := watched.windows
  obtain ⟨a, value, onTheWay, -, ends, -, queued⟩ := startCounted arrived prefixed
  rw [queued, ← Agenda.lengthOfPending] at heard
  simp only [Log.heard, Log.said, ← World.linesOfTrace, Hearing.mk.injEq] at heard
  obtain ⟨started, applying, spliced, dropped, ended⟩ := heard
  rw [World.linesOfTrace] at ended
  exact ⟨⟨a, value, onTheWay, ends, started⟩, applying, windows ▸ length, windows ▸ spliced,
    windows ▸ completed, returns.lastLine reached ended, dropped, failed, withdrawn⟩

theorem completedTold {value : ν} (returns : Returns behaviour queue (.ok value) s r)
    (reached : Reachable behaviour s) {agenda : Agenda κ} {trunk : Trunk κ ν}
    {before after : Log κ ν ε} (completed : Completed queue (r.world.nameOf queue) value agenda
      (r.world.log queue) trunk before after) :
    RunTold behaviour queue r (.ok value) trunk.run trunk.exchanges []
      (.completed (UInt32.ofNat trunk.exchanges.length)) := by
  obtain ⟨-, -, -, withdrawn, -⟩ := completed.read
  obtain ⟨complaint, deeds⟩ := completed.deeds
  have splices := completed.splices
  refine returns.told reached ?_ ?_ ?_ ?_ nofun withdrawn
  · rw [deeds, List.append_assoc, List.append_assoc]
    exact List.prefix_append _ _
  · rw [completed.heard, withdrawn, trunk.lengthOfExchanges]
    rfl
  · rw [splices, List.length_map, trunk.lengthOfExchanges]
  · intro exchange appends present spliced status
    rw [splices] at present
    rw [trunk.exchangeCounts present] at status
    cases status
    rfl

theorem fellTold {error : RunError} (returns : Returns behaviour queue (.error error) s r)
    (reached : Reachable behaviour s) {agenda : Agenda κ} {trunk : Trunk κ ν} {fall : Fall κ ν}
    {before after : Log κ ν ε} (fell : Fell queue (r.world.nameOf queue) error agenda
      (r.world.log queue) trunk fall before after) :
    RunTold behaviour queue r (.error error) trunk.run
      (trunk.exchanges ++ fall.exchanges trunk.index) (fall.refusals trunk.index)
      (.failed error.text fall.dropped) := by
  obtain ⟨-, -, -, withdrawn, -⟩ := fell.read
  have splices := fell.splices
  have length : trunk.exchanges.length = (trunk.rounds.map Round.spliced).length := by
    rw [trunk.lengthOfExchanges, List.length_map]
  refine returns.told reached ?_ ?_ ?_ ?_ ?_ ?_
  · have leads := fell.leads
    rw [List.append_assoc] at leads
    exact (List.prefix_append _ _).trans leads
  · rw [fell.heard, withdrawn]
  · rw [splices, List.length_append, List.length_append, length]
    simp [Fall.splices, Fall.exchanges]
  · intro exchange appends present spliced status
    rw [splices, List.zip_append length, List.mem_append] at present
    rcases present with round | fallen
    · rw [trunk.exchangeCounts round] at status
      cases status
      rfl
    · obtain ⟨text, failed⟩ := fall.exchangeFailed (List.of_mem_zip fallen).1
      cases failed.symm.trans status
  · intro text dropped status
    cases status
    rw [withdrawn, Fall.dropped, Fall.refusals]
    cases fall.attempt <;> rfl
  · rw [Withdraws, withdrawn]
    exact (reached.next returns.next).failsWaiting fell

/-- The lines of a run that gives its result agree with what the recorder was told and with what
the queue went through, and behind the last of them only appends are told of. -/
theorem linesAgree (reached : Reachable behaviour s)
    (returns : Returns behaviour queue result s r) (later : Reaches behaviour r t) :
    AppendsTold behaviour queue t ∧
    (∃ more, t.world.lines .trace queue = r.world.lines .trace queue ++ more ∧
      ∀ line ∈ more, line.message = "step appended") ∧
    ((∃ value failure, result = .error (.recorder failure) ∧
        s.Ends (.startingRun queue value) (.failed failure) ∧
        ∀ line ∈ r.world.lines .trace queue, line.message = "step appended") ∨
      ∃ (run : Int) (exchanges : List Exchange) (refused : List StepInfo) (status : RunStatus),
        Converses behaviour queue (r.world.nameOf queue) r result run exchanges refused status ∧
        RunTold behaviour queue r result run exchanges refused status) := by
  have arrived := reached.next returns.next
  have named : r.world.nameOf queue = s.world.nameOf queue := reached.named (.single returns.next)
  refine ⟨(arrived.later later).appendsTold queue, ?_, ?_⟩
  · obtain ⟨more, grown, none⟩ := returns.appends reached later
    refine ⟨more.filterMap (Event.line? r.world.nameOf), ?_, fun line told => ?_⟩
    · rw [World.linesOfTrace, World.linesOfTrace,
        Log.tracedBy (arrived.named later) (t.world.ownLog queue), grown, List.filterMap_append]
    · exact Log.saidOnlyAppends _ (by rw [none]; rfl) told
  · cases result with
    | ok value =>
      obtain ⟨trunk, before, after, completed⟩ := returns.completed reached .refl
      rw [← named] at completed
      exact .inr ⟨_, _, _, _, completedConverses arrived completed,
        completedTold returns reached completed⟩
    | error error =>
      rcases returns.failed reached .refl with rejected | ⟨trunk, fall, before, after, fell⟩
      · obtain ⟨value, failure, cause, ends, -⟩ := returns.rejection reached rejected
        refine .inl ⟨value, failure, congrArg Except.error cause, ends, fun line told => ?_⟩
        rw [World.linesOfTrace] at told
        exact Log.saidOnlyAppends _ (by rw [rejected.deeds]; rfl) told
      · rw [← named] at fell
        exact .inr ⟨_, _, _, _, fellExchanges arrived fell, fellTold returns reached fell⟩

def sunk : Ensemble Nat Nat Unit :=
  lone spending "counting" [{ kind := .value, code := 1 }, { kind := .observer, code := 0 },
    { kind := .value, code := 2 }] 9

theorem linesAgreeSunk :
    Reachable spending sunk ∧
    ∃ r, Returns spending 0 (.error (.stepFailed "value step #1" (.message "spent"))) sunk r ∧
      (r.world.lines .trace 0).map Line.message =
        ["step appended", "step appended", "step appended", "run started", "applying step",
          "step appended", "spliced nested steps", "applying step", "dropped steps after failure",
          "run failed"] ∧
      AppendsTold spending 0 r ∧
      ∃ run exchanges refused status,
        Converses spending 0 "counting" r (.error (.stepFailed "value step #1" (.message "spent")))
          run exchanges refused status ∧
        RunTold spending 0 r (.error (.stepFailed "value step #1" (.message "spent"))) run exchanges
          refused status := by
  have reached : Reachable spending sunk := loneReachable spending _ _ _
  have returns : Returns spending 0 (.error (.stepFailed "value step #1" (.message "spent"))) sunk
      _ := Returns.alone (a := sunk) spending
    (.completingRun ⟨0, 0, 2⟩ (.failed (.stepFailed "value step #1" (.message "spent")) 1))
    (.returned ()) rfl rfl rfl
  refine ⟨reached, _, returns, by decide +kernel, ?_⟩
  obtain ⟨appends, -, ⟨value, failure, cause, -⟩ | told⟩ := linesAgree reached returns .refl
  · cases cause
  · exact ⟨appends, told⟩

end Ensemble

end Sequencer

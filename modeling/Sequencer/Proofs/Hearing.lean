import Sequencer.Proofs.RecordedForest

/-! What the lines of a queue say. Each part of a story has its lines: a round says that its step is
applied and how many discoveries it spliced, a fall how many of the steps it took out it dropped,
and the end of a run how it ended. Of the appends only one message tells. -/
namespace Sequencer

namespace Line

def appended (name : String) (kind : Kind) (nested : Bool) : Line :=
  ⟨.trace, "step appended",
    [("queue", .text name), ("kind", .text kind.name), ("nested", .flag nested)]⟩

def started (name : String) (queued : Nat) : Line :=
  ⟨.debug, "run started", [("queue", .text name), ("queued", .count queued)]⟩

def applying (name : String) (info : StepInfo) : Line :=
  ⟨.debug, "applying step",
    [("queue", .text name), ("step", .text info.label), ("index", .count info.index.toNat),
      ("depth", .count info.depth.toNat)]⟩

def spliced? (name label : String) (count : Nat) : Option Line :=
  if count = 0 then none else some
    ⟨.trace, "spliced nested steps",
      [("queue", .text name), ("step", .text label), ("spliced", .count count)]⟩

def dropped? (name : String) (count : Nat) : Option Line :=
  if count = 0 then none else some
    ⟨.debug, "dropped steps after failure", [("queue", .text name), ("dropped", .count count)]⟩

def ended (name : String) : RunStatus → Line
  | .completed applied =>
    ⟨.debug, "run completed", [("queue", .text name), ("applied", .count applied.toNat)]⟩
  | .failed error dropped =>
    ⟨.debug, "run failed",
      [("queue", .text name), ("error", .text error), ("dropped", .count dropped)]⟩

end Line

def saying (messages : List String) (lines : List Line) : List Line :=
  lines.filter fun line => line.message ∈ messages

theorem sayingAppend (messages : List String) (first second : List Line) :
    saying messages (first ++ second) = saying messages first ++ saying messages second :=
  List.filter_append _ _

namespace Log

variable (names : QueueId → String)

def said (messages : List String) (log : Log κ ν ε) : List Line :=
  saying messages (log.filterMap (Event.line? names))

theorem saidAppend (messages : List String) (first second : Log κ ν ε) :
    Log.said names messages (first ++ second) =
      first.said names messages ++ second.said names messages := by
  rw [said, List.filterMap_append, sayingAppend]
  rfl

theorem saidOfDeeds {messages : List String} (other : "step appended" ∉ messages)
    (log : Log κ ν ε) : log.deeds.said names messages = log.said names messages := by
  unfold said saying
  rw [List.filter_filterMap, List.filter_filterMap]
  refine log.readDeeds _ fun queue entry nested => ?_
  simp [Event.line?, Option.filter, other]

end Log

def Event.placement? : Event κ ν ε → Option (Entry κ × Bool)
  | .appended _ entry nested => some (entry, nested)
  | _ => none

namespace Log

variable (names : QueueId → String)

theorem saidAppends {queue : QueueId} {log : Log κ ν ε}
    (own : ∀ event ∈ log, event.queue? = some queue) :
    log.said names ["step appended"] = (log.filterMap Event.placement?).map fun placed =>
      Line.appended (names queue) placed.1.kind placed.2 := by
  unfold said saying
  rw [List.filter_filterMap, List.map_filterMap]
  refine List.filterMap_congr fun event present => ?_
  have here := own event present
  cases event with
  | appended id entry nested =>
    cases here
    rfl
  | settled queue info spliced result =>
    by_cases none : spliced = 0 <;> simp [Event.line?, Event.placement?, Option.filter, none]
  | dropped queue count =>
    by_cases none : count = 0 <;> simp [Event.line?, Event.placement?, Option.filter, none]
  | _ => simp [Event.line?, Event.placement?, Option.filter]

theorem saidOnlyAppends {log : Log κ ν ε} (silent : log.deeds.filterMap (Event.line? names) = [])
    {line : Line} (told : line ∈ log.filterMap (Event.line? names)) :
    line.message = "step appended" := by
  obtain ⟨event, present, said⟩ := List.mem_filterMap.mp told
  cases arrival : event.arrival? with
  | none =>
    have deed : event ∈ log.deeds := by simp [Log.deeds, present, arrival]
    rw [List.filterMap_eq_nil_iff.mp silent event deed] at said
    contradiction
  | some entry =>
    cases event with
    | appended queue entry nested =>
      cases said
      rfl
    | _ => cases arrival

end Log

structure Hearing where
  started : List Line := []
  applying : List Line := []
  spliced : List Line := []
  dropped : List Line := []
  ended : List Line := []

def Hearing.append (first second : Hearing) : Hearing :=
  ⟨first.started ++ second.started, first.applying ++ second.applying,
    first.spliced ++ second.spliced, first.dropped ++ second.dropped, first.ended ++ second.ended⟩

def Event.heard (names : QueueId → String) : Event κ ν ε → Hearing
  | .started queue _ queued => { started := [Line.started (names queue) queued] }
  | .applied queue _ _ info _ => { applying := [Line.applying (names queue) info] }
  | .settled queue info spliced _ =>
    { spliced := (Line.spliced? (names queue) info.label spliced).toList }
  | .dropped queue count => { dropped := (Line.dropped? (names queue) count).toList }
  | .completed queue total _ => { ended := [Line.ended (names queue) (.completed total)] }
  | .failed queue error count =>
    { ended := [Line.ended (names queue) (.failed error.text count)] }
  | _ => {}

namespace Log

variable (names : QueueId → String)

def heard (log : Log κ ν ε) : Hearing where
  started := log.said names ["run started"]
  applying := log.said names ["applying step"]
  spliced := log.said names ["spliced nested steps"]
  dropped := log.said names ["dropped steps after failure"]
  ended := log.said names ["run completed", "run failed"]

theorem heardAppend (first second : Log κ ν ε) :
    Log.heard names (first ++ second) = (first.heard names).append (second.heard names) := by
  simp only [heard, Hearing.append, saidAppend]

theorem heardCons (event : Event κ ν ε) (log : Log κ ν ε) :
    Log.heard names (event :: log) = (event.heard names).append (log.heard names) := by
  have single : Log.heard names [event] = event.heard names := by
    cases event with
    | settled queue info spliced result =>
      by_cases none : spliced = 0 <;>
        simp [heard, said, saying, Event.line?, Event.heard, Line.spliced?, none]
    | dropped queue count =>
      by_cases none : count = 0 <;>
        simp [heard, said, saying, Event.line?, Event.heard, Line.dropped?, none]
    | _ => rfl
  rw [← single, ← heardAppend]
  rfl

theorem heardEach (log : Log κ ν ε) :
    log.heard names = log.foldr (fun event later => (event.heard names).append later) {} := by
  induction log with
  | nil => rfl
  | cons event rest ih => rw [heardCons, ih, List.foldr_cons]

theorem heardOfDeeds (log : Log κ ν ε) : log.deeds.heard names = log.heard names := by
  unfold heard
  rw [saidOfDeeds names (by simp), saidOfDeeds names (by simp), saidOfDeeds names (by simp),
    saidOfDeeds names (by simp), saidOfDeeds names (by simp)]

end Log

def Exchange.applying (name : String) (exchange : Exchange) : Line :=
  Line.applying name exchange.info

def splicedLines (name : String) (exchanges : List Exchange) (found : List Nat) : List Line :=
  (exchanges.zip found).filterMap fun (exchange, count) =>
    Line.spliced? name exchange.info.label count

theorem splicedLinesAppend (name : String) {exchanges : List Exchange} {found : List Nat}
    (length : exchanges.length = found.length) (more : List Exchange) (others : List Nat) :
    splicedLines name (exchanges ++ more) (found ++ others) =
      splicedLines name exchanges found ++ splicedLines name more others := by
  unfold splicedLines
  rw [List.zip_append length, List.filterMap_append]

theorem splicedLinesSingle (name : String) (exchange : Exchange) (count : Nat) :
    splicedLines name [exchange] [count] =
      (Line.spliced? name exchange.info.label count).toList := by
  unfold splicedLines
  cases said : Line.spliced? name exchange.info.label count <;> simp [said]

theorem Trunk.exchangeCounts (trunk : Trunk κ ν) {exchange : Exchange} {count : Nat}
    (present : (exchange, count) ∈ trunk.exchanges.zip (trunk.rounds.map Round.spliced)) :
    exchange.status = .completed count := by
  obtain ⟨place, here⟩ := List.mem_iff_getElem?.mp present
  obtain ⟨first, second⟩ := List.getElem?_zip_eq_some.mp here
  obtain ⟨round, there, status⟩ := Trunk.exchangeAt first
  rw [List.getElem?_map, there] at second
  cases second
  exact status

theorem Fall.exchangeFailed (fall : Fall κ ν) {index : UInt32} {exchange : Exchange}
    (present : exchange ∈ fall.exchanges index) : ∃ error, exchange.status = .failed error := by
  obtain ⟨attempt, -, rfl⟩ := List.mem_map.mp present
  exact ⟨_, rfl⟩

variable {names : QueueId → String}

theorem Round.heard (queue : QueueId) (run : Int) (round : Round κ ν) (place : Nat) :
    (round.events queue run place : Log κ ν ε).heard names =
      { applying := [Line.applying (names queue) (round.entry.info (UInt32.ofNat place))]
        spliced := (Line.spliced? (names queue) (round.entry.label (UInt32.ofNat place))
          round.spliced).toList } := by
  obtain ⟨entry, step, input, spliced, output, complaint⟩ := round
  cases complaint <;>
    simp [Round.events, opening, Log.heardEach, Event.heard, Hearing.append,
      Entry.info]

namespace Trunk

theorem heard (queue : QueueId) (name : String) (trunk : Trunk κ ν) :
    (trunk.events queue name : Log κ ν ε).heard names =
      { started := [Line.started (names queue) trunk.queued]
        applying := trunk.exchanges.map (Exchange.applying (names queue))
        spliced :=
          splicedLines (names queue) trunk.exchanges (trunk.rounds.map Round.spliced) } := by
  induction trunk using byRounds with
  | admitted run queued =>
    simp [events, Log.heardEach, Event.heard, Hearing.append, exchanges,
      splicedLines]
  | grown trunk round ih =>
    have length := trunk.lengthOfExchanges
    rw [← List.length_map (f := Round.spliced)] at length
    rw [eventsOfGrow, Log.heardAppend, ih, Round.heard, exchangesOfGrow]
    simp only [Hearing.append, grow, List.map_append, splicedLinesAppend (names queue) length,
      List.map_singleton, splicedLinesSingle, List.append_nil]
    rfl

end Trunk

namespace Fall

def splices (fall : Fall κ ν) : List Nat := fall.attempt.toList.map Attempt.spliced

theorem heard (queue : QueueId) (run : Int) (index : UInt32) (fall : Fall κ ν) :
    (fall.events queue run index : Log κ ν ε).heard names =
      { applying := (fall.exchanges index).map (Exchange.applying (names queue))
        spliced := splicedLines (names queue) (fall.exchanges index) fall.splices } := by
  obtain ⟨entry, attempt, error, remaining⟩ := fall
  rcases attempt with _ | ⟨step, input, spliced, complaint⟩
  · rfl
  · simp [events, lead, blow, opening, Log.heardEach, Event.heard, Hearing.append,
      exchanges, splices, splicedLinesSingle, Exchange.applying]

theorem heardClosing (queue : QueueId) (run : Int) (index : UInt32) (fall : Fall κ ν) :
    (fall.closing queue run index : Log κ ν ε).heard names =
      { dropped := (Line.dropped? (names queue) (skipped fall.remaining)).toList } := by
  obtain ⟨entry, attempt, error, remaining⟩ := fall
  rcases attempt with _ | ⟨step, input, spliced, _ | complaint⟩ <;>
    simp [closing, Log.heardEach, Event.heard, Hearing.append]

end Fall

theorem heardNotices (queue : QueueId) (error : RunError) (start : UInt32)
    (told : List (Entry κ)) : (notices queue error start told : Log κ ν ε).heard names = {} := by
  unfold Log.heard Log.said saying
  rw [noticesSilent fun _ _ _ _ => rfl]
  rfl

theorem heardEnding (queue : QueueId) (complaint : Option Failure) (verdict : Verdict ν)
    (index : UInt32) :
    Log.heard names (complaint.toList.map (.runUnrecorded queue) ++
        [verdict.event queue index] : Log κ ν ε) =
      { ended := [Line.ended (names queue) (verdict.status index)] } := by
  cases complaint <;> cases verdict <;> rfl

section Endings

variable {queue : QueueId} {name : String} {agenda : Agenda κ} {log before after : Log κ ν ε}
  {trunk : Trunk κ ν}

theorem Completed.heard {value : ν}
    (completed : Completed queue name value agenda log trunk before after) :
    log.heard names =
      { started := [Line.started (names queue) trunk.queued]
        applying := trunk.exchanges.map (Exchange.applying (names queue))
        spliced := splicedLines (names queue) trunk.exchanges log.splices
        ended := [Line.ended (names queue) (.completed trunk.index)] } := by
  obtain ⟨complaint, deeds⟩ := completed.deeds
  have asked : Log.heard names ([.asked queue (.completeRun trunk.run
      (.completed trunk.index))] : Log κ ν ε) = {} := rfl
  have ending : Log.heard names (complaint.toList.map (.runUnrecorded queue) ++
      [.completed queue trunk.index value] : Log κ ν ε) = _ :=
    heardEnding queue complaint (.completed value) trunk.index
  rw [← Log.heardOfDeeds, deeds, List.append_assoc, List.append_assoc, Log.heardAppend,
    Trunk.heard, Log.heardAppend, asked, ending, completed.splices]
  simp [Hearing.append, Verdict.status]

theorem Fell.splices {error : RunError} {fall : Fall κ ν}
    (fell : Fell queue name error agenda log trunk fall before after) :
    log.splices = trunk.rounds.map Round.spliced ++ fall.splices := by
  obtain ⟨complaint, deeds⟩ := fell.deeds
  have falls : (fall.events queue trunk.run trunk.index ++
      notices queue fall.error (trunk.index + 1) fall.remaining : Log κ ν ε).splices =
      fall.splices := by
    rw [Log.splices, List.filterMap_append, noticesSilent fun _ _ _ _ => rfl]
    obtain ⟨entry, attempt, error, remaining⟩ := fall
    cases attempt <;> rfl
  have rest : (fall.closing queue trunk.run trunk.index ++ (complaint.toList.map
      (.runUnrecorded queue) ++ [.failed queue error fall.dropped]) : Log κ ν ε).splices = [] := by
    obtain ⟨entry, attempt, error, remaining⟩ := fall
    rcases attempt with _ | ⟨step, input, spliced, _ | failure⟩ <;> cases complaint <;> rfl
  rw [Log.splices, ← Log.readDeeds log _ fun _ _ _ => rfl, deeds, List.append_assoc,
    List.append_assoc, List.filterMap_append, ← Log.splices, ← Log.splices, rest, fallen,
    List.append_assoc, Log.splices, List.filterMap_append, ← Log.splices, ← Log.splices, falls,
    trunk.splices, List.append_nil]

theorem Fell.heard {error : RunError} {fall : Fall κ ν}
    (fell : Fell queue name error agenda log trunk fall before after) :
    log.heard names =
      { started := [Line.started (names queue) trunk.queued]
        applying := (trunk.exchanges ++ fall.exchanges trunk.index).map
          (Exchange.applying (names queue))
        spliced :=
          splicedLines (names queue) (trunk.exchanges ++ fall.exchanges trunk.index) log.splices
        dropped := (Line.dropped? (names queue) (skipped fall.remaining)).toList
        ended := [Line.ended (names queue) (.failed error.text fall.dropped)] } := by
  obtain ⟨complaint, deeds⟩ := fell.deeds
  have length : trunk.exchanges.length = (trunk.rounds.map Round.spliced).length := by
    rw [trunk.lengthOfExchanges, List.length_map]
  have ending : Log.heard names (complaint.toList.map (.runUnrecorded queue) ++
      [.failed queue error fall.dropped] : Log κ ν ε) = _ :=
    heardEnding (ν := ν) queue complaint (.failed error fall.dropped) trunk.index
  rw [← Log.heardOfDeeds, deeds, List.append_assoc, Log.heardAppend, ending, Log.heardAppend,
    Fall.heardClosing, fallen, Log.heardAppend, heardNotices, Log.heardAppend, Fall.heard,
    Trunk.heard, fell.splices, splicedLinesAppend _ length]
  simp [Hearing.append, Verdict.status]

end Endings

end Sequencer

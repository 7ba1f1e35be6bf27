import Sequencer.Proofs.Causes
import Sequencer.Proofs.ConcertRun
import Sequencer.Proofs.Placement
import Sequencer.Proofs.Recoding

/-! Two executions of which the second one has more observers on one queue. They append nothing and
run no queue, so all that they change are the indexes of the steps behind them, and with these the
labels that are made of an index. What is done about the other steps can be read off both logs
alike, also of a run that failed and whose observers the two executions do not tell the same. -/
namespace Sequencer

variable {κ κ' δ ν ε β : Type}

def Concord.bystanding (queue : QueueId) (steady : Bool) : Concord κ (κ ⊕ δ) ε where
  heard _ := false
  twin step mate := mate = step.recode .inl
  observes same := congrArg Step.isObserver same
  leeway id := { shifts := decide (id = queue) }
  extra step := step.isObserver = true ∧ step.code.isRight = true
  passive extra := extra.1
  steady := steady

def RunError.under (label : String) : RunError → RunError
  | .stepFailed _ cause => .stepFailed label cause
  | .stepPanicked _ message => .stepPanicked label message
  | .recorder cause => .recorder cause

/- What is done about a step that is no observer: it is applied at a depth to an input, and settled
with a result. The label in an error is left out. -/
inductive Doing (κ ν : Type) where
  | applied (step : Step κ) (depth : UInt32) (input : ν)
  | settled (result : Except RunError ν)

def Doing.recode (f : κ → κ') : Doing κ ν → Doing κ' ν
  | .applied step depth input => .applied (step.recode f) depth input
  | .settled result => .settled result

namespace Event

def doing? : Event κ ν ε → Option (Doing κ ν)
  | .applied _ _ entry _ input =>
    if entry.isObserver then none else some (.applied entry.toStep entry.depth input)
  | .settled _ info _ result =>
    if info.kind = Kind.observer.name then none
    else some (.settled (result.mapError (.under "")))
  | _ => none

def refusal? (queue : QueueId) : Event κ ν ε → Option StepInfo
  | .refused id info _ => if id = queue then some info else none
  | _ => none

theorem unansweredIdle {event : Event κ ν ε} (unanswered : event.answers = false) :
    event.doing? = none ∧ event.application? = none ∧
      ∀ queue, event.refusal? queue = none := by
  cases event with
  | started | applied | settled | refused => cases unanswered
  | _ => exact ⟨rfl, rfl, fun _ => rfl⟩

theorem Aside.unanswered {heard : ε → Bool} {event : Event κ ν ε} (aside : event.Aside heard) :
    event.answers = false := by
  cases aside <;> rfl

end Event

def World.doings (world : World κ ν ε) (queue : QueueId) : List (Doing κ ν) :=
  (world.log queue).filterMap Event.doing?

/- The second world is the first one but for the observers that are more: the same is done about
steps that are no observers, and the same steps are applied. -/
structure World.Bystood (queue : QueueId) (first : World κ ν ε) (second : World (κ ⊕ δ) ν ε) :
    Prop where
  doings : second.doings queue = (first.doings queue).map (Doing.recode .inl)
  applied : ((second.log queue).applied.filter fun entry => entry.code.isLeft).map Entry.toStep =
    (first.log queue).applied.map fun entry => entry.toStep.recode .inl

/- The end of a run in both worlds. The step that failed is the one applied last, and its default
label counts the steps applied before it, with the observers that are more. -/
inductive Outcome.Bystood (queue : QueueId) (first : World κ ν ε) (second : World (κ ⊕ δ) ν ε) :
    Outcome ν → Outcome ν → Prop where
  | completed (value : ν) :
      Bystood queue first second (.returned (.ok value)) (.returned (.ok value))
  | failed (error : RunError) (entry : Entry κ) (mate : Entry (κ ⊕ δ)) (before others dropped)
      (applied : (first.log queue).applied = before ++ [entry])
      (also : (second.log queue).applied = others ++ [mate])
      (twins : mate.toStep = entry.toStep.recode .inl)
      (count : others.length = before.length + others.countP fun other => other.code.isRight)
      (label : error.step? = some (entry.label (UInt32.ofNat before.length)))
      (told : .failed queue error dropped ∈ first.log queue)
      (again : .failed queue (error.under (entry.label (UInt32.ofNat others.length))) dropped ∈
        second.log queue) :
      Bystood queue first second (.returned (.error error))
        (.returned (.error (error.under (entry.label (UInt32.ofNat others.length)))))

namespace RunError

theorem underTwice (error : RunError) (label other : String) :
    (error.under other).under label = error.under label := by
  cases error <;> rfl

theorem underOwn {error : RunError} {label : String} (own : error.step? = some label) :
    error.under label = error := by
  cases error <;> cases own <;> rfl

end RunError

section UpToLeeway

variable {queue : QueueId} {steady : Bool} {leeway : Leeway}

theorem StepInfo.UpToLeeway.kind {info also : StepInfo}
    (alike : StepInfo.UpToLeeway (.bystanding queue steady : Concord κ (κ ⊕ δ) ε) leeway info
      also) :
    also.kind = info.kind := by
  obtain ⟨entry, mate, index, other, entries, -⟩ := alike
  have twins : mate.toStep = entry.toStep.recode .inl := entries.twins
  exact congrArg (fun step => step.kind.name) twins

theorem RunError.UpToLeeway.under {error also : RunError} (exact : leeway.lenient = false)
    (alike : RunError.UpToLeeway (.bystanding queue steady : Concord κ (κ ⊕ δ) ε) leeway error
      also) :
    also.under "" = error.under "" := by
  cases alike with
  | recorder | failed | panicked => rfl
  | either _ _ _ _ _ lenient => cases exact.symm.trans lenient

theorem Concord.linesSkipped {lines : List (Entry κ)} {others : List (Entry (κ ⊕ δ))}
    (alike : (bystanding queue steady : Concord κ (κ ⊕ δ) ε).Lines leeway lines others) :
    skipped others = skipped lines := by
  induction alike with
  | nil => rfl
  | twins entry mate rest others entries _ ih =>
    have same : mate.isObserver = entry.isObserver :=
      (bystanding queue steady : Concord κ (κ ⊕ δ) ε).observes entries.twins
    unfold skipped at ih ⊢
    rw [List.countP_cons, List.countP_cons, ih, same]
  | extra mate rest others _ extra _ ih =>
    unfold skipped at ih ⊢
    rw [List.countP_cons, ih, extra.1]
    rfl

namespace Event

theorem UpToLeeway.doing {event : Event κ ν ε} {other : Event (κ ⊕ δ) ν ε}
    (alike : event.UpToLeeway (.bystanding queue steady) other) :
    other.doing? = event.doing?.map (Doing.recode .inl) := by
  cases alike with
  | applied id step also entry mate info news input exact entries infos =>
    have twins : mate.toStep = entry.toStep.recode .inl := entries.twins
    have same : mate.isObserver = entry.isObserver := congrArg Step.isObserver twins
    dsimp only [doing?]
    rw [same, twins, entries.depth]
    split <;> rfl
  | settled id info also spliced news result mate exact infos results =>
    dsimp only [doing?]
    rw [infos.kind]
    split
    · rfl
    · cases results with
      | ok value => rfl
      | error error mate errors =>
        exact congrArg (fun error => some (Doing.settled (.error error))) (errors.under rfl)
  | _ => rfl

theorem UpToLeeway.application {event : Event κ ν ε} {other : Event (κ ⊕ δ) ν ε}
    (alike : event.UpToLeeway (.bystanding queue steady) other) :
    (other.application?.filter fun entry => entry.code.isLeft).map Entry.toStep =
      event.application?.map fun entry => entry.toStep.recode .inl := by
  cases alike with
  | applied id step also entry mate info news input exact entries infos =>
    have twins : mate.toStep = entry.toStep.recode .inl := entries.twins
    have own : mate.code.isLeft = true := congrArg (fun step => step.code.isLeft) twins
    exact (congrArg (Option.map Entry.toStep) (if_pos own)).trans (congrArg some twins)
  | _ => rfl

theorem UpToLeeway.granted {event : Event κ ν ε} {other : Event (κ ⊕ δ) ν ε}
    (alike : event.UpToLeeway (.bystanding queue steady) other) :
    event.refusal? queue = none ∧ other.refusal? queue = none := by
  cases alike with
  | refused id info also error tight infos =>
    have elsewhere : ¬ id = queue := of_decide_eq_false tight
    exact ⟨if_neg elsewhere, if_neg elsewhere⟩
  | _ => exact ⟨rfl, rfl⟩

theorem Extra.unseen {id : QueueId} {event : Event (κ ⊕ δ) ν ε}
    (extra : event.Extra (.bystanding queue steady : Concord κ (κ ⊕ δ) ε) id) :
    event.doing? = none ∧ (event.application?.filter fun entry => entry.code.isLeft) = none ∧
      event.refusal? queue = none := by
  cases extra with
  | applied step entry index input extra =>
    have added : entry.code.isLeft = false := Sum.isLeft_eq_false.mpr extra.2
    exact ⟨if_pos extra.1, by simp [application?, Option.filter, added], rfl⟩
  | settled entry index spliced value extra =>
    have observer : entry.kind = .observer := eq_of_beq extra.1
    exact ⟨if_pos (congrArg Kind.name observer), rfl, rfl⟩
  | _ => exact ⟨rfl, rfl, rfl⟩

end Event

end UpToLeeway

def Event.readAt (queue : QueueId) (f : Event κ ν ε → Option β) (event : Event κ ν ε) : Option β :=
  if event.queue? = some queue then f event else none

theorem World.readLog (world : World κ ν ε) (queue : QueueId) (f : Event κ ν ε → Option β) :
    (world.log queue).filterMap f = (world.history.filterMap (Event.readAt queue f)).reverse := by
  unfold log Event.readAt
  rw [List.filterMap_filter, List.filterMap_reverse]
  simp only [decide_eq_true_eq]

theorem Event.readsNothing {queue : QueueId} {f : Event κ ν ε → Option β}
    (idle : ∀ event, event.answers = false → f event = none) {events : List (Event κ ν ε)}
    (silent : ∀ event ∈ events, event.queue? = some queue → event.answers = false) :
    events.filterMap (readAt queue f) = [] := by
  refine List.filterMap_eq_nil_iff.mpr fun event present => ?_
  unfold readAt
  split
  · next own => exact idle event (silent event present own)
  · rfl

namespace Ensemble

variable {behaviour : Behaviour κ ν ε} {queue : QueueId} {last : Ensemble κ ν ε}

theorem Reachable.answeredUnbroken (reached : Reachable behaviour last) {before after : Log κ ν ε}
    {event : Event κ ν ε} (answers : event.answers = true)
    (log : last.world.log queue = before ++ event :: after) : before.Unbroken := by
  obtain ⟨a, stage, ending, rest, -, -, -, rfl, whole, answer, -⟩ :=
    reached.answered (Standing.keptWhole queue _) answers log
  cases answer with
  | started | applied | refused => exact whole.sound.unbroken id
  | settled _ _ _ _ _ _ _ settles | failed _ _ _ _ _ _ _ settles =>
    exact whole.sound.unbroken settles.unspent

theorem Reachable.sealed (reached : Reachable behaviour last) {new early : List (Event κ ν ε)}
    {remaining : List (Entry κ)}
    (history : last.world.history = new ++ .withdrawn queue remaining :: early)
    (event : Event κ ν ε) (present : event ∈ new) (own : event.queue? = some queue) :
    event.answers = false := by
  by_contra answers
  obtain ⟨later, earlier, rfl⟩ := List.append_of_mem present
  have log : last.world.log queue =
      World.log ⟨[], earlier ++ .withdrawn queue remaining :: early⟩ queue ++
        event :: World.log ⟨[], later⟩ queue := by
    unfold World.log
    rw [history]
    have taken : (Event.withdrawn queue remaining : Event κ ν ε).queue? = some queue := rfl
    simp [taken, own]
  have unbroken := reached.answeredUnbroken ((Bool.not_eq_false _).mp answers) log
  refine unbroken queue remaining ?_
  unfold World.log
  simp [Event.queue?]

theorem Reachable.untakenRead {world : World κ ν ε} (reached : Reachable behaviour ⟨world, []⟩)
    (untaken : (world.queue queue).taken = false) (f : Event κ ν ε → Option β)
    (blind : ∀ queue entry nested, f (.appended queue entry nested) = none) :
    (world.log queue).filterMap f = [] := by
  obtain ⟨point, free, told⟩ := reached.holds (Standing.keptTold queue _)
  change point.Fits _ _ at free
  rw [untaken] at free
  obtain ⟨rfl, -⟩ := Point.freeOfUntaken free
  have deeds : (world.log queue).deeds = [] := told
  rw [← Log.readDeeds _ f blind, deeds, List.filterMap_nil]

end Ensemble

/- The histories of both worlds agreed up to a moment after which the queue answers no code. -/
inductive World.Recalls (queue : QueueId) (concord : Concord κ κ' ε) (old : List (Event κ ν ε))
    (past : List (Event κ' ν ε)) (first : World κ ν ε) (second : World κ' ν ε) : Prop where
  | intro (new more early late) (history : first.history = new ++ early)
      (other : second.history = more ++ late) (recounts : concord.Recounts old past early late)
      (silent : ∀ event ∈ new, event.queue? = some queue → event.answers = false)
      (still : ∀ event ∈ more, event.queue? = some queue → event.answers = false) :
      Recalls queue concord old past first second

section Recalls

variable {queue : QueueId} {steady : Bool} {bottom : Leeway} {start : World κ ν ε}
  {begun : World (κ ⊕ δ) ν ε} {first : Behaviour κ ν ε} {second : Behaviour (κ ⊕ δ) ν ε}

theorem Progress.Concert.recalls {a : Progress κ ν ε} {b : Progress (κ ⊕ δ) ν ε}
    (concert : a.joined.Concert (.bystanding queue steady) start.history begun.history bottom
      b.joined)
    (reached : Ensemble.Reachable first ⟨a.world, a.tasks⟩)
    (also : Ensemble.Reachable second ⟨b.world, b.tasks⟩) :
    a.world.Recalls queue (.bystanding queue steady) start.history begun.history b.world := by
  rw [← Progress.worldOfJoined a, ← Progress.worldOfJoined b] at *
  generalize early : a.joined = place, late : b.joined = mate at concert
  cases concert with
  | acting _ _ _ _ _ _ worlds | recording _ _ _ _ worlds | ended _ _ _ _ worlds =>
    exact .intro [] [] _ _ rfl rfl worlds.history (fun _ none => nomatch none)
      fun _ none => nomatch none
  | parted _ _ id remaining others before after shifts unsteady told grown more =>
    obtain rfl : id = queue := of_decide_eq_true shifts
    obtain ⟨new, history⟩ := grown
    obtain ⟨rest, other⟩ := more
    rw [early] at reached
    rw [late] at also
    exact .intro new rest _ _ history.symm other.symm told (reached.sealed history.symm)
      (also.sealed other.symm)

theorem Concord.Recounts.readsAt {concord : Concord κ κ' ε} {old early : List (Event κ ν ε)}
    {past late : List (Event κ' ν ε)} {f : Event κ ν ε → Option β} {g : Event κ' ν ε → Option β}
    (recounts : concord.Recounts old past early late) (queue : QueueId)
    (first : ∀ {event}, event.Aside concord.heard → f event = none)
    (second : ∀ {event}, event.Aside concord.heard → g event = none)
    (alike : ∀ {event other}, Event.UpToLeeway concord event other → g other = f event)
    (extra : ∀ {id event}, Event.Extra concord id event → g event = none)
    (before : past.filterMap (Event.readAt queue g) = old.filterMap (Event.readAt queue f)) :
    late.filterMap (Event.readAt queue g) = early.filterMap (Event.readAt queue f) := by
  refine recounts.reads (fun events => ?_) (fun aside => ?_) (fun aside => ?_) (fun _ more => ?_)
    before
  · unfold Event.readAt
    rw [events.queue, alike events]
  · unfold Event.readAt
    rw [first aside, ite_self]
  · unfold Event.readAt
    rw [second aside, ite_self]
  · unfold Event.readAt
    rw [extra more, ite_self]

namespace World.Recalls

variable {world : World κ ν ε} {other : World (κ ⊕ δ) ν ε}
  (recalls : world.Recalls queue (.bystanding queue steady) start.history begun.history other)
include recalls

theorem reads (f : Event κ ν ε → Option β) (g : Event (κ ⊕ δ) ν ε → Option β)
    (idle : ∀ event, event.answers = false → f event = none)
    (calm : ∀ event, event.answers = false → g event = none)
    (alike : ∀ {event other},
      Event.UpToLeeway (.bystanding queue steady) event other → g other = f event)
    (extra : ∀ {id event}, Event.Extra (.bystanding queue steady) id event → g event = none)
    (before : (begun.log queue).filterMap g = (start.log queue).filterMap f) :
    (other.log queue).filterMap g = (world.log queue).filterMap f := by
  obtain ⟨new, more, early, late, history, also, recounts, silent, still⟩ := recalls
  rw [World.readLog, World.readLog, List.reverse_inj] at before ⊢
  rw [history, also, List.filterMap_append, List.filterMap_append, Event.readsNothing idle silent,
    Event.readsNothing calm still, List.nil_append, List.nil_append]
  exact recounts.readsAt queue (fun aside => idle _ aside.unanswered)
    (fun aside => calm _ aside.unanswered) alike extra before

variable (reached : Ensemble.Reachable first ⟨start, []⟩)
  (also : Ensemble.Reachable second ⟨begun, []⟩) (untaken : (start.queue queue).taken = false)
  (free : (begun.queue queue).taken = false)
include reached also untaken free

theorem bystood : world.Bystood queue other where
  doings := by
    have idle (event : Event κ ν ε) (unanswered : event.answers = false) :
        event.doing?.map (Doing.recode (ν := ν) (.inl : κ → κ ⊕ δ)) = none := by
      rw [(Event.unansweredIdle unanswered).1, Option.map_none]
    have calm (event : Event (κ ⊕ δ) ν ε) (unanswered : event.answers = false) :
        event.doing? = none := (Event.unansweredIdle unanswered).1
    unfold World.doings
    rw [List.map_filterMap]
    refine recalls.reads _ _ idle calm Event.UpToLeeway.doing (fun extra => extra.unseen.1) ?_
    rw [reached.untakenRead untaken _ fun _ _ _ => rfl, also.untakenRead free _ fun _ _ _ => rfl]
  applied := by
    have idle (event : Event κ ν ε) (unanswered : event.answers = false) :
        event.application?.map (fun entry => entry.toStep.recode (.inl : κ → κ ⊕ δ)) = none := by
      rw [(Event.unansweredIdle unanswered).2.1, Option.map_none]
    have calm (event : Event (κ ⊕ δ) ν ε) (unanswered : event.answers = false) :
        (event.application?.filter fun entry => entry.code.isLeft).map Entry.toStep = none := by
      rw [(Event.unansweredIdle unanswered).2.1, Option.filter_none, Option.map_none]
    unfold Log.applied
    rw [List.filter_filterMap, List.map_filterMap, List.map_filterMap]
    refine recalls.reads _ _ idle calm Event.UpToLeeway.application (fun extra => ?_) ?_
    · rw [extra.unseen.2.1, Option.map_none]
    · rw [reached.untakenRead untaken _ fun _ _ _ => rfl, also.untakenRead free _ fun _ _ _ => rfl]

theorem granted : (∀ info error, .refused queue info error ∉ world.log queue) ∧
    ∀ info error, .refused queue info error ∉ other.log queue := by
  have idle (event : Event κ ν ε) (unanswered : event.answers = false) :
      event.refusal? queue = none := (Event.unansweredIdle unanswered).2.2 queue
  have calm (event : Event (κ ⊕ δ) ν ε) (unanswered : event.answers = false) :
      event.refusal? queue = none := (Event.unansweredIdle unanswered).2.2 queue
  have none {κ : Type} (log : Log κ ν ε) :
      log.filterMap (fun _ => (none : Option StepInfo)) = [] := List.filterMap_none log
  have early := recalls.reads (Event.refusal? queue) (fun _ => Option.none) idle (fun _ _ => rfl)
    (fun alike => alike.granted.1.symm) (fun _ => rfl)
    (by rw [reached.untakenRead untaken _ fun _ _ _ => rfl, none])
  have late := recalls.reads (fun _ => Option.none) (Event.refusal? queue) (fun _ _ => rfl) calm
    (fun alike => alike.granted.2) (fun extra => extra.unseen.2.2)
    (by rw [also.untakenRead free _ fun _ _ _ => rfl, none])
  rw [none] at early late
  refine ⟨fun info error present => ?_, fun info error present => ?_⟩
  · have read := List.filterMap_eq_nil_iff.mp early.symm _ present
    rw [Event.refusal?, if_pos rfl] at read
    cases read
  · have read := List.filterMap_eq_nil_iff.mp late _ present
    rw [Event.refusal?, if_pos rfl] at read
    cases read

end World.Recalls

end Recalls

end Sequencer

import Sequencer.Proofs.Place
import Sequencer.Proofs.Window

/-! How far a run counts. A run closes when it finds nothing left or takes out what waits on a
failure. The steps it has activated and taken out until then were all appended before, and the
depth of each stays below the number of steps activated with it; so neither an index nor a depth
gets past the number of steps that were appended before the run closed. -/
namespace Sequencer
open Standing

def Event.closes : Event κ ν ε → Bool
  | .withdrawn _ _ | .asked _ (.completeRun _ (.completed _)) => true
  | _ => false

namespace Log

/- What there was before the run closed: all of it while the run is open. -/
def early (log : Log κ ν ε) : Log κ ν ε := log.takeWhile fun event => !event.closes

theorem earlyGrows (log more : Log κ ν ε) : log.early <+: Log.early (log ++ more) := by
  unfold early
  rw [List.takeWhile_append]
  split
  · exact (List.takeWhile_prefix _).trans (List.prefix_append _ _)
  · exact List.prefix_rfl

theorem earlyWithin {log later : Log κ ν ε} (grown : log <+: later) :
    log.early.arrivals.length ≤ later.early.arrivals.length := by
  obtain ⟨more, rfl⟩ := grown
  exact ((earlyGrows log more).filterMap Event.arrival?).length_le

theorem earlyOpen {log : Log κ ν ε} (isOpen : ∀ event ∈ log, event.closes = false)
    (events : Log κ ν ε) (none : events.arrivals = []) :
    (Log.early (log ++ events)).arrivals = Log.arrivals (log ++ events) := by
  have whole : Log.early (log ++ events) = log ++ events.early :=
    List.takeWhile_append_of_pos fun event present => by rw [isOpen event present]; rfl
  have before : events.early.arrivals <+: events.arrivals :=
    (List.takeWhile_prefix _).filterMap Event.arrival?
  rw [none, List.prefix_nil] at before
  simp only [whole, Log.arrivals, List.filterMap_append] at none before ⊢
  rw [none, before]

end Log

def Stage.goesOn : Stage κ ν → Bool
  | .delivering _ _ _ _ _ _ | .completingStep _ _ (.failed _ _) | .completingRun _ _ => false
  | _ => true

def Point.goesOn : Point κ ν → Bool
  | .free | .proceeding _ _ => true
  | .inside stage => stage.goesOn
  | .delivering _ _ _ _ _ | .finished _ => false

theorem toNatSum (n m : UInt32) : (n + m).toNat ≤ n.toNat + m.toNat := by
  rw [UInt32.toNat_add]
  exact Nat.mod_le _ _

theorem toNatPlace (place : Nat) : (UInt32.ofNat place).toNat ≤ place := by
  rw [UInt32.toNat_ofNat']
  exact Nat.mod_le _ _

theorem Agenda.depthOfEntry {agenda : Agenda κ} {bound : Nat}
    (active : ∀ active, agenda.active = some active → active.depth.toNat < bound)
    (step : Step κ) : (agenda.entry step).depth.toNat ≤ bound := by
  cases mark : agenda.active with
  | none => simp [entry, depth, mark]
  | some info =>
    simp only [entry, depth, mark]
    exact Nat.le_trans (toNatSum info.depth 1) (active info mark)

namespace Standing

variable {queue : QueueId} {name : String}

/- What a run has counted. A run that goes on has not closed; what it has activated and taken out
was appended before it closed; and the depths stay below the number of activated steps. -/
structure Tallied (a : Standing κ ν ε) : Prop where
  conserved : a.Conserved
  isOpen : a.point.goesOn = true → ∀ event ∈ a.log, event.closes = false
  early : (a.log.activated ++ a.log.withdrawn).length ≤ a.log.early.arrivals.length
  active : ∀ active, a.agenda.active = some active →
    active.depth.toNat < a.log.activated.length
  waiting : ∀ entry ∈ a.agenda.pending, entry.depth.toNat ≤ a.log.activated.length
  depths : ∀ (place : Nat) (entry : Entry κ), a.log.activated[place]? = some entry →
    entry.depth.toNat ≤ place

namespace Tallied

variable {agenda next : Agenda κ} {log : Log κ ν ε} {point there : Point κ ν}

theorem quiet (holds : Tallied ⟨agenda, log, point⟩) (events : Log κ ν ε)
    (conserved : Conserved ⟨next, log ++ events, there⟩)
    (activated : events.activated = []) (withdrawn : events.withdrawn = [])
    (waiting : ∀ entry ∈ next.pending, entry.depth.toNat ≤ log.activated.length)
    (active : ∀ mark, next.active = some mark → agenda.active = some mark)
    (isOpen : there.goesOn = true →
      point.goesOn = true ∧ ∀ event ∈ events, event.closes = false) :
    Tallied ⟨next, log ++ events, there⟩ := by
  have same : Log.activated (log ++ events) = log.activated := log.readQuiet activated
  have out : Log.withdrawn (log ++ events) = log.withdrawn := log.withdrawnQuiet withdrawn
  refine ⟨conserved, fun goesOn event present => ?_, ?_, fun mark here => ?_, ?_, ?_⟩
  · obtain ⟨went, new⟩ := isOpen goesOn
    rcases List.mem_append.mp present with old | present
    · exact holds.isOpen went event old
    · exact new event present
  · rw [same, out]
    exact Nat.le_trans holds.early (Log.earlyWithin (List.prefix_append log events))
  · rw [same]
    exact holds.active mark (active mark here)
  · rw [same]
    exact waiting
  · rw [same]
    exact holds.depths

theorem stop (holds : Tallied ⟨agenda, log, point⟩) (stopped : there.goesOn = false) :
    Tallied ⟨agenda, log, there⟩ where
  conserved := holds.conserved
  isOpen goesOn := by cases stopped.symm.trans goesOn
  early := holds.early
  active := holds.active
  waiting := holds.waiting
  depths := holds.depths

theorem append (holds : Tallied ⟨agenda, log, point⟩) (step : Step κ) (nested : Bool)
    (conserved : Conserved ⟨agenda.append step,
      log ++ [.appended queue (agenda.entry step) nested], point⟩) :
    Tallied ⟨agenda.append step, log ++ [.appended queue (agenda.entry step) nested], point⟩ := by
  refine holds.quiet _ conserved rfl rfl (fun entry waits => ?_) (fun mark here => ?_)
    fun went => ⟨went, by simp [Event.closes]⟩
  · rcases List.mem_append.mp ((agenda.pendingAfterAppend step).mem_iff.mp waits) with old | new
    · exact holds.waiting entry old
    · rw [List.mem_singleton.mp new]
      exact Agenda.depthOfEntry holds.active step
  · exact (agenda.activeAfterAppend step).symm.trans here

theorem within {events : Log κ ν ε} (conserved : Conserved ⟨next, log ++ events, there⟩)
    (isOpen : ∀ event ∈ log, event.closes = false) (arrivals : events.arrivals = []) :
    (Log.activated (log ++ events) ++ Log.withdrawn (log ++ events)).length ≤
      (Log.early (log ++ events)).arrivals.length := by
  rw [Log.earlyOpen isOpen events arrivals]
  exact conserved.within

theorem activate (holds : Tallied ⟨agenda, log, point⟩) (went : point.goesOn = true)
    {index : UInt32} {entry : Entry κ} (taken : agenda.activate index = some (entry, next))
    (run : Int) (info : StepInfo)
    (conserved : Conserved
      ⟨next, log ++ [.activated queue entry info, .asked queue (.startStep run info)], there⟩) :
    Tallied ⟨next, log ++ [.activated queue entry info, .asked queue (.startStep run info)],
      there⟩ := by
  obtain ⟨pipeline, buffer, active, -⟩ := Agenda.activateSome taken
  have grown : Log.activated (log ++ [.activated queue entry info,
      .asked queue (.startStep run info)]) = log.activated ++ [entry] := log.activatedNext ..
  have head : entry.depth.toNat ≤ log.activated.length :=
    holds.waiting entry (by simp [Agenda.pending, pipeline])
  refine ⟨conserved, fun _ event present => ?_, within conserved (holds.isOpen went) rfl,
    fun mark here => ?_, fun other waits => ?_, fun place other here => ?_⟩
  · rcases List.mem_append.mp present with old | new
    · exact holds.isOpen went event old
    · simp only [List.mem_cons, List.not_mem_nil, or_false] at new
      rcases new with rfl | rfl <;> rfl
  · cases active.symm.trans here
    rw [grown, List.length_append]
    exact Nat.lt_succ_of_le head
  · have before : other ∈ agenda.pending := by
      simp only [Agenda.pending, pipeline, buffer, List.mem_append, List.mem_cons] at waits ⊢
      tauto
    rw [grown, List.length_append]
    exact Nat.le_succ_of_le (holds.waiting other before)
  · rw [grown, List.getElem?_append] at here
    split at here
    · exact holds.depths place other here
    · next behind =>
      obtain ⟨last, rfl⟩ := List.getElem?_eq_some_iff.mp here
      rw [List.getElem_singleton]
      omega

theorem withdraw (holds : Tallied ⟨agenda, log, point⟩) (went : point.goesOn = true)
    (stopped : there.goesOn = false) {event : Event κ ν ε} (arrival : event.arrival? = none)
    (activation : event.activation? = none)
    (conserved : Conserved ⟨agenda.settle.takeRemaining.2,
      log ++ [event, .withdrawn queue agenda.pending], there⟩) :
    Tallied ⟨agenda.settle.takeRemaining.2,
      log ++ [event, .withdrawn queue agenda.pending], there⟩ := by
  have arrivals : Log.arrivals [event, .withdrawn queue agenda.pending] = [] := by
    rw [Log.arrivals, List.filterMap_cons_none arrival]
    rfl
  have same : Log.activated (log ++ [event, .withdrawn queue agenda.pending]) =
      log.activated :=
    log.readQuiet (List.filterMap_cons_none activation)
  refine ⟨conserved, fun goesOn => ?_, within conserved (holds.isOpen went) arrivals,
    fun mark busy => ?_, fun entry waits => ?_, ?_⟩
  · cases stopped.symm.trans goesOn
  · cases busy
  · cases waits
  · rw [same]
    exact holds.depths

end Tallied

theorem settlesGoesOn {stage : Stage κ ν} {ending : Ending (stage.Answer ε)} {run : Run}
    {step : Int} {info : StepInfo} {result : Except RunError ν}
    (settles : Settles stage ending run step info result) : stage.goesOn = true := by
  cases settles <;> rfl

variable (queue name) in
theorem keptTallied : Kept queue name (@Tallied κ ν ε) where
  start := by
    refine ⟨(keptConserved queue name).start, fun _ event present => ?_, Nat.le_refl _,
      fun mark busy => ?_, fun entry waits => ?_, fun place entry here => ?_⟩
    · cases present
    · cases busy
    · cases waits
    · cases here
  given act holds := by
    have conserved := (keptConserved queue name).given act holds.conserved
    cases act with
    | append agenda log point step => exact holds.append step _ conserved
    | begin agenda log value =>
      exact holds.quiet _ conserved rfl rfl holds.waiting (fun _ => id)
        fun _ => ⟨rfl, by simp [Event.closes]⟩
    | discard | leave => exact holds.stop rfl
  reply act holds := by
    have conserved := (keptConserved queue name).reply act holds.conserved
    cases act with
    | accept | apply =>
      exact holds.quiet _ conserved rfl rfl holds.waiting (fun _ => id)
        fun _ => ⟨rfl, by simp [Event.closes]⟩
    | reject => exact holds.stop rfl
    | settle agenda log stage ending run step info value settles =>
      refine holds.quiet _ conserved rfl rfl ?_ (fun mark busy => by cases busy)
        fun _ => ⟨settlesGoesOn settles, by simp [Event.closes]⟩
      rw [agenda.pendingAfterSettle]
      exact holds.waiting
    | fail agenda log stage ending run step info error settles =>
      exact holds.withdraw (settlesGoesOn settles) rfl rfl rfl conserved
    | refuse => exact holds.withdraw rfl rfl rfl rfl conserved
    | goOn agenda log run info value ending heard =>
      exact holds.quiet _ conserved (by cases ending <;> rfl) (by cases ending <;> rfl)
        holds.waiting (fun _ => id)
        fun _ => ⟨rfl, by cases ending <;> simp [Event.closes, Ending.complaint?]⟩
    | giveUp agenda log run info error dropped ending heard =>
      rw [List.append_assoc] at conserved ⊢
      exact holds.quiet _ conserved (by cases ending <;> rfl) (by cases ending <;> rfl)
        holds.waiting (fun _ => id) fun goesOn => by cases goesOn
    | finish agenda log run verdict ending heard =>
      rw [List.append_assoc] at conserved ⊢
      exact holds.quiet _ conserved (by cases ending <;> cases verdict <;> rfl)
        (by cases ending <;> cases verdict <;> rfl) holds.waiting (fun _ => id)
        fun goesOn => by cases goesOn
    | call => exact { holds with isOpen := fun _ => holds.isOpen rfl }
    | told => exact holds.stop rfl
  follow act holds := by
    have conserved := (keptConserved queue name).follow act holds.conserved
    cases act with
    | activate agenda log run value entry next taken =>
      exact holds.activate rfl taken run.id _ conserved
    | pass => exact holds.stop rfl
    | _ =>
      exact holds.quiet _ conserved rfl rfl holds.waiting (fun _ => id)
        fun goesOn => by cases goesOn

end Standing

/- How far the library counts from here: over the active step and all that waits, or over those
that are still to be told. -/
def Stage.reach (agenda : Agenda κ) : Stage κ ν → Nat
  | .startingStep run _ _ _ | .applying run _ _ | .calling run _ _ | .awaiting run _ _
  | .observing run _ _ _ => run.index.toNat + 1 + agenda.len
  | .delivering _ _ _ rest index _ => index.toNat + rest.length
  | .outside | .startingRun _ _ | .completingStep _ _ _ | .completingRun _ _ => 0

namespace Standing

variable {queue : QueueId} {name : String} {agenda : Agenda κ} {log : Log κ ν ε}
  {stage : Stage κ ν}

theorem windowReach (tallied : Tallied ⟨agenda, log, .inside stage⟩)
    (told : (Point.inside stage).Tells queue name log.deeds) {run : Run} {info : StepInfo}
    (within : stage.window = some (run, info)) :
    run.index.toNat + 1 + agenda.len ≤ log.early.arrivals.length := by
  obtain ⟨earlier, entry, activated, -, index⟩ := windowTold within told
  have goesOn : stage.goesOn = true := by cases stage <;> first | rfl | cases within
  have whole : log.early.arrivals = log.arrivals := by
    simpa only [List.append_nil] using Log.earlyOpen (tallied.isOpen goesOn) [] rfl
  have all : _ = log.arrivals.length := List.Perm.length_eq tallied.conserved
  simp only [List.length_append, activated, agenda.lengthOfPending, List.length_singleton] at all
  have place := toNatPlace earlier.length
  rw [whole, index]
  omega

theorem deliveryReach {point : Point κ ν} (tallied : Tallied ⟨agenda, log, point⟩) {run : Run}
    {delivery : Delivery} {rest : List (Entry κ)} {index : UInt32} {dropped : Nat}
    {trunk : Trunk κ ν} {fall : Fall κ ν} {told : List (Entry κ)}
    (delivers : Delivers queue name log.deeds run delivery rest index dropped trunk fall told) :
    index.toNat + rest.length ≤ log.early.arrivals.length := by
  have read := log.readingOfDeeds
  rw [delivers.deeds, readFallen] at read
  have activated : trunk.entries ++ [fall.entry] = log.activated := congrArg Reading.activated read
  have withdrawn : fall.remaining = log.withdrawn := congrArg Reading.withdrawn read
  have counted := tallied.early
  simp only [← activated, ← withdrawn, delivers.split, List.length_append, Trunk.entries,
    List.length_map, List.length_singleton] at counted
  have first := toNatPlace trunk.rounds.length
  have second := toNatSum trunk.index 1
  have third := toNatSum (trunk.index + 1) (UInt32.ofNat told.length)
  have fourth := toNatPlace told.length
  rw [delivers.index]
  rw [UInt32.toNat_one] at second
  unfold Trunk.index at *
  omega

theorem reachWithin (tallied : Tallied ⟨agenda, log, .inside stage⟩)
    (told : (Point.inside stage).Tells queue name log.deeds) :
    stage.reach agenda ≤ log.early.arrivals.length := by
  cases stage with
  | delivering run delivery label rest index dropped =>
    obtain ⟨trunk, fall, met, delivers⟩ := told
    exact deliveryReach tallied delivers
  | outside | startingRun | completingStep | completingRun => exact Nat.zero_le _
  | _ => exact windowReach tallied told rfl

end Standing

end Sequencer

import Sequencer.Proofs.Blame
import Sequencer.Proofs.Numbering
import Sequencer.Proofs.Place
import Sequencer.Proofs.Window

/-! Labels. A step without a description is called by its kind and its number, and the number is its
place among the steps that the run activates, with those that a failure takes out behind them. The
same label stands wherever the step is mentioned, and no two places have the same one. -/
namespace Sequencer
open Standing

def Step.labelAt (step : Step κ) (place : Nat) : String :=
  step.description.getD (step.kind.name ++ " step #" ++ toString place)

theorem Step.labelOfNumber (step : Step κ) {place : Nat} (low : place < UInt32.size) :
    step.label (UInt32.ofNat place) = step.labelAt place := by
  rw [label, labelAt, UInt32.toNat_ofNat_of_lt' low]

/- The names of the kinds differ in their first letters, and a number can be read off its digits. -/
theorem numberOfLabel {kind other : Kind} {here there : Nat}
    (same : kind.name ++ " step #" ++ toString here = other.name ++ " step #" ++ toString there) :
    here = there := by
  have letters := congrArg String.toList same
  have kinds : kind = other := by
    cases kind <;> cases other <;> simp [Kind.name, String.toList_append] at letters ⊢
  subst kinds
  simp only [String.toList_append] at letters
  have number := congrArg (fun digits => Nat.ofDigitChars 10 digits 0)
    (List.append_cancel_left letters)
  simpa [Nat.toString_eq_ofList_toDigits] using number

theorem Step.labelsApart {first second : Step κ} (plain : first.description = none)
    (also : second.description = none) {here there : Nat} (apart : here ≠ there) :
    first.labelAt here ≠ second.labelAt there := by
  intro same
  rw [labelAt, labelAt, plain, also, Option.getD_none, Option.getD_none] at same
  exact apart (numberOfLabel same)

def RunError.TellsOf (error : RunError) (label : String) : Prop :=
  (∃ cause, error.text = "step '" ++ label ++ "' failed: " ++ cause) ∨
    ∃ message, error.text = "step '" ++ label ++ "' panicked: " ++ message

theorem RunError.tellsOfStep {error : RunError} {label : String}
    (named : error.step? = some label) : error.TellsOf label := by
  cases error with
  | stepFailed step cause =>
    cases named
    exact .inl ⟨cause.text, rfl⟩
  | stepPanicked step message =>
    cases named
    exact .inr ⟨message, rfl⟩
  | recorder cause => cases named

def Event.delivered? : Event κ ν ε → Option (Entry κ × String)
  | .notified _ entry label _ => some (entry, label)
  | _ => none

def labelled (start : Nat) (entries : List (Entry κ)) : List (Entry κ × String) :=
  entries.zipIdx.map fun (entry, place) => (entry, entry.labelAt (start + place))

def tellingsAt (start : Nat) (told : List (Entry κ)) : List (Entry κ × String) :=
  (labelled start told).filter fun (entry, _) => entry.isObserver

def tellings (start : Nat) (told : List (Entry κ)) : List (Entry κ × String) :=
  (told.zipIdx start).filterMap fun (entry, place) =>
    if entry.isObserver then some (entry, entry.label (UInt32.ofNat place)) else none

theorem labelledSnoc (start : Nat) (entries : List (Entry κ)) (entry : Entry κ) :
    labelled start (entries ++ [entry]) =
      labelled start entries ++ [(entry, entry.labelAt (start + entries.length))] := by
  simp [labelled, List.zipIdx_append]

theorem labelledAppend (start : Nat) (first second : List (Entry κ)) :
    labelled start (first ++ second) =
      labelled start first ++ labelled (start + first.length) second := by
  induction second using List.reverseRecOn with
  | nil => simp [labelled]
  | append_singleton second entry ih =>
    rw [← List.append_assoc, labelledSnoc, ih, labelledSnoc, List.length_append, Nat.add_assoc,
      List.append_assoc]

theorem labelledOfNumbered {entries : List (Entry κ)} (few : entries.length ≤ UInt32.size) :
    (numbered entries).map (fun (entry, info) => (entry, info.label)) = labelled 0 entries := by
  induction entries using List.reverseRecOn with
  | nil => rfl
  | append_singleton entries entry ih =>
    rw [List.length_append, List.length_singleton] at few
    rw [numberedSnoc, labelledSnoc, List.map_append, ih (by omega), Nat.zero_add,
      ← entry.labelOfNumber (by omega)]
    rfl

def plainLabel? : Entry κ × String → Option String
  | (entry, label) => if entry.description.isNone then some label else none

theorem plainLabelsApart (start : Nat) (entries : List (Entry κ)) :
    ((labelled start entries).filterMap plainLabel?).Nodup := by
  have places : (entries.zipIdx.map Prod.snd).Nodup := by
    rw [List.zipIdx_map_snd]
    exact List.nodup_range'
  rw [labelled, List.filterMap_map, List.Nodup, List.pairwise_filterMap]
  refine (List.pairwise_map.mp places).imp fun {first second} apart label own other also => ?_
  obtain ⟨entry, place⟩ := first
  obtain ⟨later, next⟩ := second
  simp only [Function.comp_apply, plainLabel?, Option.ite_none_right_eq_some,
    Option.isNone_iff_eq_none,
    Option.some.injEq] at own also
  obtain ⟨plain, rfl⟩ := own
  obtain ⟨also, rfl⟩ := also
  exact Step.labelsApart plain also fun same => apart (Nat.add_left_cancel same)

theorem tellingsSnoc (start : Nat) (told : List (Entry κ)) (entry : Entry κ) :
    tellings start (told ++ [entry]) = tellings start told ++
      if entry.isObserver then
        [(entry, entry.label (UInt32.ofNat (start + told.length)))] else [] := by
  rw [tellings, List.zipIdx_append, List.filterMap_append]
  cases observer : entry.isObserver <;> simp [tellings, observer, Nat.add_comm]

theorem tellingsFew {start : Nat} {told : List (Entry κ)}
    (few : start + told.length ≤ UInt32.size) : tellings start told = tellingsAt start told := by
  induction told using List.reverseRecOn with
  | nil => rfl
  | append_singleton told entry ih =>
    rw [List.length_append, List.length_singleton] at few
    rw [tellingsSnoc, ih (by omega), tellingsAt, tellingsAt, labelledSnoc, List.filter_append,
      entry.labelOfNumber (by omega)]
    cases observer : entry.isObserver <;> simp [observer]

theorem tellingsOfNotices (queue : QueueId) (error : RunError) (start : Nat)
    (told : List (Entry κ)) :
    (notices queue error (UInt32.ofNat start) told : Log κ ν ε).filterMap Event.delivered? =
      tellings start told := by
  induction told using List.reverseRecOn with
  | nil => rfl
  | append_singleton told entry ih =>
    rw [noticesOfSnoc, List.filterMap_append, ih, tellingsSnoc]
    split <;> simp [Event.delivered?, UInt32.ofNat_add]

inductive Noticed (log : Log κ ν ε) : Prop where
  | quiet (unbroken : log.Unbroken) (untold : log.filterMap Event.delivered? = [])
  | fallen (before told rest : List (Entry κ)) (failing : Entry κ)
      (activated : log.activated = before ++ [failing])
      (withdrawn : log.withdrawn = told ++ rest)
      (notices : log.filterMap Event.delivered? = tellings (before.length + 1) told)

def Event.breaks : Event κ ν ε → Bool
  | .withdrawn _ _ | .notified _ _ _ _ => true
  | _ => false

def Log.Calm (log : Log κ ν ε) : Prop := ∀ event ∈ log, event.breaks = false

namespace Log.Calm

variable {log : Log κ ν ε} (calm : log.Calm)
include calm

theorem untold : log.filterMap Event.delivered? = [] := by
  refine List.filterMap_eq_nil_iff.mpr fun event present => ?_
  have none := calm event present
  cases event with
  | notified => cases none
  | _ => rfl

theorem unbroken : log.Unbroken := fun _ _ present => by cases calm _ present

theorem append {more : Log κ ν ε} (also : more.Calm) : Log.Calm (log ++ more) :=
  List.forall_mem_append.mpr ⟨calm, also⟩

theorem noticed : Noticed log := .quiet calm.unbroken calm.untold

end Log.Calm

theorem calmTrunk (queue : QueueId) (name : String) (trunk : Trunk κ ν) :
    Log.Calm (trunk.events queue name : Log κ ν ε) := by
  intro event present
  cases Trunk.unfailed present <;> rfl

theorem calmWinding {failing : Option StepInfo} {more : Log κ ν ε}
    (winds : ∀ event ∈ more, event.Winds failing) : more.Calm ∧ more.activated = [] := by
  have each {event : Event κ ν ε} (present : event ∈ more) :
      event.breaks = false ∧ event.activation? = none := by
    have winding := winds event present
    cases event with
    | withdrawn | notified | activated => exact winding.elim
    | _ => exact ⟨rfl, rfl⟩
  exact ⟨fun event present => (each present).1,
    List.filterMap_eq_nil_iff.mpr fun event present => (each present).2⟩

theorem calmLead (queue : QueueId) (run : Int) (index : UInt32) (fall : Fall κ ν) :
    Log.Calm (fall.lead queue run index ++ [fall.blow queue index] : Log κ ν ε) := by
  cases tried : fall.attempt <;>
    simp [Log.Calm, Fall.lead, Fall.blow, tried, opening, Event.breaks]

theorem fallenNoticed (queue : QueueId) (name : String) (trunk : Trunk κ ν) (fall : Fall κ ν)
    (told : List (Entry κ)) {more : Log κ ν ε} (calm : more.Calm)
    (activated : more.activated = []) :
    let log := fallen queue name trunk fall told ++ more
    log.activated = trunk.entries ++ [fall.entry] ∧ log.withdrawn = fall.remaining ∧
      log.filterMap Event.delivered? = tellings (trunk.entries.length + 1) told := by
  intro log
  have reading := readFallen (ε := ε) queue name trunk fall told
  have place : trunk.index + 1 = UInt32.ofNat (trunk.entries.length + 1) := by
    rw [UInt32.ofNat_add, Trunk.entries, List.length_map]
    rfl
  have lead := (calmTrunk (ε := ε) queue name trunk).append
    (calmLead queue trunk.run trunk.index fall)
  have whole : fallen queue name trunk fall told = (trunk.events queue name ++
      (fall.lead queue trunk.run trunk.index ++ [fall.blow queue trunk.index])) ++
        .withdrawn queue fall.remaining ::
          (notices queue fall.error (trunk.index + 1) told : Log κ ν ε) := by
    simp [fallen, Fall.events]
  refine ⟨?_, ?_, ?_⟩
  · rw [Log.activated, List.filterMap_append, ← Log.activated, ← Log.activated, activated,
      List.append_nil]
    exact congrArg Reading.activated reading
  · rw [Log.withdrawn, List.flatMap_append, ← Log.withdrawn, ← Log.withdrawn,
      calm.unbroken.withdrawn, List.append_nil]
    exact congrArg Reading.withdrawn reading
  · rw [show log = fallen queue name trunk fall told ++ more from rfl, whole, place,
      List.filterMap_append, List.filterMap_append, List.filterMap_cons, calm.untold, lead.untold,
      tellingsOfNotices, List.append_nil, List.nil_append]
    rfl

theorem Tale.noticed {queue : QueueId} {name : String} {deeds : Log κ ν ε}
    (tale : Tale queue name deeds) : Noticed deeds := by
  cases tale with
  | idle => exact Log.Calm.noticed fun _ among => nomatch among
  | asked => exact Log.Calm.noticed (by simp [Log.Calm, Event.breaks])
  | steady trunk more winds =>
    exact ((calmTrunk queue name trunk).append (calmWinding winds).1).noticed
  | opened trunk entry =>
    exact ((calmTrunk queue name trunk).append
      (by simp [Log.Calm, opening, Event.breaks])).noticed
  | applied trunk entry step input =>
    exact (((calmTrunk queue name trunk).append (by simp [Log.Calm, opening, Event.breaks])).append
      (by simp [Log.Calm, Event.breaks])).noticed
  | fallen trunk fall told rest more split winds =>
    obtain ⟨calm, none⟩ := calmWinding winds
    obtain ⟨activated, withdrawn, notices⟩ :=
      fallenNoticed queue name trunk fall told calm none
    rw [split] at withdrawn
    exact .fallen trunk.entries told rest fall.entry activated withdrawn notices

theorem Noticed.ofDeeds {log : Log κ ν ε} (noticed : Noticed log.deeds) : Noticed log := by
  have told : log.deeds.filterMap Event.delivered? = log.filterMap Event.delivered? :=
    Log.readDeeds log _ fun _ _ _ => rfl
  have reading := log.readingOfDeeds
  cases noticed with
  | quiet unbroken untold =>
    exact .quiet (fun queue remaining present =>
      unbroken queue remaining (Log.deedPresent present rfl)) (told ▸ untold)
  | fallen before told rest failing activated withdrawn notices =>
    exact .fallen before told rest failing
      ((congrArg Reading.activated reading).symm.trans activated)
      ((congrArg Reading.withdrawn reading).symm.trans withdrawn)
      (by rwa [Log.readDeeds log _ fun _ _ _ => rfl] at notices)

theorem Noticed.told {log : Log κ ν ε} (noticed : Noticed log) :
    ∃ told, told <+: log.withdrawn ∧
      log.filterMap Event.delivered? = tellings log.activated.length told := by
  cases noticed with
  | quiet unbroken untold => exact ⟨[], List.nil_prefix, untold⟩
  | fallen before told rest failing activated withdrawn notices =>
    refine ⟨told, withdrawn ▸ List.prefix_append told rest, ?_⟩
    rw [notices, activated, List.length_append, List.length_singleton]

namespace Standing

variable {queue : QueueId} {name : String}

variable (queue name) in
theorem keptNoticed : Kept queue name
    fun a : Standing κ ν ε => a.Told queue name ∧ Noticed a.log.deeds :=
  keptByStory fun tale => tale.noticed

def Pronounced (a : Standing κ ν ε) : Prop :=
  ∀ run delivery label rest index dropped,
    a.point = .inside (.delivering run delivery label rest index dropped) →
      ∃ entry, (a.log.filterMap Event.delivered?).getLast? = some (entry, label)

variable (queue name) in
theorem keptPronounced : Kept queue name (@Pronounced κ ν ε) where
  start := by rintro _ _ _ _ _ _ ⟨⟩
  given act holds := by
    cases act with
    | append agenda log point step =>
      intro run delivery label rest index dropped here
      obtain ⟨entry, told⟩ := holds run delivery label rest index dropped here
      refine ⟨entry, ?_⟩
      exact (congrArg List.getLast? (log.readQuiet rfl)).trans told
    | _ => rintro _ _ _ _ _ _ ⟨⟩
  reply act _ := by
    cases act with
    | apply agenda log run value entry info step =>
      intro other delivery label rest index dropped here
      unfold Entry.stage at here
      cases kind : entry.kind <;> rw [kind] at here <;> cases here
    | _ => rintro _ _ _ _ _ _ ⟨⟩
  follow act _ := by
    cases act with
    | notify agenda log run delivery entry rest index dropped observer =>
      rintro _ _ _ _ _ _ ⟨⟩
      exact ⟨entry, by simp [Event.delivered?]⟩
    | _ => rintro _ _ _ _ _ _ ⟨⟩

end Standing

def Stage.cries? : Stage κ ν → Option String
  | .observing _ _ info _ => some info.label
  | .delivering _ _ label _ _ _ => some label
  | _ => none

namespace Scheduler

variable (behaviour : Behaviour κ ν ε) (world : World κ ν ε) (run : Run)

end Scheduler

theorem Event.stepOfLine {event : Event κ ν ε} {queue : QueueId} {names : QueueId → String}
    {line : Line} {label : String} (own : event.queue? = some queue)
    (traced : event.line? names = some line) (field : ("step", .text label) ∈ line.fields) :
    ∃ info, event.info? = some info ∧ info.label = label := by
  cases event with
  | applied id step entry info input =>
    cases traced
    have same : label = info.label := by simpa using field
    exact ⟨info, rfl, same.symm⟩
  | settled id info spliced result =>
    by_cases none : spliced = 0
    · simp [line?, none] at traced
    · simp only [line?, if_neg none, Option.some.injEq] at traced
      cases traced
      have same : label = info.label := by simpa using field
      exact ⟨info, rfl, same.symm⟩
  | stepUnrecorded id info failure =>
    cases traced
    have same : label = info.label := by simpa using field
    exact ⟨info, rfl, same.symm⟩
  | dropped id count =>
    by_cases none : count = 0
    · simp [line?, none] at traced
    · simp only [line?, if_neg none, Option.some.injEq] at traced
      cases traced
      simp at field
  | observerPanicked | noted => cases own
  | asked | activated | refused | withdrawn | notified => cases traced
  | appended | started | runUnrecorded | completed | failed =>
    cases traced
    simp at field

namespace Log

def named (log : Log κ ν ε) : List (Entry κ × String) :=
  (log.filterMap Event.opened?).map (fun (entry, info) => (entry, info.label)) ++
    log.filterMap Event.delivered?

namespace Numbered

variable {log : Log κ ν ε}

theorem startedAs (numbered : log.Numbered) (few : log.activated.length < UInt32.size)
    {place : Nat} {info : StepInfo} (shown : log.starts[place]? = some info) :
    info.index.toNat = place ∧ ∃ entry : Entry κ, log.activated[place]? = some entry ∧
      info.label = entry.labelAt place := by
  rw [numbered.starts, List.getElem?_map, numberedAt, Option.map_map] at shown
  obtain ⟨entry, here, rfl⟩ := Option.map_eq_some_iff.mp shown
  have low : place < UInt32.size := Nat.lt_trans (List.getElem?_eq_some_iff.mp here).1 few
  exact ⟨UInt32.toNat_ofNat_of_lt' low, entry, here, entry.labelOfNumber low⟩

theorem appliedAs (numbered : log.Numbered) {place : Nat} {entry : Entry κ} {info : StepInfo}
    (began : (log.filterMap Event.began?)[place]? = some (entry, info)) :
    log.activated[place]? = some entry ∧ log.starts[place]? = some info := by
  obtain ⟨rest, whole⟩ := numbered.began
  have here : (Sequencer.numbered log.activated)[place]? = some (entry, info) := by
    rw [← whole, List.getElem?_append_left (List.getElem?_eq_some_iff.mp began).1, began]
  have shown : log.starts[place]? = some info := by
    rw [numbered.starts, List.getElem?_map, here]
    rfl
  rw [numberedAt] at here
  obtain ⟨other, there, same⟩ := Option.map_eq_some_iff.mp here
  cases same
  exact ⟨there, shown⟩

theorem namesApart (numbered : log.Numbered) (few : log.activated.length < UInt32.size)
    {told : List (Entry κ)}
    (notices : log.filterMap Event.delivered? = tellingsAt log.activated.length told) :
    (log.named.filterMap plainLabel?).Nodup := by
  have lower : log.named =
      labelled 0 log.activated ++ tellingsAt log.activated.length told := by
    rw [named, numbered.opened, labelledOfNumbered (Nat.le_of_lt few), notices]
  have among : log.named.Sublist (labelled 0 (log.activated ++ told)) := by
    rw [lower, labelledAppend, Nat.zero_add]
    exact (List.Sublist.refl _).append List.filter_sublist
  exact (plainLabelsApart 0 _).sublist (among.filterMap _)

end Numbered

end Log

namespace Ensemble

variable {behaviour : Behaviour κ ν ε}

theorem windowStarted {queue : QueueId} {name : String} {log : Log κ ν ε} {stage : Stage κ ν}
    {run : Run} {info : StepInfo} (within : stage.window = some (run, info))
    (told : (Point.inside stage).Tells queue name log.deeds) (numbered : log.Numbered) :
    log.starts.getLast? = some info := by
  obtain ⟨earlier, entry, last, named, place⟩ := windowTold within told
  rw [numbered.starts, last, numberedSnoc, List.map_append, List.map_singleton,
    List.getLast?_concat, named, place]
  rfl

structure Labelled (queue : QueueId) (s : Ensemble κ ν ε) : Prop where
  started : ∀ (place : Nat) (info : StepInfo), (s.world.log queue).starts[place]? = some info →
    info.index.toNat = place ∧ ∃ entry : Entry κ,
      (s.world.log queue).activated[place]? = some entry ∧ info.label = entry.labelAt place
  applied : ∀ (place : Nat) (entry : Entry κ) (info : StepInfo),
    ((s.world.log queue).filterMap Event.began?)[place]? = some (entry, info) →
      (s.world.log queue).activated[place]? = some entry ∧
        (s.world.log queue).starts[place]? = some info
  shown : ∀ stage ∈ s.stages, stage.queue? = some queue → ∀ run info,
    stage.window = some (run, info) → (s.world.log queue).starts.getLast? = some info ∧
      (s.world.queue queue).Shows (some info)
  warned : ∀ stage ∈ s.stages, stage.queue? = some queue → ∀ label, stage.cries? = some label →
    (∃ run info, stage.window = some (run, info) ∧ info.label = label) ∨
      ∃ entry, ((s.world.log queue).filterMap Event.delivered?).getLast? = some (entry, label)
  traced : ∀ event ∈ s.world.log queue, ∀ (line : Line) (label : String),
    event.line? s.world.nameOf = some line → ("step", .text label) ∈ line.fields →
      ∃ info ∈ (s.world.log queue).starts, event.info? = some info ∧ info.label = label
  failed : ∀ (info : StepInfo) (spliced : Nat) (error : RunError),
    .settled queue info spliced (.error error) ∈ s.world.log queue →
      info ∈ (s.world.log queue).starts ∧ error.step? = some info.label ∧
        error.TellsOf info.label
  delivered : ∃ told, told <+: (s.world.log queue).withdrawn ∧
    (s.world.log queue).filterMap Event.delivered? =
      tellingsAt (s.world.log queue).activated.length told
  distinct : ((s.world.log queue).named.filterMap plainLabel?).Nodup

theorem Reachable.few {s : Ensemble κ ν ε} (reached : Reachable behaviour s) (queue : QueueId)
    (few : (s.world.log queue).arrivals.length < UInt32.size) :
    (s.world.log queue).activated.length + (s.world.log queue).withdrawn.length < UInt32.size := by
  obtain ⟨point, -, conserved⟩ := reached.holds (keptConserved queue _)
  rw [← List.length_append]
  exact Nat.lt_of_le_of_lt conserved.within few

theorem Reachable.labels {s : Ensemble κ ν ε} (reached : Reachable behaviour s) (queue : QueueId)
    (few : (s.world.log queue).arrivals.length < UInt32.size) : s.Labelled queue := by
  obtain ⟨point, here, ⟨⟨⟨told, listed⟩, -, news⟩, depths⟩, pronounced⟩ := reached.holds
    ((((keptNumbered queue _).and (keptNoticed queue _)).and (keptDepths queue _)).and
      (keptPronounced queue _))
  have numbered : (s.world.log queue).Numbered := Log.numberedOfDeeds listed
  have noticed : Noticed (s.world.log queue) := news.ofDeeds
  have within := reached.few queue few
  obtain ⟨told, front, notices⟩ := noticed.told
  have part := front.length_le
  rw [tellingsFew (by omega)] at notices
  have short : (s.world.log queue).activated.length < UInt32.size := by omega
  refine ⟨fun _ _ shown => numbered.startedAs short shown,
    fun _ _ _ began => numbered.appliedAs began, ?_, ?_, ?_, ?_, ⟨told, front, notices⟩,
    numbered.namesApart short notices⟩
  · intro stage present own run info window
    cases atStage here present own
    have mark : (s.world.agenda queue).active = stage.mark := depths.marked.mark
    have last : (s.world.log queue).starts.getLast? = some info :=
      windowStarted window told numbered
    refine ⟨last, Queue.shows ?_⟩
    exact mark.trans (by rw [stage.markOfWindow, window]; rfl)
  · intro stage present own label cries
    cases atStage here present own
    cases stage with
    | observing run step info value => exact .inl ⟨run, info, rfl, Option.some.inj cries⟩
    | delivering run delivery name rest index dropped =>
      cases cries
      exact .inr (pronounced run delivery _ rest index dropped rfl)
    | _ => cases cries
  · intro event present line label traced field
    have own : event.queue? = some queue := by
      simpa using (List.mem_filter.mp present).2
    obtain ⟨info, about, same⟩ := Event.stepOfLine own traced field
    exact ⟨info, numbered.infos event present info about, about, same⟩
  · intro info spliced error present
    obtain ⟨before, after, log⟩ := List.append_of_mem present
    obtain ⟨a, stage, ending, rest, -, -, -, -, -, answer, -⟩ :=
      reached.answered (keptTrue queue _) rfl log
    obtain ⟨run, step, settles, -⟩ := answer.ofFailed
    have named := settles.fails.1
    exact ⟨numbered.infos _ present info rfl, named, RunError.tellsOfStep named⟩

theorem Labelled.blamed {s : Ensemble κ ν ε} (labels : s.Labelled queue)
    (reached : Reachable behaviour s) {name : String} {error : RunError} {trunk : Trunk κ ν}
    {fall : Fall κ ν} {before after : Log κ ν ε}
    (fell : Fell queue name error (s.world.agenda queue) (s.world.log queue) trunk fall before
      after)
    (few : (s.world.log queue).activated.length ≤ UInt32.size) {label : String}
    (named : error.step? = some label) :
    ∃ earlier failing, (s.world.log queue).applied = earlier ++ [failing] ∧
      label = failing.labelAt earlier.length := by
  obtain ⟨activated, applied, -⟩ := fell.read
  have blown := fell.blown
  cases tried : fall.attempt with
  | none =>
    simp only [Fall.blow, tried] at blown
    obtain ⟨before, after, log⟩ := List.append_of_mem blown
    obtain ⟨a, stage, ending, rest, -, -, -, -, -, answer, -⟩ :=
      reached.answered (keptTrue queue _) rfl log
    obtain ⟨failure, refused⟩ : ∃ failure, fall.error = .recorder failure := by
      generalize fall.error = thrown at answer
      cases answer with
      | refused agenda run value entry info failure => exact ⟨failure, rfl⟩
    rw [fell.cause, refused] at named
    cases named
  | some attempt =>
    simp only [Fall.blow, tried] at blown
    obtain ⟨-, blamed, -⟩ := labels.failed _ _ _ blown
    rw [fell.cause, blamed] at named
    refine ⟨trunk.entries, fall.entry, by rw [applied, Fall.applied, tried]; rfl, ?_⟩
    rw [activated, List.length_append, List.length_singleton] at few
    rw [← fall.entry.labelOfNumber (by omega), Trunk.entries, List.length_map]
    exact (Option.some.inj named).symm

end Ensemble

end Sequencer

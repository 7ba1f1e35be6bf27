import Sequencer.Proofs.Balance
import Sequencer.Proofs.InlinedWorld

/-! What the library does for the queue in both executions. Where it has called out, the code of a
step stands against the same code inlined, and the code of the recorder against any other that does
nothing to the queue. When the code has ended, both executions activate the same step, or give up
with the same steps left, since by then the target has found all that was laid behind it. -/
namespace Sequencer

variable {κ ν ε : Type} {heard : ε → Bool}

namespace Inlining

variable (plan : Inlining κ)

def Working (place : Place) (n : Nat) : Fact κ ν ε := fun agenda log mate =>
  plan.Works place agenda log mate ∧ agenda.buffer.length = n

def Free : Fact κ ν ε := fun _ _ _ => True

def After : Verdict ν → Fact κ ν ε
  | .completed _ => plan.Waits
  | .failed _ _ => Free

/- The code of a step in both executions: the place of the step, the answer of the second code as
the first one gives it after a number of discoveries, and what holds of the queue then. -/
inductive Coding : (first : Stage κ ν) → (second : Stage (κ × Place) ν) → Place →
    (Nat → first.Answer ε → second.Answer ε) → (Nat → Fact κ ν ε) → Prop where
  | applying (id also index step other info same place) (infos : info.shallow = same.shallow) :
      Coding (.applying ⟨plan.queue, id, index⟩ step info)
        (.applying ⟨plan.queue, also, index⟩ other same) place (fun _ answer => answer)
        (plan.Working place)
  | calling (id also index step other info same place) (infos : info.shallow = same.shallow) :
      Coding (.calling ⟨plan.queue, id, index⟩ step info)
        (.calling ⟨plan.queue, also, index⟩ other same) place
        (fun n program => program.inline plan (some place) (fun _ answer => answer) n)
        (plan.Working place)
  | awaiting (id also index step other info same place) (infos : info.shallow = same.shallow) :
      Coding (.awaiting ⟨plan.queue, id, index⟩ step info)
        (.awaiting ⟨plan.queue, also, index⟩ other same) place (fun _ answer => answer)
        (plan.Working place)
  | observing (id also index step other info same value place)
      (infos : info.shallow = same.shallow) :
      Coding (.observing ⟨plan.queue, id, index⟩ step info value)
        (.observing ⟨plan.queue, also, index⟩ other same value) place (fun _ answer => answer)
        (plan.Working place)
  | delivering (id also index error step other info same label rest mates spot dropped place)
      (infos : info.shallow = same.shallow) (twins : List.Forall₂ Twins rest mates) :
      Coding
        (.delivering ⟨plan.queue, id, index⟩ ⟨error, some (step, info)⟩ label rest spot dropped)
        (.delivering ⟨plan.queue, also, index⟩ ⟨error, some (other, same)⟩ label mates spot dropped)
        place (fun _ answer => answer) (fun _ => Free)

inductive Recording : (first : Stage κ ν) → (second : Stage (κ × Place) ν) →
    (Ending (first.Answer ε) → Prop) → (Ending (second.Answer ε) → Prop) → Fact κ ν ε → Prop where
  | startingRun (value) : Recording (.startingRun plan.queue value) (.startingRun plan.queue value)
      Ending.Granted Ending.Granted plan.Waits
  | startingStep (id also index value entry twin info same place)
      (twins : twin.toStep = entry.toStep.placed place) (infos : info.shallow = same.shallow) :
      Recording (.startingStep ⟨plan.queue, id, index⟩ value entry info)
        (.startingStep ⟨plan.queue, also, index⟩ value twin same) Ending.Granted Ending.Granted
        (plan.Working place 0)
  | completingStep (id also index info same verdict) :
      Recording (.completingStep ⟨plan.queue, id, index⟩ info verdict)
        (.completingStep ⟨plan.queue, also, index⟩ same verdict) Ending.Heard Ending.Heard
        (plan.After verdict)
  | completingRun (id also index verdict) :
      Recording (.completingRun ⟨plan.queue, id, index⟩ verdict)
        (.completingRun ⟨plan.queue, also, index⟩ verdict) Ending.Heard Ending.Heard Free

variable (heard) in
inductive Pairs : Machine κ ν ε → Machine (κ × Place) ν ε → Prop where
  | coding (world other stage mate place finish fact) (program : Program κ ν ε (stage.Answer ε)) (n)
      (stages : plan.Coding stage mate place finish fact)
      (worlds : world.UpToNames (plan.bond heard (fact n)) other) :
      Pairs ⟨world, ⟨stage, program⟩, []⟩
        ⟨other, ⟨mate, program.inline plan (some place) finish n⟩, []⟩
  | recording (world other stage mate due also fact code silent)
      (stages : plan.Recording stage mate due also fact) (mute : code.Mute heard due)
      (still : silent.Mute heard also) (worlds : world.UpToNames (plan.bond heard fact) other) :
      Pairs ⟨world, ⟨stage, code⟩, []⟩ ⟨other, ⟨mate, silent⟩, []⟩
  | nested (machine other stage mate place finish fact resume n)
      (stages : plan.Coding stage mate place finish fact)
      (machines : machine.UpToNames (plan.bond heard (fact n)) (fun callers mates =>
        callers = [⟨stage, resume⟩] ∧
          mates =
            [⟨mate, fun result => (resume result).inline plan (some place) finish n⟩]) other) :
      Pairs machine other

variable (heard) in
inductive Paired : Progress κ ν ε → Progress (κ × Place) ν ε → Prop where
  | going (first second machine other) (early : first.machine? = some machine)
      (late : second.machine? = some other) (pairs : plan.Pairs heard machine other) :
      Paired first second
  | ended (world other outcome) (worlds : world.UpToNames (plan.bond heard Free) other) :
      Paired (.ended world outcome) (.ended other outcome)

variable {plan}

theorem Coding.working {first : Stage κ ν} {second : Stage (κ × Place) ν} {place : Place}
    {finish : Nat → first.Answer ε → second.Answer ε} {fact : Nat → Fact κ ν ε}
    (stages : plan.Coding first second place finish fact) (works : first.works plan.queue = true) :
    fact = plan.Working place := by
  cases stages with
  | delivering => cases works
  | _ => rfl

theorem Coding.foreign {first : Stage κ ν} {second : Stage (κ × Place) ν} {place : Place}
    {finish : Nat → first.Answer ε → second.Answer ε} {fact : Nat → Fact κ ν ε}
    (stages : plan.Coding first second place finish fact) : first.records plan.queue = false := by
  cases stages <;> rfl

theorem Coding.own {first : Stage κ ν} {second : Stage (κ × Place) ν} {place : Place}
    {finish : Nat → first.Answer ε → second.Answer ε} {fact : Nat → Fact κ ν ε}
    (stages : plan.Coding first second place finish fact) : first.queue? = some plan.queue := by
  cases stages <;> rfl

section Twins

variable {entry : Entry κ} {twin : Entry (κ × Place)} {place : Place}
  (same : twin.toStep = entry.toStep.placed place)
include same

theorem twinInfo (index : UInt32) : (entry.info index).shallow = (twin.info index).shallow := by
  obtain ⟨step, depth, ticket⟩ := twin
  cases same
  rfl

theorem twinLabel (index : UInt32) : twin.label index = entry.label index := by
  obtain ⟨step, depth, ticket⟩ := twin
  cases same
  rfl

theorem twinBare : (twin.recode Prod.fst).bare = entry.bare := by
  obtain ⟨step, depth, ticket⟩ := twin
  cases same
  rfl

theorem twinCode : twin.code = (entry.code, place) := congrArg Step.code same

theorem twinKind : twin.kind = entry.kind := congrArg Step.kind same

theorem twinObserver : twin.isObserver = entry.isObserver := by
  obtain ⟨step, depth, ticket⟩ := twin
  cases same
  rfl

end Twins

theorem twinsBare {rest : List (Entry κ)} {mates : List (Entry (κ × Place))}
    (twins : List.Forall₂ Twins rest mates) :
    (mates.map (Entry.recode Prod.fst)).map Entry.bare = rest.map Entry.bare := by
  induction twins with
  | nil => rfl
  | cons twin behind ih =>
    obtain ⟨place, same⟩ := twin
    rw [List.map_cons, List.map_cons, List.map_cons, ih, twinBare same]

theorem Waits.more {agenda : Agenda κ} {log : Log κ ν ε} {mate : Agenda (κ × Place)}
    (waits : plan.Waits agenda log mate) (events : Log κ ν ε)
    (idle : ∀ event ∈ events, event.places = false) : plan.Waits agenda (log ++ events) mate := by
  obtain ⟨bare, empty, laid⟩ := waits
  exact ⟨bare, empty, by rw [(Log.readUnseen plan.queue log events idle).1]; exact laid⟩

theorem Works.more {place : Place} {agenda : Agenda κ} {log : Log κ ν ε}
    {mate : Agenda (κ × Place)} (works : plan.Works place agenda log mate) (events : Log κ ν ε)
    (idle : ∀ event ∈ events, event.places = false) :
    plan.Works place agenda (log ++ events) mate := by
  obtain ⟨busy, also, finder, laid⟩ := works
  have same := (Log.readUnseen plan.queue log events idle).1
  exact ⟨busy, also, by rw [same]; exact finder, by rw [same]; exact laid⟩

theorem After.more {verdict : Verdict ν} {agenda : Agenda κ} {log : Log κ ν ε}
    {mate : Agenda (κ × Place)} (holds : plan.After verdict agenda log mate) (events : Log κ ν ε)
    (idle : ∀ event ∈ events, event.places = false) :
    plan.After verdict agenda (log ++ events) mate := by
  cases verdict with
  | completed value => exact Waits.more holds events idle
  | failed error dropped => trivial

theorem bodyOwn (behaviour : Behaviour κ ν ε) (code : κ) (place : Place) (value : ν) :
    (behaviour.inlined plan).body (code, place) plan.queue value =
      (behaviour.body code plan.queue value).inline plan (some place)
        (fun _ answer => answer) 0 := by
  simp only [Behaviour.inlined, finder, if_pos]

theorem callOwn (behaviour : Behaviour κ ν ε) (code : κ) (place : Place) (value : ν) :
    (behaviour.inlined plan).call (code, place) plan.queue value =
      (behaviour.call code plan.queue value).inline plan (some place)
        (fun n program => program.inline plan (some place) (fun _ answer => answer) n) 0 := by
  simp only [Behaviour.inlined, finder, if_pos]

theorem watchOwn (behaviour : Behaviour κ ν ε) (code : κ) (place : Place)
    (result : Except RunError ν) :
    (behaviour.inlined plan).watch (code, place) plan.queue result =
      (behaviour.watch code plan.queue result).inline plan (some place)
        (fun _ answer => answer) 0 := by
  simp only [Behaviour.inlined, finder, if_pos]

theorem labelOfShallow {info same : StepInfo} (infos : info.shallow = same.shallow) :
    info.label = same.label :=
  (congrArg StepInfo.label infos : info.shallow.label = same.shallow.label)

theorem remainingBare {α : Type} {agenda : Agenda α} (bare : agenda.buffer = []) :
    agenda.takeRemaining.1 = agenda.pipeline := by
  rw [Agenda.takeRemaining, agenda.settled.1, Agenda.pending, bare, List.nil_append]

section Grows
open Scheduler

variable (behaviour : Behaviour κ ν ε) (world : World κ ν ε) (run : Run)

theorem withdrawGrows (delivery : Delivery) (index : UInt32) :
    world.log run.queue ++ [.withdrawn run.queue (world.agenda run.queue).takeRemaining.1] <+:
      (withdraw behaviour world run delivery index).1.log run.queue := by
  rw [withdrawDelivers]
  have grows := Standing.followsGrow (deliverLeads behaviour
    ((world.setAgenda run.queue (world.agenda run.queue).takeRemaining.2).record
      (.withdrawn run.queue (world.agenda run.queue).takeRemaining.1)) run delivery
    (world.agenda run.queue).takeRemaining.1 index 0).path
  simpa [Event.queue?] using grows

theorem settleGrows (step : Int) (info : StepInfo) (result : Except RunError ν) :
    world.log run.queue ++
        [.settled run.queue info (world.agenda run.queue).found.size result] <+:
      (settle behaviour world run step info result).1.log run.queue := by
  cases result with
  | ok value => simp [settle, completeStep, World.settle, Event.queue?]
  | error error =>
    have grows := withdrawGrows behaviour ((world.settle run.queue).record
      (.settled run.queue info (world.agenda run.queue).found.size (.error error)))
      { run with index := run.index + 1 } ⟨error, some (step, info)⟩ (run.index + 1)
    have first := (List.prefix_append _ _).trans grows
    rwa [World.logAfterOwn _ rfl] at first

end Grows

theorem appendAllGoes (behaviour : Behaviour κ ν ε) {queue : QueueId} {steps : List (Step κ)}
    {world : World κ ν ε} {stage : Stage κ ν} {next : Program κ ν ε (stage.Answer ε)}
    {callers : List (Caller κ ν ε)} {progress : Progress κ ν ε}
    (here : progress.machine? = some ⟨world, ⟨stage, .appendAll queue steps next⟩, callers⟩) :
    ∃ last, Progress.Goes behaviour progress last ∧ last.machine? = some
      ⟨steps.foldl (fun world step => world.append queue step) world, ⟨stage, next⟩, callers⟩ := by
  induction steps generalizing world progress with
  | nil => exact ⟨progress, .refl, here⟩
  | cons step rest ih =>
    have appended :
        ((Machine.mk world ⟨stage, .appendAll queue (step :: rest) next⟩ callers).advance
          behaviour).machine? =
          some ⟨world.append queue step, ⟨stage, .appendAll queue rest next⟩, callers⟩ := rfl
    obtain ⟨last, path, there⟩ := ih appended
    exact ⟨last, .head (.advance _ _ here) path, there⟩

section Scheduler
open Scheduler

variable {behaviour : Behaviour κ ν ε} (mute : (behaviour.recorder plan.queue).Mute heard)
  {fact : Fact κ ν ε} {world : World κ ν ε} {other : World (κ × Place) ν ε} {id also : Int}
  {index : UInt32} {place : Place} {info same : StepInfo}

include mute

theorem completeRunPaired (worlds : world.UpToNames (plan.bond heard fact) other)
    (verdict : Verdict ν) :
    plan.Paired heard
      (Machine.resume [] (completeRun behaviour world ⟨plan.queue, id, index⟩ verdict))
      (Machine.resume []
        (completeRun (behaviour.inlined plan) other ⟨plan.queue, also, index⟩ verdict)) :=
  .going _ _ _ _ rfl rfl <| .recording _ _ _ _ _ _ _ _ _ (.completingRun id also index verdict)
    (mute.completeRun _ _) ((mute.completeRun _ _).recode Prod.fst)
    (recordOwn worlds _ _ rfl rfl rfl trivial)

theorem completeStepPaired (worlds : world.UpToNames (plan.bond heard fact) other)
    (verdict : Verdict ν)
    {status mate : StepStatus} {step twin : Int}
    (alike : (Call.completeStep step status).shallow = (Call.completeStep twin mate).shallow)
    (holds : plan.After verdict (world.agenda plan.queue) (world.log plan.queue)
      (other.agenda plan.queue)) :
    plan.Paired heard
      (Machine.resume []
        (completeStep behaviour world ⟨plan.queue, id, index⟩ step info status verdict))
      (Machine.resume [] (completeStep (behaviour.inlined plan) other ⟨plan.queue, also, index⟩ twin
        same mate verdict)) := by
  refine .going _ _ _ _ rfl rfl <| .recording _ _ _ _ _ _ _ _ _
    (.completingStep id also index info same verdict) (mute.completeStep _ _ _)
    ((mute.completeStep _ _ _).recode Prod.fst) (recordOwn worlds _ _ rfl rfl ?_ ?_)
  · simp only [Event.flat, Event.recode, alike]
  · exact After.more holds _ (by simp [Event.places])

theorem proceedPaired (worlds : world.UpToNames (plan.bond heard plan.Waits) other) (value : ν) :
    plan.Paired heard
      (Machine.resume [] (proceed behaviour world ⟨plan.queue, id, index⟩ value))
      (Machine.resume []
        (proceed (behaviour.inlined plan) other ⟨plan.queue, also, index⟩ value)) := by
  have waits := ownFact worlds
  dsimp only [proceed]
  cases taken : (world.agenda plan.queue).activate index with
  | none =>
    rw [waits.drained taken]
    exact completeRunPaired mute worlds _
  | some first =>
    obtain ⟨entry, next⟩ := first
    obtain ⟨place, twin, more, activated, twins, bare, works⟩ :=
      waits.activate taken (entry.info index) (.startStep id (entry.info index))
    rw [activated]
    have set : World.UpToNames (plan.bond heard Free) _ _ := setOwn worlds next more trivial
    have told : World.UpToNames (plan.bond heard Free)
        ((world.setAgenda plan.queue next).record (.activated plan.queue entry (entry.info index)))
        ((other.setAgenda plan.queue more).record
          (.activated plan.queue twin (twin.info index))) := by
      refine recordOwn set _ _ rfl rfl ?_ trivial
      simp only [Event.flat, Event.recode, twinBare twins, twinInfo twins]
    refine .going _ _ _ _ rfl rfl <| .recording _ _ _ _ _ _ _ _ _
      (.startingStep id also index value entry twin _ _ place twins (twinInfo twins index))
      (mute.startStep _ _) ((mute.startStep _ _).recode Prod.fst) (recordOwn told _ _ rfl rfl ?_ ?_)
    · simp only [Event.flat, Event.recode, Call.shallow, twinInfo twins]
    · refine ⟨?_, ?_⟩
      · simpa [Event.queue?] using works
      · simp [bare]

omit mute in
theorem applyPaired (worlds : world.UpToNames (plan.bond heard (plan.Working place 0)) other)
    {entry : Entry κ} {twin : Entry (κ × Place)} (twins : twin.toStep = entry.toStep.placed place)
    (infos : info.shallow = same.shallow) (step mate : Int) (value : ν) :
    plan.Paired heard
      (Machine.resume [] (apply behaviour world ⟨plan.queue, id, index⟩ step value entry info))
      (Machine.resume [] (apply (behaviour.inlined plan) other ⟨plan.queue, also, index⟩ mate value
        twin same)) := by
  have told : World.UpToNames (plan.bond heard (plan.Working place 0))
      (world.record (.applied plan.queue step entry info value))
      (other.record (.applied plan.queue mate twin same value)) := by
    obtain ⟨works, none⟩ := ownFact worlds
    refine recordOwn worlds _ _ rfl rfl ?_ ⟨works.more _ (by simp [Event.places]), none⟩
    simp only [Event.flat, Event.recode, twinBare twins, infos]
  dsimp only [apply]
  rw [twinKind twins, twinCode twins]
  cases entry.kind with
  | value =>
    dsimp only
    rw [bodyOwn]
    exact .going _ _ _ _ rfl rfl <| .coding _ _ _ _ _ _ _ _ 0
      (.applying id also index step mate info same place infos) told
  | async =>
    dsimp only
    rw [callOwn]
    exact .going _ _ _ _ rfl rfl <| .coding _ _ _ _ _ _ _ _ 0
      (.calling id also index step mate info same place infos) told
  | observer =>
    dsimp only
    rw [watchOwn]
    exact .going _ _ _ _ rfl rfl <| .coding _ _ _ _ _ _ _ _ 0
      (.observing id also index step mate info same value place infos) told

theorem deliverPaired {rest : List (Entry κ)} {mates : List (Entry (κ × Place))}
    (twins : List.Forall₂ Twins rest mates) (worlds : world.UpToNames (plan.bond heard fact) other)
    (infos : info.shallow = same.shallow) (error : RunError) (step mate : Int) (spot : UInt32)
    (dropped : Nat) :
    plan.Paired heard
      (Machine.resume [] (deliver behaviour world ⟨plan.queue, id, index⟩
        ⟨error, some (step, info)⟩ rest spot dropped))
      (Machine.resume [] (deliver (behaviour.inlined plan) other ⟨plan.queue, also, index⟩
        ⟨error, some (mate, same)⟩ mates spot dropped)) := by
  induction twins generalizing spot dropped with
  | nil =>
    have told : World.UpToNames (plan.bond heard Free) (world.record (.dropped plan.queue dropped))
        (other.record (.dropped plan.queue dropped)) := recordOwn worlds _ _ rfl rfl rfl trivial
    exact completeStepPaired mute told (.failed error dropped) rfl trivial
  | @cons entry twin rest mates pair behind ih =>
    obtain ⟨place, alike⟩ := pair
    simp only [deliver, twinObserver alike]
    split
    · have told : World.UpToNames (plan.bond heard Free)
          (world.record (.notified plan.queue entry (entry.label spot) error))
          (other.record (.notified plan.queue twin (twin.label spot) error)) := by
        refine recordOwn worlds _ _ rfl rfl ?_ trivial
        simp only [Event.flat, Event.recode, twinBare alike, twinLabel alike]
      rw [twinCode alike, watchOwn, twinLabel alike]
      rw [twinLabel alike] at told
      exact .going _ _ _ _ rfl rfl <| .coding _ _ _ _ _ _ _ _ 0
        (.delivering id also index error step mate info same _ rest mates _ dropped place infos
          behind) told
    · exact ih _ _

theorem withdrawPaired {last : Log κ ν ε} (fits : plan.Fits last)
    (worlds : world.UpToNames (plan.bond heard plan.Waits) other)
    (idle : ((world.log plan.queue).discovery plan.queue).active = none)
    (infos : info.shallow = same.shallow) (error : RunError) (step mate : Int) (spot : UInt32)
    (within : (withdraw behaviour world ⟨plan.queue, id, index⟩ ⟨error, some (step, info)⟩
      spot).1.log plan.queue <+: last) :
    plan.Paired heard
      (Machine.resume [] (withdraw behaviour world ⟨plan.queue, id, index⟩
        ⟨error, some (step, info)⟩ spot))
      (Machine.resume [] (withdraw (behaviour.inlined plan) other ⟨plan.queue, also, index⟩
        ⟨error, some (mate, same)⟩ spot)) := by
  have waits := ownFact worlds
  have remaining : (world.agenda plan.queue).takeRemaining.1 = (world.agenda plan.queue).pipeline :=
    remainingBare waits.bare
  have others : (other.agenda plan.queue).takeRemaining.1 = (other.agenda plan.queue).pipeline :=
    remainingBare waits.empty
  obtain ⟨later, rfl⟩ := (withdrawGrows behaviour world ⟨plan.queue, id, index⟩
    ⟨error, some (step, info)⟩ spot).trans within
  rw [remaining, List.append_assoc] at fits
  -- a target that is taken out has found nothing, so nothing was laid behind it
  have twins : List.Forall₂ Twins (world.agenda plan.queue).pipeline
      (other.agenda plan.queue).pipeline := by
    refine waits.laid.twins fun entry present here => ?_
    refine fits.barren here (by rw [idle]; nofun) ?_
    simp [Event.withdrawal, present]
  rw [withdrawDelivers, withdrawDelivers, remaining, others]
  have set : World.UpToNames (plan.bond heard Free)
      (world.setAgenda plan.queue (world.agenda plan.queue).takeRemaining.2)
      (other.setAgenda plan.queue (other.agenda plan.queue).takeRemaining.2) :=
    setOwn worlds _ _ trivial
  have told : World.UpToNames (plan.bond heard Free) _ _ :=
    recordOwn set (.withdrawn plan.queue (world.agenda plan.queue).pipeline)
      (.withdrawn plan.queue (other.agenda plan.queue).pipeline) rfl rfl ?_ trivial
  · exact deliverPaired mute twins told infos error step mate spot 0
  · simp only [Event.flat, Event.recode, twinsBare twins]

theorem settlePaired {last : Log κ ν ε} (fits : plan.Fits last) {n : Nat}
    (worlds : world.UpToNames (plan.bond heard (plan.Working place n)) other)
    (order : Order plan.queue (world.agenda plan.queue) (world.log plan.queue))
    (infos : info.shallow = same.shallow) (step mate : Int) (result : Except RunError ν)
    (within : (settle behaviour world ⟨plan.queue, id, index⟩ step info result).1.log
      plan.queue <+: last) :
    plan.Paired heard
      (Machine.resume [] (settle behaviour world ⟨plan.queue, id, index⟩ step info result))
      (Machine.resume [] (settle (behaviour.inlined plan) other ⟨plan.queue, also, index⟩ mate same
        result)) := by
  obtain ⟨works, -⟩ := ownFact worlds
  have settled :=
    (settleGrows behaviour world ⟨plan.queue, id, index⟩ step info result).trans within
  have discovery (spliced : Nat) : Log.discovery plan.queue
      (world.log plan.queue ++ [.settled plan.queue info spliced result]) =
        ⟨((world.log plan.queue).discovery plan.queue).forest, none⟩ := by
    rw [Log.discoveryAppend]
    simp [Discovery.observe]
  -- the log tells of no later discovery of the step that settles
  have waits (spliced : Nat) : plan.Waits (world.agenda plan.queue).settle
      (world.log plan.queue ++ [.settled plan.queue info spliced result])
      (other.agenda plan.queue).settle :=
    works.settle (by rw [discovery]) fun target => works.complete order fits settled target
  have set : World.UpToNames (plan.bond heard Free) (world.settle plan.queue)
      (other.settle plan.queue) := setOwn worlds _ _ trivial
  have told (spliced mates : Nat) : World.UpToNames (plan.bond heard plan.Waits)
      ((world.settle plan.queue).record (.settled plan.queue info spliced result))
      ((other.settle plan.queue).record (.settled plan.queue same mates result)) := by
    refine recordOwn set _ _ rfl rfl ?_ ?_
    · simp only [Event.flat, Event.recode, infos]
    · simpa [World.settle] using waits spliced
  cases result with
  | ok value =>
    exact completeStepPaired mute (told _ _) (.completed value) rfl (ownFact (told _ _))
  | error error =>
    refine withdrawPaired mute fits (told _ _) ?_ infos error step mate _ within
    rw [World.logAfterOwn _ rfl]
    exact congrArg Discovery.active (discovery _)

theorem stepCompletedPaired (verdict : Verdict ν)
    (worlds : world.UpToNames (plan.bond heard (plan.After verdict)) other) :
    plan.Paired heard
      (Machine.resume [] (stepCompleted behaviour world ⟨plan.queue, id, index⟩ verdict))
      (Machine.resume []
        (stepCompleted (behaviour.inlined plan) other ⟨plan.queue, also, index⟩ verdict)) := by
  cases verdict with
  | completed value => exact proceedPaired mute worlds value
  | failed error dropped => exact completeRunPaired mute worlds _

omit mute in
theorem runCompletedPaired (verdict : Verdict ν)
    (worlds : world.UpToNames (plan.bond heard fact) other) :
    plan.Paired heard (Machine.resume [] (runCompleted world ⟨plan.queue, id, index⟩ verdict))
      (Machine.resume [] (runCompleted other ⟨plan.queue, also, index⟩ verdict)) := by
  refine .ended _ _ (.returned verdict.result) ?_
  cases verdict with
  | completed value => exact recordOwn worlds _ _ rfl rfl rfl trivial
  | failed error dropped => exact recordOwn worlds _ _ rfl rfl rfl trivial

theorem recordingPaired {stage : Stage κ ν} {mate : Stage (κ × Place) ν}
    {due : Ending (stage.Answer ε) → Prop} {duly : Ending (mate.Answer ε) → Prop}
    (stages : plan.Recording stage mate due duly fact)
    (worlds : world.UpToNames (plan.bond heard fact) other) {early : Ending (stage.Answer ε)}
    {late : Ending (mate.Answer ε)} (well : due early) (good : duly late) :
    plan.Paired heard (Machine.resume [] (conclude behaviour world stage early))
      (Machine.resume [] (conclude (behaviour.inlined plan) other mate late)) := by
  cases stages with
  | startingRun value =>
    obtain ⟨run, rfl⟩ := well
    obtain ⟨twin, rfl⟩ := good
    have told : World.UpToNames (plan.bond heard plan.Waits)
        (world.record (.started plan.queue run (world.agenda plan.queue).len))
        (other.record (.started plan.queue twin (other.agenda plan.queue).len)) :=
      recordOwn worlds _ _ rfl rfl rfl ((ownFact worlds).more _ (by simp [Event.places]))
    exact proceedPaired mute told value
  | startingStep id also index value entry twin info same place twins infos =>
    obtain ⟨step, rfl⟩ := well
    obtain ⟨mate, rfl⟩ := good
    exact applyPaired worlds twins infos step mate value
  | completingStep id also index info same verdict =>
    rw [stepHeard _ _ _ _ _ well, stepHeard _ _ _ _ _ good]
    refine stepCompletedPaired mute verdict (notingOwn worlds ?_ ?_ ?_)
    · intro event complained
      obtain ⟨failure, -, rfl⟩ := Option.map_eq_some_iff.mp complained
      exact ⟨rfl, rfl⟩
    · intro event complained
      obtain ⟨failure, -, rfl⟩ := Option.map_eq_some_iff.mp complained
      exact ⟨rfl, rfl⟩
    · cases early.complaint? with
      | none => exact ownFact worlds
      | some failure =>
        refine (World.logAfterOwn world ?_).symm ▸ After.more (ownFact worlds) _ ?_
        · rfl
        · simp [Event.places]
  | completingRun id also index verdict =>
    rw [runHeard _ _ _ _ well, runHeard _ _ _ _ good]
    have noted : World.UpToNames (plan.bond heard Free)
        (world.noting (early.complaint?.map (.runUnrecorded plan.queue)))
        (other.noting (late.complaint?.map (.runUnrecorded plan.queue))) := by
      refine notingOwn worlds ?_ ?_ trivial
      all_goals
        intro event complained
        obtain ⟨failure, -, rfl⟩ := Option.map_eq_some_iff.mp complained
        exact ⟨rfl, rfl⟩
    exact runCompletedPaired verdict noted

theorem codingPaired {last : Log κ ν ε} (fits : plan.Fits last) {stage : Stage κ ν}
    {mate : Stage (κ × Place) ν} {finish : Nat → stage.Answer ε → mate.Answer ε}
    {fact : Nat → Fact κ ν ε} (stages : plan.Coding stage mate place finish fact) {n : Nat}
    (worlds : world.UpToNames (plan.bond heard (fact n)) other)
    (order : stage.works plan.queue = true →
      Order plan.queue (world.agenda plan.queue) (world.log plan.queue))
    (ending : Ending (stage.Answer ε))
    (within : (conclude behaviour world stage ending).1.log plan.queue <+: last) :
    plan.Paired heard (Machine.resume [] (conclude behaviour world stage ending))
      (Machine.resume []
        (conclude (behaviour.inlined plan) other mate (ending.map (finish n)))) := by
  have results {β : Type} (ending : Ending β) {info same : StepInfo}
      (infos : info.shallow = same.shallow) :
      (ending.map fun answer => answer).result same.label = ending.result info.label := by
    have label : info.label = same.label := labelOfShallow infos
    cases ending <;> simp only [Ending.map, Ending.result, label]
  cases stages with
  | applying id also index step twin info same place infos =>
    dsimp only [conclude]
    rw [results ending infos]
    exact settlePaired mute fits worlds (order (by simp [Stage.works])) infos step twin _ within
  | awaiting id also index step twin info same place infos =>
    dsimp only [conclude]
    rw [results ending infos]
    exact settlePaired mute fits worlds (order (by simp [Stage.works])) infos step twin _ within
  | calling id also index step twin info same place infos =>
    have label : info.label = same.label := labelOfShallow infos
    cases ending with
    | returned program =>
      exact .going _ _ _ _ rfl rfl <| .coding _ _ _ _ _ _ _ program n
        (.awaiting id also index step twin info same place infos) worlds
    | failed failure =>
      dsimp only [conclude, Ending.map]
      rw [← label]
      exact settlePaired mute fits worlds (order (by simp [Stage.works])) infos step twin _ within
    | panicked payload =>
      dsimp only [conclude, Ending.map]
      rw [← label]
      exact settlePaired mute fits worlds (order (by simp [Stage.works])) infos step twin _ within
  | observing id also index step twin info same value place infos =>
    have label : info.label = same.label := labelOfShallow infos
    have order := order (by simp [Stage.works])
    cases ending with
    | panicked payload =>
      dsimp only [conclude, Ending.map]
      rw [← label]
      have told := worlds.recordFree (.observerPanicked info.label payload) rfl
      exact settlePaired mute fits told (by simpa [Event.queue?] using order) infos step twin
        (.ok value) within
    | returned _ | failed _ =>
      exact settlePaired mute fits worlds order infos step twin (.ok value) within
  | delivering id also index error step twin info same label rest mates spot dropped place infos
      twins =>
    cases ending with
    | panicked payload =>
      have told := worlds.recordFree (.observerPanicked label payload) rfl
      exact deliverPaired mute twins told infos error step twin spot dropped
    | returned _ | failed _ =>
      exact deliverPaired mute twins worlds infos error step twin spot dropped

end Scheduler

end Inlining

end Sequencer

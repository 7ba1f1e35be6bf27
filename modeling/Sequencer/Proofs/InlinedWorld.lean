import Sequencer.Proofs.InlinedQueue
import Sequencer.Proofs.Lockstep

/-! Both executions at once. On every other queue they go on in lockstep, with places that mean
nothing there. -/
namespace Sequencer

variable {κ ν ε β γ τ : Type} {heard : ε → Bool}

theorem Program.inlineEnding (plan : Inlining κ) (finder : Option Place) (finish : Nat → β → γ)
    (n : Nat) (ending : Ending β) :
    (ending.code : Program κ ν ε β).inline plan finder finish n = (ending.map (finish n)).code := by
  cases ending <;> rfl

theorem Program.inlineElsewhere (plan : Inlining κ) {finish : Nat → β → γ}
    {meets : Ending β → Ending γ → Prop}
    (meet : ∀ n ending, meets ending (ending.map (finish n))) (program : Program κ ν ε β)
    (n : Nat) :
    program.UpToIdling heard (·, []) meets (program.inline plan none finish n) := by
  induction program generalizing n with
  | done answer => exact .ended (.returned answer) (.returned (finish n answer)) (meet n _)
  | fail failure => exact .ended (.failed failure) (.failed failure) (meet n _)
  | panic payload => exact .ended (.panicked payload) (.panicked payload) (meet n _)
  | append queue step next ih => exact .append queue step next _ (ih _)
  | ask queue next ih => exact .ask queue next _ fun status => ih status n
  | look queue next ih => exact .look queue next _ fun snapshot => ih snapshot n
  | note remark next ih => exact .note remark next _ (ih n)
  | suspend next ih =>
    exact .left _ _ _ (.suspend next) fun _ => .right _ _ _ (.suspend _) fun _ => ih n
  | discard queue next ih => exact .discard queue next _ fun taken => ih taken n
  | run queue initial next ih => exact .run queue initial next _ fun result => ih result n

theorem Event.flattenOwn {queue : QueueId} {event : Event κ ν ε} (own : event.queue? = some queue) :
    event.flatten heard queue = event.flat := by
  cases event with
  | noted remark => cases own
  | _ => exact if_pos own

theorem Event.queueOfRecode {κ' : Type} (f : κ → κ') (event : Event κ ν ε) :
    (event.recode f).queue? = event.queue? := by
  cases event <;> rfl

namespace World

theorem appendsOwn (queue : QueueId) (steps : List (Step κ)) (world : World κ ν ε) :
    (steps.foldl (fun world step => world.append queue step) world).agenda queue =
        steps.foldl Agenda.append (world.agenda queue) ∧
      (∀ id, id ≠ queue →
        (steps.foldl (fun world step => world.append queue step) world).queue id = world.queue id) ∧
      ∀ tell : Event κ ν ε → Option τ,
        (∀ entry nested, tell (.appended queue entry nested) = none) →
        (steps.foldl (fun world step => world.append queue step) world).history.filterMap tell =
          world.history.filterMap tell := by
  induction steps generalizing world with
  | nil => exact ⟨rfl, fun _ _ => rfl, fun _ _ => rfl⟩
  | cons step rest ih =>
    obtain ⟨agenda, others, history⟩ := ih (world.append queue step)
    refine ⟨?_, fun id other => (others id other).trans ?_,
      fun tell none => (history tell none).trans ?_⟩
    · rw [List.foldl_cons, agenda, (world.appendOwn queue step).1, List.foldl_cons]
    · rw [World.append, queueOfRecord, queueOfSet, if_neg other]
    · exact List.filterMap_cons_none (none _ _)

end World

namespace Inlining

abbrev Fact (κ ν ε : Type) := Agenda κ → Log κ ν ε → Agenda (κ × Place) → Prop

variable (plan : Inlining κ)

theorem flattenUpToNames {shared : QueueId → Prop} {event : Event κ ν ε}
    {other : Event (κ × Place) ν ε}
    (alike : Event.UpToNames (·, ([] : Place)) (fun _ => none) shared event other) :
    event.flatten heard plan.queue = (other.recode Prod.fst).flatten heard plan.queue := by
  cases alike with
  | same event own => rw [event.recodeBack _ _ fun _ => rfl]
  | started _ _ _ _ _ ids | startStep _ _ _ _ _ ids | applied _ _ _ _ _ _ _ ids
  | completeStep _ _ _ _ _ ids | completeRun _ _ _ _ _ ids =>
    cases ids
    rfl

theorem flattenUntold {event : Event κ ν ε} (untold : event.Untold heard fun _ => none) :
    event.flatten heard plan.queue = none := by
  cases untold with
  | stepUnrecorded _ _ _ loose | runUnrecorded _ _ loose => cases loose
  | noted _ unheard => simp [Event.flatten, unheard]

theorem flattenUntoldAlso {event : Event (κ × Place) ν ε}
    (untold : event.Untold heard fun _ => none) :
    (event.recode Prod.fst).flatten heard plan.queue = none := by
  refine plan.flattenUntold ?_
  cases untold with
  | stepUnrecorded queue info failure loose => exact .stepUnrecorded queue info failure loose
  | runUnrecorded queue failure loose => exact .runUnrecorded queue failure loose
  | noted remark unheard => exact .noted remark unheard

def bond (heard : ε → Bool) (fact : Fact κ ν ε) : Bond κ (κ × Place) ν ε (Event κ ν ε) where
  recode := (·, [])
  heard := heard
  ties _ := none
  apart id := if id = plan.queue then some fact else none
  left := Event.flatten heard plan.queue
  right event := (event.recode Prod.fst).flatten heard plan.queue
  told := plan.flattenUpToNames
  untold := plan.flattenUntold
  untoldAlso := plan.flattenUntoldAlso

variable {plan} {fact fact' : Fact κ ν ε} {id : QueueId}

theorem bondShared (other : id ≠ plan.queue) : (plan.bond heard fact).apart id = none :=
  if_neg other

theorem bondOwn : (plan.bond heard fact).apart plan.queue = some fact :=
  if_pos rfl

theorem sharedBond (shared : (plan.bond heard fact).apart id = none) : id ≠ plan.queue := by
  rintro rfl
  exact nomatch bondOwn.symm.trans shared

theorem inlinedUpToNames (behaviour : Behaviour κ ν ε) :
    behaviour.UpToNames (plan.bond heard fact) (behaviour.inlined plan) := by
  have elsewhere {queue : QueueId} (shared : (plan.bond heard fact).apart queue = none) :
      plan.finder queue [] = none := if_neg (sharedBond shared)
  have same (β : Type) (ending : Ending β) : ending = ending.map fun answer => answer := by
    cases ending <;> rfl
  refine ⟨rfl, fun code queue shared value => ?_, fun code queue shared value => ?_,
    fun code queue shared result => ?_, fun _ => Recorder.recodeUpToNames _⟩
  · dsimp only [Behaviour.inlined, bond]
    rw [elsewhere shared]
    exact Program.inlineElsewhere plan (fun _ => same ν) _ 0
  · dsimp only [Behaviour.inlined, bond]
    rw [elsewhere shared]
    refine Program.inlineElsewhere plan (fun n ending => ?_) _ 0
    cases ending with
    | returned program =>
      exact .returned program _ (Program.inlineElsewhere plan (fun _ => same ν) program n)
    | failed failure => exact .failed failure
    | panicked payload => exact .panicked payload
  · dsimp only [Behaviour.inlined, bond]
    rw [elsewhere shared]
    exact Program.inlineElsewhere plan (fun _ => same Unit) _ 0

section

variable {world next : World κ ν ε} {other also : World (κ × Place) ν ε}

theorem beside (shared : ∀ id, id ≠ plan.queue → other.queue id = (world.queue id).recode (·, []))
    (taken : (world.queue plan.queue).taken = true ∧ (other.queue plan.queue).taken = true)
    (holds : fact (world.agenda plan.queue) (world.log plan.queue) (other.agenda plan.queue))
    (history : world.history.filterMap (Event.flatten heard plan.queue) =
      other.history.filterMap fun event => (event.recode Prod.fst).flatten heard plan.queue) :
    world.UpToNames (plan.bond heard fact) other where
  shared here := shared _ (sharedBond here)
  apart {id found} here := by
    rcases eq_or_ne id plan.queue with rfl | elsewhere
    · cases Option.some.inj (bondOwn.symm.trans here)
      exact ⟨holds, taken⟩
    · exact nomatch (bondShared elsewhere).symm.trans here
  history := history

variable (worlds : world.UpToNames (plan.bond heard fact) other)
include worlds

theorem ownFact : fact (world.agenda plan.queue) (world.log plan.queue) (other.agenda plan.queue) :=
  (worlds.apart bondOwn).1

theorem refact
    (holds : fact' (world.agenda plan.queue) (world.log plan.queue) (other.agenda plan.queue)) :
    world.UpToNames (plan.bond heard fact') other :=
  beside (fun _ elsewhere => worlds.shared (bondShared elsewhere)) (worlds.apart bondOwn).2 holds
    worlds.history

theorem setOwn (agenda : Agenda κ) (mate : Agenda (κ × Place))
    (holds : fact' agenda (world.log plan.queue) mate) :
    (world.setAgenda plan.queue agenda).UpToNames (plan.bond heard fact')
      (other.setAgenda plan.queue mate) := by
  obtain ⟨-, taken⟩ := worlds.apart bondOwn
  refine beside (fun id elsewhere => ?_) ?_ ?_ worlds.history
  · rw [World.queueOfSet, World.queueOfSet, if_neg elsewhere, if_neg elsewhere]
    exact worlds.shared (bondShared elsewhere)
  · rw [(World.queueAfterSet _ _ _ _).2, (World.queueAfterSet _ _ _ _).2]
    exact taken
  · simpa using holds

theorem recordOwn (event : Event κ ν ε) (late : Event (κ × Place) ν ε)
    (own : event.queue? = some plan.queue) (mine : late.queue? = some plan.queue)
    (same : event.flat = (late.recode Prod.fst).flat)
    (holds : fact' (world.agenda plan.queue) (world.log plan.queue ++ [event])
      (other.agenda plan.queue)) :
    (world.record event).UpToNames (plan.bond heard fact') (other.record late) := by
  refine beside (fun id elsewhere => worlds.shared (bondShared elsewhere))
    (worlds.apart bondOwn).2 ?_ ?_
  · rw [World.logAfterOwn _ own]
    exact holds
  · have told : event.flatten heard plan.queue =
        (late.recode Prod.fst).flatten heard plan.queue := by
      rw [Event.flattenOwn own, Event.flattenOwn ((late.queueOfRecode _).trans mine), same]
    have before := worlds.history
    simp only [bond] at before
    simp only [World.record, List.filterMap_cons, told, before]

theorem notingOwn {early : Option (Event κ ν ε)} {late : Option (Event (κ × Place) ν ε)}
    (own : ∀ event ∈ early, event.queue? = some plan.queue ∧ event.flat = none)
    (mine : ∀ event ∈ late, event.queue? = some plan.queue ∧ (event.recode Prod.fst).flat = none)
    (holds : fact' (world.agenda plan.queue) ((world.noting early).log plan.queue)
      (other.agenda plan.queue)) :
    (world.noting early).UpToNames (plan.bond heard fact') (other.noting late) := by
  have first : (world.noting early).queues = world.queues := by cases early <;> rfl
  have second : (other.noting late).queues = other.queues := by cases late <;> rfl
  have quiet : (world.noting early).history.filterMap (Event.flatten heard plan.queue) =
      world.history.filterMap (Event.flatten heard plan.queue) := by
    cases early with
    | none => rfl
    | some event =>
      obtain ⟨named, none⟩ := own event rfl
      exact List.filterMap_cons_none ((Event.flattenOwn named).trans none)
  have still : ((other.noting late).history.filterMap fun event =>
        (event.recode Prod.fst).flatten heard plan.queue) =
      other.history.filterMap fun event => (event.recode Prod.fst).flatten heard plan.queue := by
    cases late with
    | none => rfl
    | some event =>
      obtain ⟨named, none⟩ := mine event rfl
      exact List.filterMap_cons_none
        ((Event.flattenOwn ((event.queueOfRecode _).trans named)).trans none)
  refine beside (fun id elsewhere => ?_) ?_ ?_ (quiet.trans (worlds.history.trans still.symm))
  · simp only [World.queue, first, second]
    exact worlds.shared (bondShared elsewhere)
  · simp only [World.queue, first, second]
    exact (worlds.apart bondOwn).2
  · simpa only [World.agenda, World.queue, first, second] using holds

theorem appendOwn (step : Step κ) (steps : List (Step (κ × Place)))
    (holds : fact' (world.append plan.queue step |>.agenda plan.queue)
      (world.append plan.queue step |>.log plan.queue)
      (steps.foldl Agenda.append (other.agenda plan.queue))) :
    (world.append plan.queue step).UpToNames (plan.bond heard fact')
      (steps.foldl (fun world step => world.append plan.queue step) other) := by
  have untold (entry : Entry κ) (nested : Bool) :
      (Event.appended plan.queue entry nested : Event κ ν ε).flatten heard plan.queue = none :=
    Event.flattenOwn rfl
  obtain ⟨agenda, others, history⟩ := World.appendsOwn plan.queue steps other
  obtain ⟨-, firsts, early⟩ := World.appendsOwn plan.queue [step] world
  obtain ⟨-, taken⟩ := worlds.apart bondOwn
  refine beside (fun id elsewhere => ?_) ⟨?_, ?_⟩ (agenda ▸ holds) ?_
  · rw [others id elsewhere, worlds.shared (bondShared elsewhere)]
    exact congrArg (Queue.recode _) (firsts id elsewhere).symm
  · exact (Ensemble.takenAfterAppends plan.queue plan.queue [step] world).trans taken.1
  · exact (Ensemble.takenAfterAppends plan.queue plan.queue steps other).trans taken.2
  · exact (early _ untold).trans (worlds.history.trans (history _ fun _ _ => untold _ _).symm)

end

end Inlining

end Sequencer

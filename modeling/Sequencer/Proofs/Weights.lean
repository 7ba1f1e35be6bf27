import Mathlib.Algebra.Ring.Nat
import Sequencer.Proofs.Interleaving
import Sequencer.Proofs.Log

/-! What is still to come has a weight. A step weighs itself and all the steps that its code may
append, so what waits on the queues, with what the code under way may yet append, outweighs the
steps that will be applied or told of a failure. The library never adds to it: each step it calls
takes one off. -/
namespace Sequencer

variable {κ ν ε : Type} {weight : κ → Nat}

def weigh (weight : κ → Nat) (entries : List (Entry κ)) : Nat :=
  (entries.map fun entry => weight entry.code).sum

@[simp] theorem weighNil : weigh weight [] = 0 := rfl

@[simp] theorem weighCons (entry : Entry κ) (rest : List (Entry κ)) :
    weigh weight (entry :: rest) = weight entry.code + weigh weight rest := rfl

@[simp] theorem weighAppend (first second : List (Entry κ)) :
    weigh weight (first ++ second) = weigh weight first + weigh weight second := by
  simp [weigh]

namespace Agenda

def load (weight : κ → Nat) (agenda : Agenda κ) : Nat :=
  weigh weight agenda.pending

theorem loadOfAppend (agenda : Agenda κ) (step : Step κ) :
    (agenda.append step).load weight = agenda.load weight + weight step.code := by
  unfold load pending
  cases busy : agenda.active with
  | none =>
    obtain ⟨pipeline, buffer⟩ := appendIdle busy step
    simp [pipeline, buffer, entry, Nat.add_assoc]
  | some active =>
    obtain ⟨pipeline, buffer⟩ := appendActive busy step
    simp [pipeline, buffer, entry]
    omega

theorem loadOfActivate {agenda next : Agenda κ} {index : UInt32} {entry : Entry κ}
    (taken : agenda.activate index = some (entry, next)) :
    agenda.load weight = weight entry.code + next.load weight := by
  obtain ⟨pipeline, buffer, -, -⟩ := activateSome taken
  simp only [load, pending, pipeline, buffer, weighAppend, weighCons]
  omega

theorem loadOfSettle (agenda : Agenda κ) : agenda.settle.load weight = agenda.load weight := by
  obtain ⟨pipeline, buffer⟩ := settled agenda
  simp [load, pending, pipeline, buffer]

theorem loadOfRemaining (weight : κ → Nat) (agenda : Agenda κ) :
    weigh weight agenda.takeRemaining.1 = agenda.load weight ∧
      agenda.takeRemaining.2.load weight = 0 := by
  obtain ⟨pipeline, buffer⟩ := settled agenda
  refine ⟨by simp only [takeRemaining, pipeline, load], ?_⟩
  change weigh weight (agenda.settle.buffer ++ (Lane.empty : Lane (Entry κ)).toList) = 0
  rw [buffer, Lane.listOfEmpty]
  rfl

end Agenda

theorem Queue.sumOfAdjust (f : Queue κ → Queue κ) (size : Queue κ → Nat) (blank : size {} = 0)
    (queues : List (Queue κ)) (n : Nat) :
    ((adjust f queues n).map size).sum + size (queues[n]?.getD {}) =
      (queues.map size).sum + size (f (queues[n]?.getD {})) := by
  induction queues, n using adjust.induct with
  | case1 => simp [adjust, blank]
  | case2 n ih => simpa [adjust, blank] using ih
  | case3 queue rest => simp [adjust]; omega
  | case4 queue rest n ih =>
    simp only [adjust, List.map_cons, List.sum_cons, List.getElem?_cons_succ] at ih ⊢
    omega

def Event.performs : Event κ ν ε → Bool
  | .applied _ _ _ _ _ | .notified _ _ _ _ => true
  | _ => false

namespace World

def load (weight : κ → Nat) (world : World κ ν ε) : Nat :=
  (world.queues.map fun queue => queue.agenda.load weight).sum

def performed (world : World κ ν ε) : Nat :=
  world.history.countP Event.performs

variable (world : World κ ν ε)

theorem loadOfSet (weight : κ → Nat) (id : QueueId) (agenda : Agenda κ) :
    (world.setAgenda id agenda).load weight + (world.agenda id).load weight =
      world.load weight + agenda.load weight :=
  Queue.sumOfAdjust (fun queue => { queue with agenda }) (fun queue => queue.agenda.load weight)
    rfl world.queues id

@[simp] theorem loadOfRecord (event : Event κ ν ε) :
    (world.record event).load weight = world.load weight := rfl

@[simp] theorem loadOfTake (id : QueueId) : (world.take id).load weight = world.load weight := by
  have same := Queue.sumOfAdjust (fun queue : Queue κ => { queue with taken := true })
    (fun queue => queue.agenda.load weight) rfl world.queues id
  exact Nat.add_right_cancel same

@[simp] theorem loadOfAppend (id : QueueId) (step : Step κ) :
    (world.append id step).load weight = world.load weight + weight step.code := by
  have same := world.loadOfSet weight id ((world.agenda id).append step)
  rw [Agenda.loadOfAppend] at same
  change (world.setAgenda id _).load weight = _
  omega

@[simp] theorem loadOfSettle (id : QueueId) :
    (world.settle id).load weight = world.load weight := by
  have same := world.loadOfSet weight id (world.agenda id).settle
  rw [Agenda.loadOfSettle] at same
  exact Nat.add_right_cancel same

@[simp] theorem performedOfSet (id : QueueId) (agenda : Agenda κ) :
    (world.setAgenda id agenda).performed = world.performed := rfl

@[simp] theorem performedOfSettle (id : QueueId) :
    (world.settle id).performed = world.performed := rfl

@[simp] theorem performedOfTake (id : QueueId) : (world.take id).performed = world.performed := rfl

@[simp] theorem performedOfRecord (event : Event κ ν ε) :
    (world.record event).performed = world.performed + if event.performs then 1 else 0 := by
  simp [performed, record, List.countP_cons]

@[simp] theorem performedOfAppend (id : QueueId) (step : Step κ) :
    (world.append id step).performed = world.performed := by
  simp [append, Event.performs]

end World

/- Whatever it is answered, the code appends steps of at most this weight, and what remains of the
weight and its answer are as they should be. -/
def Program.Within (weight : κ → Nat) (due : Nat → β → Prop) : Program κ ν ε β → Nat → Prop
  | .done answer, left => due left answer
  | .fail _, _ | .panic _, _ => True
  | .append _ step next, left =>
    weight step.code ≤ left ∧ next.Within weight due (left - weight step.code)
  | .ask _ next, left => ∀ status, (next status).Within weight due left
  | .look _ next, left => ∀ snapshot, (next snapshot).Within weight due left
  | .note _ next, left | .suspend next, left => next.Within weight due left
  | .discard _ next, left => ∀ taken, (next taken).Within weight due left
  | .run _ _ next, left => ∀ result, (next result).Within weight due left

structure Behaviour.Weighed (weight : κ → Nat) (behaviour : Behaviour κ ν ε) : Prop where
  positive : ∀ code, 0 < weight code
  body : ∀ code queue value,
    (behaviour.body code queue value).Within weight (fun _ _ => True) (weight code - 1)
  call : ∀ code queue value, (behaviour.call code queue value).Within weight
    (fun left program => program.Within weight (fun _ _ => True) left) (weight code - 1)
  watch : ∀ code queue sight,
    (behaviour.watch code queue sight).Within weight (fun _ _ => True) (weight code - 1)

namespace Stage

def stepping : Stage κ ν → Bool
  | .applying _ _ _ | .calling _ _ _ | .awaiting _ _ _ | .observing _ _ _ _
  | .delivering _ _ _ _ _ _ => true
  | _ => false

def held : Stage κ ν → List (Entry κ)
  | .startingStep _ _ entry _ => [entry]
  | .delivering _ _ _ rest _ _ => rest
  | _ => []

def due (weight : κ → Nat) : (stage : Stage κ ν) → Nat → stage.Answer ε → Prop
  | .calling _ _ _ => fun left program => program.Within weight (fun _ _ => True) left
  | _ => fun _ _ => True

def rank : Stage κ ν → Nat
  | .outside => 0
  | .completingRun _ _ => 1
  | .startingStep _ _ _ _ | .completingStep _ _ (.failed _ _) => 2
  | .startingRun _ _ | .completingStep _ _ (.completed _) => 3
  | .applying _ _ _ | .awaiting _ _ _ | .observing _ _ _ _ | .delivering _ _ _ _ _ _ => 4
  | .calling _ _ _ => 5

end Stage

/- The frame holds steps and may append others of at most this weight together. The code of
recorders and of the outside is not bound by it. -/
def Frame.Within (weight : κ → Nat) (frame : Frame κ ν ε) (total : Nat) : Prop :=
  ∃ left, weigh weight frame.stage.held + left ≤ total ∧
    (frame.stage.stepping = true → frame.code.Within weight (frame.stage.due weight) left)

theorem Frame.withinUnbound (frame : Frame κ ν ε) (unbound : frame.stage.stepping = false) :
    frame.Within weight (weigh weight frame.stage.held) :=
  ⟨0, Nat.le_refl _, fun stepping => absurd stepping (by simp [unbound])⟩

/- From a world with so much more to come, of a stage at this rank, the library goes on to a world
and a turn with no more to come; if it calls code without a step of its own, the rank falls. -/
structure Turn.Pays (weight : κ → Nat) (world : World κ ν ε) (total rank : Nat)
    (after : World κ ν ε × Turn κ ν ε) : Prop where
  grown : world.performed ≤ after.1.performed
  paid : ∃ left, after.1.performed + after.1.load weight + left ≤
      world.performed + world.load weight + total ∧
    ∀ frame, after.2 = .enter frame → frame.Within weight left ∧
      (world.performed < after.1.performed ∨ frame.stage.rank < rank)

namespace Turn.Pays

variable {world next : World κ ν ε} {total more rank : Nat} {after : World κ ν ε × Turn κ ν ε}

theorem later (pays : Turn.Pays weight next total rank after)
    (performed : next.performed = world.performed)
    (load : next.load weight + total ≤ world.load weight + more) :
    Turn.Pays weight world more rank after := by
  obtain ⟨grown, left, paid, entered⟩ := pays
  rw [performed] at grown paid entered
  exact ⟨grown, left, by omega, entered⟩

theorem since (pays : Turn.Pays weight next total rank after)
    (performed : next.performed = world.performed) (load : next.load weight = world.load weight) :
    Turn.Pays weight world total rank after :=
  pays.later performed (Nat.le_of_eq (by rw [load]))

theorem ended (turn : Turn κ ν ε) (none : ∀ frame, turn ≠ .enter frame)
    (performed : next.performed = world.performed)
    (load : next.load weight ≤ world.load weight + total) :
    Turn.Pays weight world total rank (next, turn) where
  grown := performed ▸ Nat.le_refl _
  paid := ⟨0, by dsimp only; omega, fun frame entered => absurd entered (none frame)⟩

theorem asked (frame : Frame κ ν ε) (unbound : frame.stage.stepping = false)
    (less : frame.stage.rank < rank) (performed : next.performed = world.performed)
    (load : next.load weight + weigh weight frame.stage.held ≤ world.load weight + total) :
    Turn.Pays weight world total rank (next, .enter frame) where
  grown := performed ▸ Nat.le_refl _
  paid := ⟨weigh weight frame.stage.held, by dsimp only; omega, fun entered same => by
    cases same
    exact ⟨frame.withinUnbound unbound, .inr less⟩⟩

end Turn.Pays

namespace Scheduler

variable {behaviour : Behaviour κ ν ε} (world : World κ ν ε) (run : Run) {total rank : Nat}

theorem completeRunPays (verdict : Verdict ν) (less : 1 < rank) :
    Turn.Pays weight world total rank (completeRun behaviour world run verdict) :=
  .asked _ rfl less (by simp [Event.performs]) (by simp [Stage.held])

theorem proceedPays (value : ν) (less : 2 < rank) :
    Turn.Pays weight world total rank (proceed behaviour world run value) := by
  unfold proceed
  split
  · exact completeRunPays world run _ (by omega)
  · next entry agenda taken =>
    refine .asked _ rfl less (by simp [Event.performs]) ?_
    have load := world.loadOfSet weight run.queue agenda
    rw [Agenda.loadOfActivate taken] at load
    simp only [Stage.held, weighCons, weighNil, World.loadOfRecord]
    omega

theorem completeStepPays (step : Int) (info : StepInfo) (status : StepStatus)
    (verdict : Verdict ν)
    (less : (Stage.completingStep run info verdict : Stage κ ν).rank < rank) :
    Turn.Pays weight world total rank
      (completeStep behaviour world run step info status verdict) :=
  .asked _ rfl less (by simp [Event.performs]) (by simp [Stage.held])

theorem calledPays (weighed : behaviour.Weighed weight) {event : Event κ ν ε}
    (performs : event.performs = true) (code : κ) (frame : Frame κ ν ε)
    (held : weight code + weigh weight frame.stage.held ≤ total)
    (within : frame.code.Within weight (frame.stage.due weight) (weight code - 1)) :
    Turn.Pays weight world total rank (world.record event, .enter frame) where
  grown := by simp
  paid := by
    refine ⟨weigh weight frame.stage.held + (weight code - 1), ?_, ?_⟩
    · have positive := weighed.positive code
      simp only [World.performedOfRecord, performs, World.loadOfRecord, if_true]
      omega
    · rintro _ ⟨⟩
      exact ⟨⟨weight code - 1, Nat.le_refl _, fun _ => within⟩, .inl (by simp [performs])⟩

theorem applyPays (weighed : behaviour.Weighed weight) (step : Int) (value : ν) (entry : Entry κ)
    (info : StepInfo) : Turn.Pays weight world (weight entry.code) rank
      (apply behaviour world run step value entry info) := by
  unfold apply
  cases entry.kind with
  | value =>
    exact calledPays world weighed (by rfl) entry.code _ (Nat.le_refl _)
      (weighed.body entry.code run.queue value)
  | async =>
    exact calledPays world weighed (by rfl) entry.code _ (Nat.le_refl _)
      (weighed.call entry.code run.queue value)
  | observer =>
    exact calledPays world weighed (by rfl) entry.code _ (Nat.le_refl _)
      (weighed.watch entry.code run.queue (.ok value))

theorem deliveredPays (delivery : Delivery) (dropped : Nat)
    (less : 2 < rank ∨ delivery.culprit = none ∧ 1 < rank) :
    Turn.Pays weight world total rank (delivered behaviour world run delivery dropped) := by
  unfold delivered
  dsimp only
  split
  · next culprit =>
    refine (completeStepPays (world.record _) run _ _ _ _ ?_).since (by simp [Event.performs]) rfl
    exact less.resolve_right fun none => by simp [culprit] at none
  · exact (completeRunPays (world.record _) run _ (by omega)).since (by simp [Event.performs]) rfl

theorem deliverPays (weighed : behaviour.Weighed weight) (delivery : Delivery)
    (rest : List (Entry κ)) (index : UInt32) (dropped : Nat)
    (less : 2 < rank ∨ delivery.culprit = none ∧ 1 < rank) :
    Turn.Pays weight world (weigh weight rest) rank
      (deliver behaviour world run delivery rest index dropped) := by
  induction rest generalizing index dropped with
  | nil => exact deliveredPays world run delivery dropped less
  | cons entry rest ih =>
    unfold deliver
    split
    · exact calledPays world weighed (by rfl) entry.code _ (Nat.le_refl _)
        (weighed.watch entry.code run.queue (.error delivery.error))
    · exact (ih (index + 1) (dropped + 1)).later rfl (by simp)

theorem withdrawPays (weighed : behaviour.Weighed weight) (delivery : Delivery) (index : UInt32)
    (less : 2 < rank ∨ delivery.culprit = none ∧ 1 < rank) :
    Turn.Pays weight world total rank (withdraw behaviour world run delivery index) := by
  have remaining := (world.agenda run.queue).loadOfRemaining weight
  have load := world.loadOfSet weight run.queue (world.agenda run.queue).takeRemaining.2
  unfold withdraw
  cases taken : (world.agenda run.queue).takeRemaining with
  | mk entries agenda =>
    rw [taken] at remaining load
    refine (deliverPays _ run weighed delivery entries index 0 less).later
      (by simp [Event.performs]) ?_
    rw [World.loadOfRecord]
    dsimp only at remaining load
    omega

theorem settlePays (weighed : behaviour.Weighed weight) (step : Int) (info : StepInfo)
    (result : Except RunError ν) (less : 3 < rank) :
    Turn.Pays weight world total rank (settle behaviour world run step info result) := by
  cases result with
  | ok value =>
    exact (completeStepPays _ _ step info _ _ less).since (by simp [Event.performs]) (by simp)
  | error error =>
    exact (withdrawPays _ _ weighed _ _ (.inl (by omega))).since (by simp [Event.performs])
      (by simp)

theorem refusePays (weighed : behaviour.Weighed weight) (info : StepInfo) (error : RunError)
    (less : 1 < rank) :
    Turn.Pays weight world total rank (refuse behaviour world run info error) :=
  (withdrawPays _ run weighed ⟨error, none⟩ _ (.inr ⟨rfl, less⟩)).since
    (by simp [Event.performs]) (by simp)

theorem stepCompletedPays (info : StepInfo) (verdict : Verdict ν) :
    Turn.Pays weight world total (Stage.completingStep run info verdict : Stage κ ν).rank
      (stepCompleted behaviour world run verdict) := by
  cases verdict with
  | completed value => exact proceedPays world run value (by simp [Stage.rank])
  | failed error dropped => exact completeRunPays world run _ (by simp [Stage.rank])

theorem runCompletedPays (verdict : Verdict ν) :
    Turn.Pays weight world total rank (runCompleted world run verdict) :=
  .ended _ (fun _ same => nomatch same) (by cases verdict <;> simp [Event.performs]) (by simp)

/-- Code that has ended leaves what it held and might have appended. The library goes on with no
more than that to come, and calls a step or comes closer to the end of the run. -/
theorem concludePays (weighed : behaviour.Weighed weight) (stage : Stage κ ν)
    (ending : Ending (stage.Answer ε)) {total : Nat}
    (within : (Frame.mk stage ending.code).Within weight total) :
    Turn.Pays weight world total stage.rank (conclude behaviour world stage ending) := by
  obtain ⟨left, bound, within⟩ := within
  cases stage with
  | outside =>
    cases ending with
    | panicked payload => exact .ended _ (fun _ same => nomatch same) rfl (Nat.le_add_right _ _)
    | _ => exact .ended _ (fun _ same => nomatch same) rfl (Nat.le_add_right _ _)
  | startingRun queue value =>
    cases ending with
    | returned id =>
      exact (proceedPays _ _ value (by simp [Stage.rank])).since (by simp [Event.performs]) rfl
    | _ => exact .ended _ (fun _ same => nomatch same) rfl (Nat.le_add_right _ _)
  | startingStep run value entry info =>
    cases ending with
    | returned step =>
      refine (applyPays world run weighed step value entry info).later rfl ?_
      simp only [Stage.held, weighCons, weighNil] at bound
      omega
    | failed failure => exact refusePays world run weighed info _ (by simp [Stage.rank])
    | panicked payload => exact .ended _ (fun _ same => nomatch same) rfl (Nat.le_add_right _ _)
  | applying run step info => exact settlePays world run weighed step info _ (by simp [Stage.rank])
  | calling run step info =>
    have settled (result : Except RunError ν) : Turn.Pays weight world total
        (Stage.calling run step info : Stage κ ν).rank
        (settle behaviour world run step info result) :=
      settlePays world run weighed step info result (by simp [Stage.rank])
    cases ending with
    | returned program =>
      refine ⟨Nat.le_refl _, left, ?_, ?_⟩
      · change world.performed + world.load weight + left ≤ _
        omega
      · rintro frame ⟨⟩
        exact ⟨⟨left, by simp [Stage.held], fun _ => within rfl⟩, .inr (by simp [Stage.rank])⟩
    | failed failure => exact settled (.error (.stepFailed info.label failure))
    | panicked payload => exact settled (.error (.stepPanicked info.label payload.message))
  | awaiting run step info => exact settlePays world run weighed step info _ (by simp [Stage.rank])
  | observing run step info value =>
    have settled (world : World κ ν ε) : Turn.Pays weight world total
        (Stage.observing run step info value : Stage κ ν).rank
        (settle behaviour world run step info (.ok value)) :=
      settlePays world run weighed step info _ (by simp [Stage.rank])
    cases ending with
    | panicked payload =>
      exact (settled _).since (by simp [Event.performs]) rfl
    | _ => exact settled world
  | delivering run delivery label rest index dropped =>
    have told (world : World κ ν ε) : Turn.Pays weight world (weigh weight rest)
        (Stage.delivering run delivery label rest index dropped : Stage κ ν).rank
        (deliver behaviour world run delivery rest index dropped) :=
      deliverPays world run weighed delivery rest index dropped (.inl (by simp [Stage.rank]))
    have held : weigh weight rest ≤ total := by
      simp only [Stage.held] at bound
      omega
    cases ending with
    | panicked payload =>
      exact (told _).later (by simp [Event.performs]) (by simpa using held)
    | _ => exact (told world).later rfl (by simpa using held)
  | completingStep run info verdict =>
    cases ending with
    | returned answer => exact stepCompletedPays world run info verdict
    | failed failure =>
      exact (stepCompletedPays _ run info verdict).since (by simp [Event.performs]) rfl
    | panicked payload => exact .ended _ (fun _ same => nomatch same) rfl (Nat.le_add_right _ _)
  | completingRun run verdict =>
    cases ending with
    | returned answer => exact runCompletedPays world run verdict
    | failed failure =>
      exact (runCompletedPays _ run verdict).since (by simp [Event.performs]) rfl
    | panicked payload => exact .ended _ (fun _ same => nomatch same) rfl (Nat.le_add_right _ _)

end Scheduler

end Sequencer

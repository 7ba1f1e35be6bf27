import Sequencer.Proofs.Causes
import Sequencer.Proofs.Entered
import Sequencer.Proofs.Outcome

/-! What happens once a run has failed. The observers among the steps that waited at that moment are
told of the error, each once and in their order, and the recorder gets its completions after them.
That is all the code of the queue which is entered any more, whatever the observers and the recorder
do. -/
namespace Sequencer
open Standing

def deliveries (error : RunError) (waiting : List (Entry κ)) : List (Invocation κ ν) :=
  (waiting.filter fun entry => entry.isObserver).map (.observer · error)

theorem noticesInvoked (queue : QueueId) (error : RunError) (start : UInt32)
    (told : List (Entry κ)) : (notices queue error start told : Log κ ν ε).invocations =
      deliveries error told := by
  induction told using List.reverseRecOn with
  | nil => rfl
  | append_singleton told entry ih =>
    rw [noticesOfSnoc, Log.invocations, List.filterMap_append, ← Log.invocations, ih]
    cases observer : entry.isObserver <;> simp [deliveries, observer, Event.invocation?]

theorem Fall.closingInvoked (queue : QueueId) (run : Int) (index : UInt32) (fall : Fall κ ν) :
    (fall.closing queue run index : Log κ ν ε).invocations =
      (fall.completion ++ [Call.completeRun run (.failed fall.error.text fall.dropped)]).map
        Invocation.recorder := by
  obtain ⟨entry, attempt, error, remaining⟩ := fall
  rcases attempt with _ | ⟨step, input, spliced, complaint⟩
  · rfl
  · cases complaint <;> rfl

theorem Fall.blowAnswers (queue : QueueId) (index : UInt32) (fall : Fall κ ν) :
    (fall.blow queue index : Event κ ν ε).answers = true ∧
      (fall.blow queue index : Event κ ν ε).invocation? = none := by
  unfold Fall.blow
  cases fall.attempt <;> exact ⟨rfl, rfl⟩

theorem Fell.invokes {queue : QueueId} {name : String} {error : RunError} {agenda : Agenda κ}
    {log before after : Log κ ν ε} {trunk : Trunk κ ν} {fall : Fall κ ν}
    (fell : Fell queue name error agenda log trunk fall before after) :
    ∃ before after rest, log = before ++ fall.blow queue trunk.index :: after ∧
      Log.deeds before = trunk.events queue name ++ fall.lead queue trunk.run trunk.index ∧
      Log.deeds after = .withdrawn queue fall.remaining :: rest ∧
      Log.invocations after = deliveries error fall.remaining ++
        (fall.completion ++ [Call.completeRun trunk.run (.failed error.text fall.dropped)]).map
          Invocation.recorder := by
  obtain ⟨complaint, cut⟩ := fell.cut
  obtain ⟨before, after, log, lead, rest⟩ := Log.splitDeeds cut
  refine ⟨before, after, _, log, lead, rest, ?_⟩
  rw [Log.invocations, ← Log.readDeeds after _ fun _ _ _ => rfl, rest]
  have told := noticesInvoked (ν := ν) (ε := ε) queue error (trunk.index + 1) fall.remaining
  have closing := fall.closingInvoked (ε := ε) queue trunk.run trunk.index
  rw [← fell.cause] at closing
  have silent : Log.invocations (complaint.toList.map (.runUnrecorded queue) ++
      [.failed queue error fall.dropped] : Log κ ν ε) = [] := by
    cases complaint <;> rfl
  simp only [Log.invocations, List.filterMap_append] at silent told closing
  rw [List.filterMap_cons_none rfl, List.filterMap_append, List.filterMap_append,
    List.filterMap_append, silent, told, closing, List.append_nil]

theorem Log.latestInvoked {log before : Log κ ν ε} {event : Event κ ν ε}
    {invocation : Invocation κ ν} (deeds : log.deeds = before ++ [event])
    (invoked : event.invocation? = some invocation) :
    log.invocations.getLast? = some invocation := by
  rw [Log.invocations, ← log.readDeeds _ fun _ _ _ => rfl, deeds, List.filterMap_append]
  simp [invoked]

theorem Log.withdrawnNext {queue : QueueId} {pending remaining : List (Entry κ)}
    {after rest : Log κ ν ε} (within : [.withdrawn queue pending] <+: after)
    (deeds : Log.deeds after = .withdrawn queue remaining :: rest) : pending = remaining := by
  obtain ⟨more, rfl⟩ := within
  have taken : Log.deeds (.withdrawn queue pending :: more) =
    .withdrawn queue pending :: Log.deeds more := rfl
  rw [List.singleton_append, taken] at deeds
  simp only [List.cons.injEq, Event.withdrawn.injEq, true_and] at deeds
  exact deeds.1

theorem Fall.activatedByLead {queue : QueueId} {name : String} {log : Log κ ν ε}
    {trunk : Trunk κ ν} {fall : Fall κ ν}
    (deeds : log.deeds = trunk.events queue name ++ fall.lead queue trunk.run trunk.index) :
    log.activated = trunk.entries ++ [fall.entry] := by
  have lead : (fall.lead queue trunk.run trunk.index : Log κ ν ε).activated = [fall.entry] := by
    unfold Fall.lead
    cases fall.attempt <;> rfl
  have trunks : (trunk.events queue name : Log κ ν ε).activated = trunk.entries :=
    congrArg Reading.activated (trunk.read queue name)
  rw [Log.activated, ← log.readDeeds Event.activation? fun _ _ _ => rfl, deeds,
    List.filterMap_append, ← trunks, ← lead]

namespace Ensemble

variable {behaviour : Behaviour κ ν ε} {queue : QueueId} {error : RunError} {s r t : Ensemble κ ν ε}

/- The code that makes a run fail ends here: it is the step's own, or what the recorder does at its
start. The list has the completion that is due for the step. -/
inductive Fails (behaviour : Behaviour κ ν ε) (a : Ensemble κ ν ε) (run : Run) (entry : Entry κ) :
    RunError → List Call → Prop where
  | applied {stage ending step input error} (ends : a.Ends stage ending)
      (settles : Settles stage ending run step (entry.info run.index) (.error error))
      (latest : (a.world.log run.queue).invocations.getLast? = some (.step entry input))
      (remains : Remains behaviour a.world ⟨stage, ending.code⟩) :
      Fails behaviour a run entry error [.completeStep step (.failed error.text)]
  | refused {value failure}
      (ends : a.Ends (.startingStep run value entry (entry.info run.index)) (.failed failure))
      (comes : ((behaviour.recorder run.queue).startStep run.id (entry.info run.index)).Comes
        (.fail failure)) :
      Fails behaviour a run entry (.recorder failure) []

theorem settlesFinal {stage : Stage κ ν} {ending : Ending (stage.Answer ε)} {run : Run}
    {step : Int} {info : StepInfo} {result : Except RunError ν}
    (settles : Settles stage ending run step info result) :
    stage.queue? = some run.queue ∧ ¬stage.HandsOver ending := by
  refine ⟨by cases settles <;> rfl, fun handsOver => ?_⟩
  cases handsOver
  cases settles

theorem Fails.final {a : Ensemble κ ν ε} {run : Run} {entry : Entry κ} {completion : List Call}
    (fails : Fails behaviour a run entry error completion) :
    ∃ (stage : Stage κ ν) (ending : Ending (stage.Answer ε)), a.Ends stage ending ∧
      stage.queue? = some run.queue ∧ ¬stage.HandsOver ending := by
  cases fails with
  | @applied stage ending step input error ends settles latest remains =>
    exact ⟨stage, ending, ends, settlesFinal settles⟩
  | refused ends comes => exact ⟨_, _, ends, rfl, nofun⟩

theorem failsByBlow {a : Ensemble κ ν ε} (reached : Reachable behaviour a) {stage : Stage κ ν}
    {ending : Ending (stage.Answer ε)} {name : String} {trunk : Trunk κ ν} {fall : Fall κ ν}
    {behind : Log κ ν ε}
    (ends : a.Ends stage ending)
    (told : (Point.inside stage).Tells queue name (a.world.log queue).deeds)
    (answer : Answer queue stage ending (a.world.agenda queue) (fall.blow queue trunk.index) behind)
    (lead : Log.deeds (a.world.log queue) =
      trunk.events queue name ++ fall.lead queue trunk.run trunk.index)
    (accounts : (Point.inside stage).Accounts queue (a.world.agenda queue) (a.world.log queue)) :
    Fails behaviour a (trunk.asRun queue) fall.entry fall.error fall.completion ∧
      (a.world.log queue).Unbroken ∧
      behind = [.withdrawn queue (a.world.agenda queue).pending] := by
  obtain ⟨callers, present⟩ := ends
  have remains := (reached.faithful _ present).frame
  have ends : a.Ends stage ending := ⟨callers, present⟩
  cases tried : fall.attempt with
  | none =>
    simp only [Fall.blow, Fall.lead, tried, Option.toList_none, List.map_nil, List.append_nil]
      at answer lead
    have completion : fall.completion = [] := by simp [Fall.completion, tried]
    rw [completion]
    generalize fall.error = thrown at answer ⊢
    cases answer with
    | refused agenda run value entry info failure =>
      obtain ⟨mine, rfl, same, deeds⟩ := told
      obtain ⟨rfl, run⟩ := sameOpening (deeds.symm.trans lead)
      rw [run] at ends
      have comes := remains.startingStep
      rw [run] at comes
      exact ⟨.refused ends comes, accounts, rfl⟩
  | some attempt =>
    simp only [Fall.blow, Fall.lead, tried, Option.toList_some, List.map_singleton] at answer lead
    obtain ⟨run, step, settles, out⟩ := answer.ofFailed
    obtain ⟨mine, entry, input, rfl, info, deeds⟩ := toldSettles settles told
    rw [← List.append_assoc] at lead
    have latest := Log.latestInvoked deeds rfl
    obtain ⟨opened, applied⟩ := List.append_inj' (deeds.symm.trans lead) rfl
    obtain ⟨rfl, run⟩ := sameOpening opened
    rw [run] at settles
    simp only [List.cons.injEq, Event.applied.injEq, and_true, true_and] at applied
    have completion : fall.completion = [.completeStep attempt.step (.failed fall.error.text)] := by
      simp [Fall.completion, tried]
    rw [completion, ← applied.1]
    exact ⟨.applied ends settles latest remains, accountsSettles settles accounts, out⟩

theorem Returns.invokes {result : Except RunError ν} (returns : Returns behaviour queue result s r)
    (reached : Reachable behaviour s) (later : Reaches behaviour r t) {before after : Log κ ν ε}
    {event : Event κ ν ε} (log : r.world.log queue = before ++ event :: after)
    (silent : event.invocation? = none) :
    ∃ more, t.world.log queue = before ++ more ∧ Log.invocations more = Log.invocations after := by
  obtain ⟨extra, grown, none⟩ := returns.appends reached later
  refine ⟨event :: (after ++ extra), by rw [grown, log]; simp, ?_⟩
  rw [Log.invocations, List.filterMap_cons_none silent]
  exact Log.readAppended after none _ fun _ _ _ => rfl

theorem deliveriesIdle (error : RunError) (waiting : List (Entry κ)) (calls : List Call)
    (entry : Entry κ) (input : ν) :
    Invocation.step entry input ∉ deliveries error waiting ++ calls.map .recorder := by
  simp [deliveries]

/-- A failure is delivered to the observers that wait, and to no one else. Their code is entered,
and that of the recorder's completions, and no other code of the queue. -/
theorem failureDelivered (reached : Reachable behaviour s)
    (returns : Returns behaviour queue (.error error) s r)
    (admitted : ∃ run queued, .started queue run queued ∈ s.world.log queue) :
    ∃ (a : Ensemble κ ν ε) (run : Run) (earlier : List (Entry κ)) (entry : Entry κ)
      (completion : List Call) (dropped : Nat),
      Reachable behaviour a ∧ Reaches behaviour a r ∧ run.queue = queue ∧
      (a.world.log queue).activated = earlier ++ [entry] ∧
      ((entry :: (a.world.agenda queue).pending).map Entry.ticket).Nodup ∧
      Fails behaviour a run entry error completion ∧
      ∀ t, Reaches behaviour r t → ∃ after, t.world.log queue = a.world.log queue ++ after ∧
        Log.invocations after = deliveries error (a.world.agenda queue).pending ++
          (completion ++ [Call.completeRun run.id (.failed error.text dropped)]).map
            Invocation.recorder ∧
        ∀ frames, Entered behaviour queue a frames t →
          List.Forall₂ (Invocation.Enters behaviour) (Log.invocations after) frames := by
  obtain ⟨trunk, fall, before, after, fell⟩ := returns.failedAdmitted reached admitted .refl
  obtain ⟨before, after, rest, log, lead, waiting, invoked⟩ := fell.invokes
  obtain ⟨answers, uncalled⟩ := fall.blowAnswers (ε := ε) queue trunk.index
  obtain ⟨a, stage, ending, behind, arrived, onTheWay, ends, rfl, ⟨balanced, told⟩, answer,
      within⟩ := (reached.next returns.next).answered
    ((keptBalanced queue _).and (keptTold queue _)) answers log
  rw [reached.named (.single returns.next)] at told
  obtain ⟨fails, unbroken, rfl⟩ := failsByBlow arrived ends told answer lead balanced.accounts
  have activated := Fall.activatedByLead lead
  have apart := (balanced.ordered.order unbroken).apart balanced.ordered.ticketed activated
  have remaining : (a.world.agenda queue).pending = fall.remaining :=
    Log.withdrawnNext within waiting
  rw [← fell.cause] at fails
  refine ⟨a, trunk.asRun queue, trunk.entries, fall.entry, fall.completion, fall.dropped, arrived,
    onTheWay, rfl, activated, apart, fails, fun t later => ?_⟩
  obtain ⟨more, grown, invocations⟩ := returns.invokes reached later log uncalled
  rw [invoked, ← remaining] at invocations
  refine ⟨more, grown, invocations, fun frames path => ?_⟩
  obtain ⟨last, final, ended, own, settled⟩ := fails.final
  refine arrived.entersEach ended own settled path ?_ fun entry input => ?_
  · exact (congrArg Log.invocations grown).trans List.filterMap_append
  · rw [invocations]
    exact deliveriesIdle error _ _ entry input

theorem heededInvokes : ∃ name info entry value observer error step status run verdict,
    ((heeded 9).world.log 0).invocations = [.recorder (.startRun name),
      .recorder (.startStep run info), .step entry value, .observer observer error,
      .recorder (.completeStep step status), .recorder (.completeRun run verdict)] :=
  ⟨_, _, _, _, _, _, _, _, _, _, rfl⟩

theorem heededLater {before after : List (Invocation Nat Nat)} {entry : Entry Nat} {input : Nat}
    (split : ((heeded 9).world.log 0).invocations = before ++ [.step entry input] ++ after) :
    ∃ observer error step status run verdict, after = [.observer observer error,
      .recorder (.completeStep step status), .recorder (.completeRun run verdict)] := by
  obtain ⟨name, info, first, value, observer, error, step, status, run, verdict, whole⟩ :=
    heededInvokes
  refine ⟨observer, error, step, status, run, verdict, ?_⟩
  rw [whole] at split
  rcases before with _ | ⟨_, _ | ⟨_, _ | ⟨_, more⟩⟩⟩
  · simp at split
  · simp at split
  · simp only [List.cons_append, List.nil_append, List.cons.injEq] at split
    exact split.2.2.2.symm
  · simp only [List.cons_append, List.cons.injEq, List.append_assoc, List.nil_append] at split
    have among : .step entry input ∈ more ++ .step entry input :: after := by simp
    simp [← split.2.2.2] at among

theorem failureDeliveredCounting :
    Reachable heeding (heeded 8) ∧
    Returns heeding 0 (.error (.stepFailed "last" (.message "spent"))) (heeded 8) (heeded 9) ∧
    .started 0 0 3 ∈ (heeded 8).world.log 0 ∧
    ∃ (a : Ensemble Nat Nat Unit) (frames : List (Frame Nat Nat Unit)) (after : Log Nat Nat Unit),
      Reaches heeding a (heeded 9) ∧ (heeded 9).world.log 0 = a.world.log 0 ++ after ∧
      Entered heeding 0 a frames (heeded 9) ∧
      List.Forall₂ (Invocation.Enters heeding) (Log.invocations after) frames ∧
      frames.map (fun frame => frame.code.ended) = [false, false, false] := by
  obtain ⟨a, run, earlier, entry, completion, dropped, -, onTheWay, queue, -, -, fails,
    delivered⟩ := failureDelivered (heededReachable 8) heededReturns ⟨0, 3, heededAdmitted⟩
  obtain ⟨after, grown, -, entered⟩ := delivered _ .refl
  obtain ⟨frames, path⟩ := reachesEntered 0 onTheWay
  have enters := entered frames path
  refine ⟨heededReachable 8, heededReturns, heededAdmitted, a, frames, after, onTheWay, grown, path,
    enters, ?_⟩
  cases fails with
  | @applied _ _ _ input _ _ _ latest _ =>
    rw [queue] at latest
    obtain ⟨before, last⟩ := List.getLast?_eq_some_iff.mp latest
    have split : ((heeded 9).world.log 0).invocations =
        before ++ [.step entry input] ++ Log.invocations after :=
      last ▸ (congrArg Log.invocations grown).trans List.filterMap_append
    obtain ⟨observer, error, step, status, id, verdict, later⟩ := heededLater split
    rw [later] at enters
    have speaks (summons : Summons Nat Nat) (late : summons.invocation ∈
        [.observer observer error, .recorder (.completeStep step status),
          .recorder (.completeRun id verdict)]) : (summons.frame heeding).code.ended = false := by
      cases summons <;> first | rfl | simp [Summons.invocation] at late
    obtain _ | ⟨⟨told, first, rfl⟩, _ | ⟨⟨noted, second, rfl⟩, _ | ⟨⟨closed, third, rfl⟩, none⟩⟩⟩ :=
      enters
    cases none
    simp only [List.map_cons, List.map_nil, speaks told (by simp [first]),
      speaks noted (by simp [second]), speaks closed (by simp [third])]

end Ensemble

end Sequencer

import Sequencer.Proofs.FailureChannel
import Sequencer.Proofs.Independence
import Sequencer.Proofs.Outcome

/-! Error chains. A run whose code fails gives an error made of that failure and of no other, so if
it fails with the error of another run, the error of that one is the next link of its chain. However
deep the runs nest, the outermost error shows the label of every step on the way down. -/
namespace Sequencer
open Standing

theorem Failure.textWithin (message : String) (contexts : List String) :
    ((Failure.message message).within contexts).text = contexts.getLastD message := by
  induction contexts using List.reverseRecOn with
  | nil => rfl
  | append_singleton contexts text _ =>
    rw [within, List.foldl_append, List.getLastD_concat]
    rfl

theorem Failure.chainWithin (message : String) (contexts : List String) :
    ((Failure.message message).within contexts).chain = contexts.reverse ++ [message] := by
  induction contexts using List.reverseRecOn with
  | nil => rfl
  | append_singleton contexts text ih =>
    rw [within] at ih ⊢
    rw [List.foldl_append, List.reverse_append]
    exact congrArg (text :: ·) ih

inductive Stage.FailsWith : (stage : Stage κ ν) → Ending (stage.Answer ε) → RunError → Prop where
  | failed (stage run step info failure) (body : stage.body? = some (run, step, info)) :
      FailsWith stage (.failed failure) (.stepFailed info.label failure)
  | panicked (stage run step info payload) (body : stage.body? = some (run, step, info)) :
      FailsWith stage (.panicked payload) (.stepPanicked info.label payload.message)
  | unstarted (queue value failure) :
      FailsWith (.startingRun queue value) (.failed failure) (.recorder failure)
  | refused (run value entry info failure) :
      FailsWith (.startingStep run value entry info) (.failed failure) (.recorder failure)

def Event.blow? : Event κ ν ε → Option RunError
  | .settled _ _ _ (.error error) | .refused _ _ error => some error
  | _ => none

section Blows

variable {queue : QueueId} {name : String} {trunk : Trunk κ ν}

theorem Trunk.blowless (queue : QueueId) (name : String) (trunk : Trunk κ ν) :
    (trunk.events queue name : Log κ ν ε).filterMap Event.blow? = [] := by
  refine List.filterMap_eq_nil_iff.mpr fun event present => ?_
  cases Trunk.unfailed present <;> rfl

theorem Fell.blows {error : RunError} {agenda : Agenda κ} {log before after : Log κ ν ε}
    {fall : Fall κ ν} (fell : Fell queue name error agenda log trunk fall before after) :
    log.filterMap Event.blow? = [error] := by
  obtain ⟨complaint, deeds⟩ := fell.cut
  have leads : (fall.lead queue trunk.run trunk.index : Log κ ν ε).filterMap Event.blow? = [] := by
    cases tried : fall.attempt <;>
      simp [Fall.lead, tried, opening, List.filterMap_cons, Event.blow?]
  have closes :
      (fall.closing queue trunk.run trunk.index : Log κ ν ε).filterMap Event.blow? = [] := by
    unfold Fall.closing
    cases tried : fall.attempt with
    | none => rfl
    | some attempt => cases unrecorded : attempt.complaint <;> simp [unrecorded, Event.blow?]
  have told : (notices queue error (trunk.index + 1) fall.remaining :
      Log κ ν ε).filterMap Event.blow? = [] := noticesSilent (fun _ _ _ _ => rfl) _ _ _ _
  have ends : (complaint.toList.map (.runUnrecorded queue) ++ [.failed queue error fall.dropped] :
      Log κ ν ε).filterMap Event.blow? = [] := by
    cases complaint <;> rfl
  have blow : (fall.blow queue trunk.index : Event κ ν ε).blow? = some error := by
    rw [fell.cause]
    unfold Fall.blow
    cases fall.attempt <;> rfl
  rw [← Log.readDeeds log _ fun _ _ _ => rfl, deeds]
  simp only [List.filterMap_append, List.filterMap_cons, trunk.blowless, leads, closes, ends, blow,
    told, List.nil_append, List.append_nil]
  rfl

end Blows

namespace Scheduler

variable (behaviour : Behaviour κ ν ε) (world : World κ ν ε)

theorem concludeFails {stage : Stage κ ν} {ending : Ending (stage.Answer ε)} {error : RunError}
    (fails : stage.FailsWith ending error) {queue : QueueId} (own : stage.queue? = some queue) :
    conclude behaviour world stage ending = (world, .returned (.error error)) ∨
      ∃ next frame event, conclude behaviour world stage ending = (next, .enter frame) ∧
        event ∈ next.log queue ∧ event.blow? = some error := by
  have settles (run : Run) (step : Int) (info : StepInfo) (own : run.queue = queue) :
      ∃ next frame event,
        settle behaviour world run step info (.error error) = (next, .enter frame) ∧
          event ∈ next.log queue ∧ event.blow? = some error := by
    obtain ⟨next, frame, settled, -⟩ := settleFalls behaviour world error run step info
    obtain ⟨-, log⟩ := settleFails behaviour world run step info error
    rw [settled, own] at log
    have present := log.subset (List.mem_append_right _ List.mem_cons_self)
    exact ⟨next, frame, _, settled, present, rfl⟩
  cases fails with
  | failed stage run step info failure body =>
    rw [bodyFails behaviour world body]
    rw [Stage.queueOfBody body] at own
    exact .inr (settles run step info (Option.some.inj own))
  | panicked stage run step info payload body =>
    rw [bodyPanics behaviour world body]
    rw [Stage.queueOfBody body] at own
    exact .inr (settles run step info (Option.some.inj own))
  | unstarted id value failure => exact .inl rfl
  | refused run value entry info failure =>
    cases own
    have entered : ∃ next frame,
        refuse behaviour world run info (.recorder failure) = (next, .enter frame) := by
      unfold refuse
      rw [withdrawDelivers]
      obtain ⟨next, frame, delivered, -⟩ := deliverFalls behaviour _ run none _ _ _
      exact ⟨next, frame, delivered⟩
    obtain ⟨next, frame, refused⟩ := entered
    have replies : Replies run.queue world (.startingStep run value entry info) (.failed failure)
        (refuse behaviour world run info (.recorder failure)) :=
      refuseReplies behaviour value entry info failure
    rw [refused] at replies
    obtain ⟨middle, act, path⟩ := replies.acts
    have grown := followsGrow path
    cases act with
    | refuse =>
      have present := grown.subset (List.mem_append_right _ List.mem_cons_self)
      exact .inr ⟨next, frame, _, refused, present, rfl⟩
    | settle agenda log stage ending run step info value settles => cases settles
    | fail agenda log stage ending run step info error settles => cases settles

end Scheduler

namespace Ensemble

variable {behaviour : Behaviour κ ν ε} {queue : QueueId} {result : Except RunError ν}
  {a s r : Ensemble κ ν ε} {stage : Stage κ ν} {ending : Ending (stage.Answer ε)}

theorem endsOnce {point : Point κ ν} (here : s.At queue point) (ends : s.Ends stage ending)
    (own : stage.queue? = some queue) {other : Stage κ ν} {also : Ending (other.Answer ε)}
    (more : s.Ends other also) (mine : other.queue? = some queue) :
    (⟨other, also.code⟩ : Frame κ ν ε) = ⟨stage, ending.code⟩ := by
  obtain ⟨world, tasks⟩ := s
  obtain ⟨callers, present⟩ := ends
  obtain ⟨first, rest, rfl⟩ := List.append_of_mem present
  obtain ⟨-, -, before, -, behind⟩ := atOwn here own
  obtain ⟨under, among⟩ := more
  have lacks {tasks : List (Task κ ν ε)} (none : ownStages queue (tasks.flatMap Task.stages) = [])
      (present : ⟨⟨other, also.code⟩, under⟩ ∈ tasks) : False := by
    have inside : other ∈ ownStages queue (tasks.flatMap Task.stages) := by
      refine List.mem_filter.mpr ⟨List.mem_flatMap.mpr ⟨_, present, List.mem_cons_self⟩, ?_⟩
      simpa using mine
    rw [none] at inside
    cases inside
  rcases List.mem_append.mp among with early | late
  · exact (lacks before early).elim
  · rcases List.mem_cons.mp late with same | later
    · exact congrArg Task.frame same
    · exact (lacks behind later).elim

def concluded (behaviour : Behaviour κ ν ε) (world : World κ ν ε) (first rest : List (Task κ ν ε))
    (callers : List (Caller κ ν ε)) (stage : Stage κ ν) (ending : Ending (stage.Answer ε)) :
    Ensemble κ ν ε :=
  let progress := Machine.resume callers (Scheduler.conclude behaviour world stage ending)
  ⟨progress.world, first ++ progress.tasks ++ rest⟩

variable (behaviour) in
theorem concludes (world : World κ ν ε) (first rest : List (Task κ ν ε))
    (callers : List (Caller κ ν ε)) (stage : Stage κ ν) (ending : Ending (stage.Answer ε)) :
    Next behaviour ⟨world, first ++ ⟨⟨stage, ending.code⟩, callers⟩ :: rest⟩
      (concluded behaviour world first rest callers stage ending) := by
  have step : Next behaviour _ _ := .advance world first ⟨⟨stage, ending.code⟩, callers⟩ rest
  rwa [Task.on, Machine.advanceEnding] at step

theorem Reachable.waits (reached : Reachable behaviour a) (ends : a.Ends stage ending)
    (own : stage.queue? = some queue) (path : Reaches behaviour a s) :
    s.Ends stage ending ∨ s.At queue (.finished none) ∨
      ∃ world first callers rest,
        Reachable behaviour ⟨world, first ++ ⟨⟨stage, ending.code⟩, callers⟩ :: rest⟩ ∧
        Reaches behaviour (concluded behaviour world first rest callers stage ending) s := by
  induction path with
  | refl => exact .inl ends
  | @tail b c before step ih =>
    have between := reached.later before
    rcases ih with ends | lost | ⟨world, first, callers, rest, turn, later⟩
    · obtain ⟨callers, present⟩ := ends
      have kept {tasks more : List (Task κ ν ε)} {world : World κ ν ε}
          (here : ⟨⟨stage, ending.code⟩, callers⟩ ∈ tasks) (all : tasks ⊆ more) :
          (Ensemble.mk world more).Ends stage ending :=
        ⟨callers, all here⟩
      cases step with
      | outside world tasks code => exact .inl (kept present (List.subset_cons_self _ _))
      | run world tasks id initial untaken =>
        exact .inl (kept present (List.subset_cons_self _ _))
      | advance world first task rest =>
        rcases List.mem_append.mp present with early | late
        · exact .inl (kept early (by simp))
        · rcases List.mem_cons.mp late with same | later
          · subst same
            refine .inr (.inr ⟨world, first, callers, rest, between, ?_⟩)
            rw [Task.on, Machine.advanceEnding]
            exact .refl
          · exact .inl (kept later (by simp))
      | drop world first task rest =>
        rcases List.mem_append.mp present with early | late
        · exact .inl (kept early (by simp))
        · rcases List.mem_cons.mp late with same | later
          · subst same
            obtain ⟨point, here⟩ := between.somewhere queue
            obtain ⟨-, taken, before, -, behind⟩ := atOwn here own
            refine .inr (.inl ⟨?_, taken⟩)
            rw [Ensemble.stages, List.flatMap_append, ownAppend, before, behind]
            rfl
          · exact .inl (kept later (by simp))
    · exact .inr (.inl (overStays (.single step) lost rfl).1)
    · exact .inr (.inr ⟨world, first, callers, rest, turn, later.tail step⟩)

theorem Returns.blown (returns : Returns behaviour queue result s r)
    (reached : Reachable behaviour s) {event : Event κ ν ε} (present : event ∈ r.world.log queue)
    {error : RunError} (blow : event.blow? = some error) : result = .error error := by
  have among : error ∈ (r.world.log queue).filterMap Event.blow? :=
    List.mem_filterMap.mpr ⟨event, present, blow⟩
  cases result with
  | ok value =>
    obtain ⟨trunk, before, after, completed⟩ := returns.completed reached .refl
    obtain ⟨complaint, deeds⟩ := completed.deeds
    rw [← Log.readDeeds _ _ fun _ _ _ => rfl, deeds] at among
    cases complaint <;> simp [trunk.blowless, List.filterMap_cons, Event.blow?] at among
  | error thrown =>
    rcases returns.failed reached .refl with rejected | ⟨trunk, fall, before, after, fell⟩
    · rw [← Log.readDeeds _ _ fun _ _ _ => rfl, rejected.deeds] at among
      cases among
    · rw [fell.blows, List.mem_singleton] at among
      rw [among]

theorem Returns.failsWith (returns : Returns behaviour queue result s r)
    (reached : Reachable behaviour a) (ends : a.Ends stage ending)
    (own : stage.queue? = some queue) {error : RunError} (fails : stage.FailsWith ending error)
    (path : Reaches behaviour a s) : result = .error error := by
  have arrived := reached.later path
  obtain ⟨point, here⟩ := arrived.somewhere queue
  obtain ⟨-, last, final, inside, -, -⟩ := returns.response here
  have stands : ¬ s.At queue (.finished none) := by
    rintro ⟨none, -⟩
    subst inside
    cases here.1.symm.trans none
  rcases reached.waits ends own path with waiting | lost |
    ⟨world, first, callers, rest, turn, later⟩
  · obtain ⟨world, left, first, other, also, callers, rest, mine, gives⟩ := returns
    have final : Ends ⟨world, first ++ ⟨⟨other, also.code⟩, callers⟩ :: rest⟩ other also :=
      ⟨callers, by simp⟩
    have frame := endsOnce here waiting own final mine
    have advanced := Machine.advanceEnding behaviour world other also []
    rw [frame, Machine.advanceEnding, gives] at advanced
    rcases Scheduler.concludeFails behaviour world fails own with
      given | ⟨next, frame, event, entered, -⟩
    · rw [given] at advanced
      cases advanced
      rfl
    · rw [entered] at advanced
      cases advanced
  · exact (stands lost).elim
  · have step := concludes behaviour world first rest callers stage ending
    rcases Scheduler.concludeFails behaviour world fails own with
      given | ⟨next, frame, event, entered, present, blow⟩
    · have gives : Returns behaviour queue (.error error) _ _ :=
        .intro world world first stage ending callers rest own given
      obtain ⟨start, begun⟩ := turn.somewhere queue
      have finished := (gives.response begun).1
      rw [concluded, given, Machine.worldOfResume] at later
      exact (stands (overStays later finished rfl).1).elim
    · have grown := (turn.next step).grows (later.tail returns.next) queue
      rw [concluded, entered] at grown
      exact returns.blown arrived (grown.subset present) blow

theorem lastTail {α : Type} (items : List α) : items.tails.getLast? = some [] := by
  induction items with
  | nil => rfl
  | cons item rest ih => rw [List.tails, List.getLast?_cons, ih, Option.getD_some]

def headline (labels : List String) (text : String) : String :=
  labels.foldr (fun label cause => "step '" ++ label ++ "' failed: " ++ cause) text

/- Nested runs, told from the innermost one up. In that one some code failed with the error at the
bottom; in each other run a step with the next of the labels failed with the error of the run below
it. The outermost run, of the queue, has given the result, and the runs below it gave the errors. -/
inductive Nested (behaviour : Behaviour κ ν ε) : QueueId → List String → RunError →
    Except RunError ν → List RunError → Ensemble κ ν ε → Prop where
  | bottom {a s r queue result error} (stage : Stage κ ν) (ending : Ending (stage.Answer ε))
      (reached : Reachable behaviour a) (ends : a.Ends stage ending)
      (own : stage.queue? = some queue) (fails : stage.FailsWith ending error)
      (path : Reaches behaviour a s) (returns : Returns behaviour queue result s r) :
      Nested behaviour queue [] error result [] r
  | level {r a s t queue labels error inner rest result} (stage : Stage κ ν) (run : Run)
      (step : Int) (info : StepInfo)
      (below : Nested behaviour queue labels error (.error inner) rest r)
      (between : Reaches behaviour r a) (ends : a.Ends stage (.failed (.run inner)))
      (body : stage.body? = some (run, step, info)) (path : Reaches behaviour a s)
      (returns : Returns behaviour run.queue result s t) :
      Nested behaviour run.queue (info.label :: labels) error result (inner :: rest) t

namespace Nested

variable {labels : List String} {bottom : RunError} {rest : List RunError}

theorem reached (nested : Nested behaviour queue labels bottom result rest r) :
    Reachable behaviour r := by
  induction nested with
  | bottom stage ending reached ends own fails path returns =>
    exact (reached.later path).next returns.next
  | level stage run step info below between ends body path returns ih =>
    exact ((ih.later between).later path).next returns.next

theorem links (nested : Nested behaviour queue labels bottom result rest r) :
    ∃ error, result = .error error ∧
      error.step? = (labels ++ bottom.step?.toList).head? ∧
      error.text = headline labels bottom.text ∧
      rest.map RunError.text = labels.tails.tail.map (headline · bottom.text) ∧
      error.sources = rest.map RunError.text ++ bottom.sources := by
  induction nested with
  | @bottom a s r queue result error stage ending reached ends own fails path returns =>
    refine ⟨error, returns.failsWith reached ends own fails path, ?_, rfl, rfl, rfl⟩
    cases error.step? <;> rfl
  | @level r a s t queue labels error inner rest result stage run step info below between ends body
      path returns ih =>
    have failed := returns.failsWith (below.reached.later between) ends
      (Stage.queueOfBody body) (.failed stage run step info (.run inner) body) path
    obtain ⟨given, same, -, text, texts, sources⟩ := ih
    cases same
    refine ⟨_, failed, rfl, ?_, ?_, ?_⟩
    · rw [headline, List.foldr_cons, ← headline, ← text]
      rfl
    · rw [List.map_cons, text, texts]
      cases labels <;> rfl
    · exact congrArg (inner.text :: ·) sources

end Nested

/-- An error from the bottom of nested runs shows every level, and its chain has all their errors
and whatever the innermost one was made of. -/
theorem chainsKeepLevels {labels : List String} {bottom : RunError} {rest : List RunError}
    (nested : Nested behaviour queue labels bottom result rest r) :
    (∃ error, result = .error error ∧
      error.step? = (labels ++ bottom.step?.toList).head? ∧
      error.text = headline labels bottom.text ∧
      rest.map RunError.text = labels.tails.tail.map (headline · bottom.text) ∧
      error.sources = rest.map RunError.text ++ bottom.sources ∧
      (labels ≠ [] → bottom.sources = [] → error.sources.getLast? = some bottom.text)) ∧
    (∀ label message contexts, bottom =
      .stepFailed label ((Failure.message message).within contexts) →
      bottom.text = "step '" ++ label ++ "' failed: " ++ contexts.getLastD message ∧
      bottom.sources = contexts.reverse ++ [message]) ∧
    (∀ label message, bottom = .stepPanicked label message →
      bottom.text = "step '" ++ label ++ "' panicked: " ++ message ∧ bottom.sources = []) ∧
    ∀ message contexts, bottom = .recorder ((Failure.message message).within contexts) →
      bottom.text = "recorder error: " ++ contexts.getLastD message ∧
      bottom.sources = contexts.reverse ++ [message] := by
  refine ⟨?_, ?_, ?_, ?_⟩
  · obtain ⟨error, given, label, text, texts, sources⟩ := nested.links
    refine ⟨error, given, label, text, texts, sources, fun deep none => ?_⟩
    obtain ⟨label, below, rfl⟩ := List.exists_cons_of_ne_nil deep
    rw [sources, none, List.append_nil, texts, List.getLast?_map, List.tails, List.tail_cons,
      lastTail]
    rfl
  · rintro label message contexts rfl
    exact ⟨congrArg (_ ++ ·) (Failure.textWithin message contexts),
      Failure.chainWithin message contexts⟩
  · rintro label message rfl
    exact ⟨rfl, rfl⟩
  · rintro message contexts rfl
    exact ⟨congrArg (_ ++ ·) (Failure.textWithin message contexts),
      Failure.chainWithin message contexts⟩

def chaining : Behaviour Nat Nat Unit :=
  { Behaviour.countdown (.fail (.context "opening" (.message "lost"))) .silent with
    body code queue value :=
      match code with
      | 0 => .fail (.context "opening" (.message "lost"))
      | n + 1 =>
        .append (queue + 1) { kind := .value, code := n, description := some "inner" }
          (.run (queue + 1) none fun
            | some (.error error) => .fail (.run error)
            | _ => .done value) }

def chained (fuel : Nat) : Ensemble Nat Nat Unit :=
  lone chaining "chaining" [{ kind := .value, code := 1, description := some "outer" }] fuel

theorem chainedReachable (fuel : Nat) : Reachable chaining (chained fuel) :=
  loneReachable chaining _ _ _

def lost : RunError := .stepFailed "inner" (.context "opening" (.message "lost"))

theorem innerNested : Nested (ν := Nat) chaining 1 [] lost (.error lost) [] (chained 9) := by
  have started : Next chaining (chained 6) (chained 7) := .advance _ [] _ []
  have settled : Next chaining (chained 7) (chained 8) := .advance _ [] _ []
  have returns : Returns chaining 1 (.error lost) (chained 8) (chained 9) :=
    .intro (chained 8).world ((chained 8).world.record (.failed 1 lost 0)) []
      (.completingRun ⟨1, 0, 1⟩ (.failed lost 0)) (.returned ()) _ [] rfl rfl
  let info : StepInfo := ⟨"inner", "value", 0, 0⟩
  let opened : Failure := .context "opening" (.message "lost")
  have fails : Stage.FailsWith (ε := Unit) (.applying ⟨1, 0, 0⟩ 0 info : Stage Nat Nat)
      (.failed opened) lost :=
    .failed (.applying ⟨1, 0, 0⟩ 0 info) ⟨1, 0, 0⟩ 0 info opened rfl
  exact .bottom (.applying ⟨1, 0, 0⟩ 0 info) (.failed opened) (chainedReachable 6)
    ⟨_, List.mem_cons_self⟩ rfl fails (.tail (.single started) settled) returns

theorem chainsKeepLevelsChaining :
    let error := RunError.stepFailed "outer" (.run lost)
    (∃ r, Nested (ν := Nat) chaining 0 ["outer"] lost (.error error) [lost] r) ∧
      error.text = "step 'outer' failed: step 'inner' failed: opening" ∧
      error.sources = ["step 'inner' failed: opening", "opening", "lost"] := by
  intro error
  have settled : Next chaining (chained 9) (chained 10) := .advance _ [] _ []
  have told : Next chaining (chained 10) (chained 11) := .advance _ [] _ []
  have returns : Returns chaining 0 (.error error) (chained 11) (chained 12) :=
    .intro (chained 11).world ((chained 11).world.record (.failed 0 error 0)) []
      (.completingRun ⟨0, 0, 1⟩ (.failed error 0)) (.returned ()) _ [] rfl rfl
  have nested : Nested chaining 0 ["outer"] lost (.error error) [lost] (chained 12) :=
    .level (.applying ⟨0, 0, 0⟩ 0 ⟨"outer", "value", 0, 0⟩) ⟨0, 0, 0⟩ 0 ⟨"outer", "value", 0, 0⟩
      innerNested .refl ⟨_, List.mem_cons_self⟩ rfl (.tail (.single settled) told) returns
  obtain ⟨⟨_, given, -, text, texts, sources, -⟩, wrapped, -⟩ := chainsKeepLevels nested
  cases given
  obtain ⟨shown, chain⟩ := wrapped "inner" "lost" ["opening"] rfl
  refine ⟨⟨_, nested⟩, ?_, ?_⟩
  · rw [text, shown]
    rfl
  · rw [sources, texts, shown, chain]
    rfl

end Ensemble

end Sequencer

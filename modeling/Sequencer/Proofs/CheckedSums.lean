import Sequencer.Proofs.Capacity
import Sequencer.Proofs.Numbering

/-! Sums that are checked. The library adds to numbers of 32 bits where a step settles, where its
start is refused, along the steps that are told of a failure, and where a discovery is placed one
deeper than its finder. Here the machine has its sums checked for one queue that is watched: it
gives up on one that wraps. While fewer than UInt32.size steps were appended before the run of the
queue closed, it gives up on none, and every step of the machine is what it is unchecked. -/
namespace Sequencer
open Standing

namespace Checked

def up (watched queue : QueueId) (n : UInt32) : Option UInt32 :=
  if queue = watched ∧ n.toNat + 1 = UInt32.size then none else some (n + 1)

def join (agenda : Agenda κ) (entry : Entry κ) : Agenda κ :=
  let arrivals := agenda.arrivals + 1
  match agenda.active with
  | some _ => { agenda with found := agenda.found.push entry, arrivals }
  | none => { agenda with waiting := agenda.waiting.push entry, arrivals }

def append (watched : QueueId) (world : World κ ν ε) (queue : QueueId) (step : Step κ) :
    Option (World κ ν ε) := do
  let agenda := world.agenda queue
  let depth ← match agenda.active with
    | some active => up watched queue active.depth
    | none => some 0
  let entry : Entry κ := { step with depth, ticket := agenda.arrivals }
  some ((world.setAgenda queue (join agenda entry)).record
    (.appended queue entry agenda.active.isSome))

variable (behaviour : Behaviour κ ν ε) (watched : QueueId)

def deliver (world : World κ ν ε) (run : Run) (delivery : Delivery) :
    List (Entry κ) → (index : UInt32) → (dropped : Nat) → Option (World κ ν ε × Turn κ ν ε)
  | [], _, dropped => some (Scheduler.delivered behaviour world run delivery dropped)
  | entry :: rest, index, dropped => do
    let next ← up watched run.queue index
    if entry.isObserver then
      let label := entry.label index
      some (world.record (.notified run.queue entry label delivery.error),
        .enter ⟨.delivering run delivery label rest next dropped,
          behaviour.watch entry.code run.queue (.error delivery.error)⟩)
    else deliver world run delivery rest next (dropped + 1)

def withdraw (world : World κ ν ε) (run : Run) (delivery : Delivery) (index : UInt32) :
    Option (World κ ν ε × Turn κ ν ε) :=
  let (remaining, agenda) := (world.agenda run.queue).takeRemaining
  deliver behaviour watched
    ((world.setAgenda run.queue agenda).record (.withdrawn run.queue remaining)) run delivery
    remaining index 0

def settle (world : World κ ν ε) (run : Run) (step : Int) (info : StepInfo)
    (result : Except RunError ν) : Option (World κ ν ε × Turn κ ν ε) := do
  let spliced := (world.agenda run.queue).found.size
  let world := (world.settle run.queue).record (.settled run.queue info spliced result)
  let index ← up watched run.queue run.index
  let run := { run with index }
  match result with
  | .ok value =>
    some (Scheduler.completeStep behaviour world run step info (.completed spliced)
      (.completed value))
  | .error error => withdraw behaviour watched world run ⟨error, some (step, info)⟩ run.index

def refuse (world : World κ ν ε) (run : Run) (info : StepInfo) (error : RunError) :
    Option (World κ ν ε × Turn κ ν ε) := do
  let index ← up watched run.queue run.index
  withdraw behaviour watched ((world.settle run.queue).record (.refused run.queue info error)) run
    ⟨error, none⟩ index

def conclude (world : World κ ν ε) :
    (stage : Stage κ ν) → Ending (stage.Answer ε) → Option (World κ ν ε × Turn κ ν ε)
  | .startingStep run _ _ info, .failed failure =>
    refuse behaviour watched world run info (.recorder failure)
  | .applying run step info, ending =>
    settle behaviour watched world run step info (ending.result info.label)
  | .calling run step info, .failed failure =>
    settle behaviour watched world run step info (.error (.stepFailed info.label failure))
  | .calling run step info, .panicked payload =>
    settle behaviour watched world run step info (.error (.stepPanicked info.label payload.message))
  | .awaiting run step info, ending =>
    settle behaviour watched world run step info (ending.result info.label)
  | .observing run step info value, .panicked payload =>
    settle behaviour watched (world.record (.observerPanicked info.label payload)) run step info
      (.ok value)
  | .observing run step info value, _ => settle behaviour watched world run step info (.ok value)
  | .delivering run delivery label rest index dropped, .panicked payload =>
    deliver behaviour watched (world.record (.observerPanicked label payload)) run delivery rest
      index dropped
  | .delivering run delivery _ rest index dropped, _ =>
    deliver behaviour watched world run delivery rest index dropped
  | stage, ending => some (Scheduler.conclude behaviour world stage ending)

def advance (machine : Machine κ ν ε) : Option (Progress κ ν ε) :=
  let ⟨world, ⟨stage, code⟩, callers⟩ := machine
  match code with
  | .done answer =>
    (conclude behaviour watched world stage (.returned answer)).map (Machine.resume callers)
  | .fail failure =>
    (conclude behaviour watched world stage (.failed failure)).map (Machine.resume callers)
  | .panic payload =>
    (conclude behaviour watched world stage (.panicked payload)).map (Machine.resume callers)
  | .append queue step next =>
    (append watched world queue step).map fun world => .running ⟨world, ⟨stage, next⟩, callers⟩
  | _ => some (machine.advance behaviour)

variable {behaviour watched}

theorem upExact {n sum : UInt32} : up watched watched n = some sum ↔ sum.toNat = n.toNat + 1 := by
  have below := UInt32.toNat_lt_size sum
  have start := UInt32.toNat_lt_size n
  have next : (n + 1).toNat = (n.toNat + 1) % UInt32.size := UInt32.toNat_add n 1
  by_cases last : n.toNat + 1 = UInt32.size
  · rw [up, if_pos ⟨rfl, last⟩, last]
    exact ⟨nofun, fun wrapped => absurd wrapped (Nat.ne_of_lt below)⟩
  · rw [up, if_neg fun wraps => last wraps.2, Option.some.injEq, ← UInt32.toNat_inj, next,
      Nat.mod_eq_of_lt (by omega)]
    exact eq_comm

theorem upSame {queue : QueueId} {n : UInt32} (room : queue = watched → n.toNat + 1 < UInt32.size) :
    up watched queue n = some (n + 1) := by
  by_cases mine : queue = watched
  · subst mine
    refine upExact.mpr ?_
    rw [UInt32.toNat_add]
    exact Nat.mod_eq_of_lt (room rfl)
  · rw [up, if_neg fun wraps => mine wraps.1]

theorem appendSame {world : World κ ν ε} {queue : QueueId} (step : Step κ)
    (room : ∀ active, queue = watched → (world.agenda queue).active = some active →
      active.depth.toNat + 1 < UInt32.size) :
    append watched world queue step = some (world.append queue step) := by
  unfold append World.append
  cases mark : (world.agenda queue).active with
  | none => simp [join, Agenda.append, Agenda.entry, Agenda.depth, mark]
  | some active =>
    simp [join, Agenda.append, Agenda.entry, Agenda.depth, mark,
      upSame fun mine => room active mine mark]

theorem deliverSame {world : World κ ν ε} {run : Run} {delivery : Delivery}
    {rest : List (Entry κ)} {index : UInt32} (dropped : Nat)
    (room : run.queue = watched → index.toNat + rest.length < UInt32.size) :
    deliver behaviour watched world run delivery rest index dropped =
      some (Scheduler.deliver behaviour world run delivery rest index dropped) := by
  induction rest generalizing index dropped with
  | nil => rfl
  | cons entry rest ih =>
    rw [List.length_cons] at room
    have next := toNatSum index 1
    rw [UInt32.toNat_one] at next
    rw [deliver, Scheduler.deliver, upSame fun mine => by have := room mine; omega]
    simp only [Option.bind_eq_bind, Option.bind_some]
    split
    · rfl
    · exact ih (dropped + 1) fun mine => by have := room mine; omega

theorem withdrawSame {world : World κ ν ε} {run : Run} (delivery : Delivery) {index : UInt32}
    (room : run.queue = watched →
      index.toNat + (world.agenda run.queue).takeRemaining.1.length < UInt32.size) :
    withdraw behaviour watched world run delivery index =
      some (Scheduler.withdraw behaviour world run delivery index) :=
  deliverSame 0 room

theorem settledRoom {world next : World κ ν ε} {queue : QueueId} {index : UInt32}
    (same : next.agenda queue = (world.agenda queue).settle)
    (room : queue = watched → index.toNat + 1 + (world.agenda queue).len < UInt32.size) :
    queue = watched →
      (index + 1).toNat + (next.agenda queue).takeRemaining.1.length < UInt32.size := by
  intro mine
  have fits := room mine
  have sum := toNatSum index 1
  rw [UInt32.toNat_one] at sum
  rw [same, Agenda.remainingSettled, Agenda.lengthOfPending]
  omega

theorem settleSame {world : World κ ν ε} {run : Run} (step : Int) (info : StepInfo)
    (result : Except RunError ν)
    (room : run.queue = watched →
      run.index.toNat + 1 + (world.agenda run.queue).len < UInt32.size) :
    settle behaviour watched world run step info result =
      some (Scheduler.settle behaviour world run step info result) := by
  have up : up watched run.queue run.index = some (run.index + 1) :=
    upSame fun mine => by have := room mine; omega
  unfold settle
  simp only [up, Option.bind_eq_bind, Option.bind_some]
  cases result with
  | ok value => rfl
  | error error =>
    exact withdrawSame _ (settledRoom (by simp [World.settle]) room)

theorem refuseSame {world : World κ ν ε} {run : Run} (info : StepInfo) (error : RunError)
    (room : run.queue = watched →
      run.index.toNat + 1 + (world.agenda run.queue).len < UInt32.size) :
    refuse behaviour watched world run info error =
      some (Scheduler.refuse behaviour world run info error) := by
  have up : up watched run.queue run.index = some (run.index + 1) :=
    upSame fun mine => by have := room mine; omega
  unfold refuse
  simp only [up, Option.bind_eq_bind, Option.bind_some]
  exact withdrawSame _ (settledRoom (by simp [World.settle]) room)

theorem concludeSame {world : World κ ν ε} (stage : Stage κ ν) (ending : Ending (stage.Answer ε))
    (room : ∀ queue, stage.queue? = some queue → queue = watched →
      stage.reach (world.agenda queue) < UInt32.size) :
    conclude behaviour watched world stage ending =
      some (Scheduler.conclude behaviour world stage ending) := by
  cases stage with
  | startingStep run value entry info =>
    cases ending with
    | failed failure => exact refuseSame info _ (room _ rfl)
    | _ => rfl
  | applying run step info => exact settleSame step info _ (room _ rfl)
  | calling run step info =>
    cases ending with
    | returned program => rfl
    | failed failure =>
      exact settleSame step info (.error (.stepFailed info.label failure)) (room _ rfl)
    | panicked payload =>
      exact settleSame step info (.error (.stepPanicked info.label payload.message)) (room _ rfl)
  | awaiting run step info => exact settleSame step info _ (room _ rfl)
  | observing run step info value =>
    cases ending <;> exact settleSame step info (.ok value) (room _ rfl)
  | delivering run delivery label rest index dropped =>
    cases ending <;> exact deliverSame dropped (room _ rfl)
  | _ => cases ending <;> rfl

theorem advanceSame {machine : Machine κ ν ε}
    (counts : ∀ queue, machine.frame.stage.queue? = some queue → queue = watched →
      machine.frame.stage.reach (machine.world.agenda queue) < UInt32.size)
    (deepens : ∀ active, (machine.world.agenda watched).active = some active →
      active.depth.toNat + 1 < UInt32.size) :
    advance behaviour watched machine = some (machine.advance behaviour) := by
  obtain ⟨world, ⟨stage, code⟩, callers⟩ := machine
  cases code with
  | done answer =>
    exact congrArg (Option.map _) (concludeSame stage (.returned answer) counts)
  | fail failure => exact congrArg (Option.map _) (concludeSame stage (.failed failure) counts)
  | panic payload => exact congrArg (Option.map _) (concludeSame stage (.panicked payload) counts)
  | append queue step next =>
    have same : append watched world queue step = some (world.append queue step) :=
      appendSame step fun active mine => mine ▸ deepens active
    exact congrArg (Option.map _) same
  | _ => rfl

end Checked

namespace Ensemble

variable {behaviour : Behaviour κ ν ε} {s t : Ensemble κ ν ε}

/-- No sum wraps in a run to which fewer than UInt32.size steps are appended until it closes, and
the depth of a step never exceeds its index. -/
theorem sumsNeverWrap (reached : Reachable behaviour s) (later : Reaches behaviour s t)
    (queue : QueueId) (few : (t.world.log queue).early.arrivals.length < UInt32.size) :
    (∀ task ∈ s.tasks,
      Checked.advance behaviour queue (task.on s.world) =
        some ((task.on s.world).advance behaviour)) ∧
    ∀ (place : Nat) (entry : Entry κ) (info : StepInfo),
      ((s.world.log queue).filterMap Event.opened?)[place]? = some (entry, info) →
      info.index.toNat = place ∧ info.depth.toNat ≤ place := by
  obtain ⟨point, here, tallied, told, numbered⟩ :=
    reached.holds ((keptTallied queue (s.world.nameOf queue)).and (keptNumbered queue _))
  have few := Nat.lt_of_le_of_lt (Log.earlyWithin (reached.grows later queue)) few
  have started : (s.world.log queue).activated.length < UInt32.size := by
    have early := tallied.early
    rw [List.length_append] at early
    exact Nat.lt_of_le_of_lt (Nat.le_trans (Nat.le_add_right _ _) early) few
  refine ⟨fun task present => Checked.advanceSame ?_ ?_, fun place entry info opened => ?_⟩
  · rintro _ own rfl
    cases atStage here (List.mem_flatMap.mpr ⟨task, present, List.mem_cons_self⟩) own
    exact Nat.lt_of_le_of_lt (reachWithin tallied told) few
  · intro active busy
    exact Nat.lt_of_le_of_lt (tallied.active active busy) started
  · have openings : (s.world.log queue).filterMap Event.opened? = _ :=
      (Log.numberedOfDeeds numbered).opened
    rw [openings, numberedAt] at opened
    obtain ⟨_, activated, shown⟩ := Option.map_eq_some_iff.mp opened
    cases shown
    obtain ⟨below, -⟩ := List.getElem?_eq_some_iff.mp activated
    exact ⟨UInt32.toNat_ofNat_of_lt' (Nat.lt_trans below started),
      tallied.depths place entry activated⟩

theorem sumsNeverWrapNested :
    Reachable (.countdown (.done 7) .silent) nested ∧
    (nested.world.log 0).early.arrivals.length < UInt32.size ∧
    (∀ task ∈ nested.tasks,
      Checked.advance (.countdown (.done 7) .silent) 0 (task.on nested.world) =
        some ((task.on nested.world).advance (.countdown (.done 7) .silent))) ∧
    ((nested.world.log 0).filterMap Event.opened?).map (·.2.depth.toNat) = [0, 1] ∧
    ∀ (place : Nat) (entry : Entry Nat) (info : StepInfo),
      ((nested.world.log 0).filterMap Event.opened?)[place]? = some (entry, info) →
      info.index.toNat = place ∧ info.depth.toNat ≤ place := by
  have reached : Reachable (.countdown (.done 7) .silent) nested := loneReachable _ _ _ _
  have few : (nested.world.log 0).early.arrivals.length < UInt32.size := by decide +kernel
  obtain ⟨same, places⟩ := sumsNeverWrap reached .refl 0 few
  exact ⟨reached, few, same, by decide +kernel, places⟩

end Ensemble

end Sequencer

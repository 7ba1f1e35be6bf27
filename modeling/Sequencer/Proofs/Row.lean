import Sequencer.Proofs.Reached
import Sequencer.Proofs.Marks

/-! One row behind the two lanes. An agenda keeps what waits in a pipeline and a buffer, but its
steps stand in one row, with a point at which the next one joins: behind the discoveries of the
active step, and at the end of the row while no step is active. A plan keeps this row and nothing
else of the lanes. Whatever the two are asked for, one errand after the other, they answer alike,
and the agenda of every queue is reached by errands. -/
namespace Sequencer
open Standing

structure Row (κ : Type) where
  steps : List (Entry κ) := []
  point : Nat := 0
  deriving DecidableEq

def Row.join (row : Row κ) (entry : Entry κ) : Row κ where
  steps := row.steps.insertIdx row.point entry
  point := row.point + 1

inductive Errand (κ : Type) where
  | push (step : Step κ)
  | activate (index : UInt32)
  | settle
  | takeRemaining
  deriving DecidableEq

inductive Receipt (κ : Type) where
  | placed (buffered : Bool)
  | activated (head : Option (Entry κ × StepInfo))
  | settled (spliced : Nat)
  | taken (remaining : List (Entry κ))
  deriving DecidableEq

def transcript (perform : σ → Errand κ → σ × Receipt κ) (state : σ) :
    List (Errand κ) → σ × List (Receipt κ)
  | [] => (state, [])
  | errand :: rest =>
    let (next, receipt) := perform state errand
    let (last, receipts) := transcript perform next rest
    (last, receipt :: receipts)

namespace Agenda

def perform (agenda : Agenda κ) : Errand κ → Agenda κ × Receipt κ
  | .push step => (agenda.append step, .placed agenda.active.isSome)
  | .activate index =>
    match agenda.activate index with
    | none => (agenda, .activated none)
    | some (entry, next) => (next, .activated (some (entry, entry.info index)))
  | .settle => (agenda.settle, .settled agenda.found.size)
  | .takeRemaining => (agenda.takeRemaining.2, .taken agenda.takeRemaining.1)

def allows (agenda : Agenda κ) : Errand κ → Bool
  | .activate _ => agenda.active.isNone
  | _ => true

def admits (agenda : Agenda κ) : List (Errand κ) → Bool
  | [] => true
  | errand :: rest => agenda.allows errand && (agenda.perform errand).1.admits rest

def row (agenda : Agenda κ) : Row κ where
  steps := agenda.buffer ++ agenda.pipeline
  point :=
    if agenda.active.isSome then agenda.buffer.length
    else (agenda.buffer ++ agenda.pipeline).length

end Agenda

/- An agenda as one row. It counts the steps that have joined since the last activation. -/
structure Plan (κ : Type) where
  row : Row κ := {}
  active : Option Active := none
  joined : Nat := 0
  arrivals : Nat := 0
  deriving DecidableEq

namespace Plan

def entry (plan : Plan κ) (step : Step κ) : Entry κ :=
  { step with depth := (plan.active.map (·.depth + 1)).getD 0, ticket := plan.arrivals }

def perform (plan : Plan κ) : Errand κ → Plan κ × Receipt κ
  | .push step =>
    ({ plan with
        row := plan.row.join (plan.entry step)
        joined := plan.joined + 1
        arrivals := plan.arrivals + 1 },
      .placed plan.active.isSome)
  | .activate index =>
    match plan.row.steps with
    | [] => (plan, .activated none)
    | entry :: rest =>
      ({ plan with
          row := ⟨rest, 0⟩
          active := some ⟨index, entry.label index, entry.depth⟩
          joined := 0 },
        .activated (some (entry, entry.info index)))
  | .settle =>
    match plan.active with
    | none => (plan, .settled 0)
    | some _ =>
      ({ plan with row := ⟨plan.row.steps, plan.row.steps.length⟩, active := none },
        .settled plan.joined)
  | .takeRemaining => ({ plan with row := {}, active := none }, .taken plan.row.steps)

/- The plan shows the agenda as it is. Between two steps the buffer is empty; during one it holds
what has joined. -/
structure Shows (plan : Plan κ) (agenda : Agenda κ) : Prop where
  row : agenda.row = plan.row
  active : agenda.active = plan.active
  arrivals : agenda.arrivals = plan.arrivals
  idle : agenda.active = none → agenda.found = .empty
  busy : agenda.active.isSome = true → agenda.buffer.length = plan.joined

end Plan

theorem insertBehind (front back : List α) (a : α) :
    (front ++ back).insertIdx front.length a = front ++ a :: back := by
  induction front with
  | nil => exact List.insertIdx_zero
  | cons b front ih => rw [List.cons_append, List.length_cons, List.insertIdx_succ_cons, ih]; rfl

namespace Agenda

theorem rowIdle {agenda : Agenda κ} (idle : agenda.active = none) :
    agenda.row = ⟨agenda.buffer ++ agenda.pipeline, (agenda.buffer ++ agenda.pipeline).length⟩ := by
  simp only [row, idle]
  rfl

theorem rowActive {agenda : Agenda κ} {active : Active} (busy : agenda.active = some active) :
    agenda.row = ⟨agenda.buffer ++ agenda.pipeline, agenda.buffer.length⟩ := by
  simp only [row, busy]
  rfl

theorem bufferOfEmpty {agenda : Agenda κ} (empty : agenda.found = .empty) : agenda.buffer = [] :=
  congrArg Lane.toList empty

theorem rowAfterAppend {agenda : Agenda κ} (idle : agenda.active = none → agenda.found = .empty)
    (step : Step κ) : (agenda.append step).row = agenda.row.join (agenda.entry step) := by
  have active := agenda.activeAfterAppend step
  cases mark : agenda.active with
  | none =>
    obtain ⟨pipeline, buffer⟩ := Agenda.appendIdle mark step
    rw [rowIdle (active.trans mark), rowIdle mark, pipeline, buffer, bufferOfEmpty (idle mark)]
    simp [Row.join]
  | some info =>
    obtain ⟨pipeline, buffer⟩ := Agenda.appendActive mark step
    rw [rowActive (active.trans mark), rowActive mark, pipeline, buffer, Row.join, insertBehind]
    simp

theorem rowAfterSettle (agenda : Agenda κ) :
    agenda.settle.row = ⟨agenda.row.steps, agenda.row.steps.length⟩ := by
  obtain ⟨pipeline, buffer⟩ := agenda.settled
  rw [rowIdle rfl, pipeline, buffer]
  rfl

theorem settleIdle {agenda : Agenda κ} (idle : agenda.active = none)
    (empty : agenda.found = .empty) : agenda.settle = agenda := by
  have nothing : agenda.waiting.prepend [] = agenda.waiting := rfl
  unfold settle
  rw [bufferOfEmpty empty, nothing, ← empty, ← idle]

end Agenda

namespace Plan

variable {plan : Plan κ} {agenda : Agenda κ}

theorem Shows.entry (shows : plan.Shows agenda) (step : Step κ) :
    agenda.entry step = plan.entry step := by
  unfold Agenda.entry Plan.entry Agenda.depth
  rw [shows.active, shows.arrivals]
  cases plan.active <;> rfl

theorem Shows.steps (shows : plan.Shows agenda) :
    agenda.buffer ++ agenda.pipeline = plan.row.steps :=
  congrArg Row.steps shows.row

theorem Shows.push (shows : plan.Shows agenda) (step : Step κ) :
    (plan.perform (.push step)).1.Shows (agenda.append step) where
  row := by
    rw [agenda.rowAfterAppend shows.idle, shows.row, shows.entry]
    rfl
  active := (agenda.activeAfterAppend step).trans shows.active
  arrivals := by
    rw [agenda.arrivalsAfterAppend, shows.arrivals]
    rfl
  idle none := by
    rw [agenda.activeAfterAppend] at none
    simpa only [Agenda.append, none] using shows.idle none
  busy some := by
    rw [agenda.activeAfterAppend] at some
    obtain ⟨active, mark⟩ := Option.isSome_iff_exists.mp some
    rw [(Agenda.appendActive mark step).2, List.length_append, shows.busy some]
    rfl

theorem Shows.activate (shows : plan.Shows agenda) (idle : agenda.active = none) (index : UInt32) :
    (agenda.perform (.activate index)).2 = (plan.perform (.activate index)).2 ∧
      (plan.perform (.activate index)).1.Shows (agenda.perform (.activate index)).1 := by
  have steps := shows.steps
  rw [Agenda.bufferOfEmpty (shows.idle idle), List.nil_append] at steps
  simp only [Agenda.perform, perform]
  cases taken : agenda.activate index with
  | none =>
    rw [← steps, Agenda.activateNone taken]
    exact ⟨rfl, shows⟩
  | some head =>
    obtain ⟨entry, next⟩ := head
    obtain ⟨pipeline, buffer, active, arrivals⟩ := Agenda.activateSome taken
    rw [Agenda.bufferOfEmpty (shows.idle idle)] at buffer
    rw [← steps, pipeline]
    refine ⟨rfl, ?_, active, arrivals.trans shows.arrivals, ?_, fun _ => by rw [buffer]; rfl⟩
    · rw [Agenda.rowActive active, buffer]
      rfl
    · intro none
      rw [active] at none
      contradiction

theorem Shows.settle (shows : plan.Shows agenda) :
    (agenda.perform .settle).2 = (plan.perform .settle).2 ∧
      (plan.perform .settle).1.Shows agenda.settle := by
  have count : agenda.found.size = agenda.buffer.length := (Lane.lengthOfList agenda.found).symm
  simp only [Agenda.perform, perform]
  rw [← shows.active]
  cases mark : agenda.active with
  | none =>
    rw [count, Agenda.bufferOfEmpty (shows.idle mark), Agenda.settleIdle mark (shows.idle mark)]
    exact ⟨rfl, shows⟩
  | some active =>
    rw [count, shows.busy (by rw [mark]; rfl)]
    refine ⟨rfl, ?_, rfl, shows.arrivals, fun _ => rfl, nofun⟩
    rw [agenda.rowAfterSettle, shows.row]

theorem Shows.perform (shows : plan.Shows agenda) {errand : Errand κ}
    (allowed : agenda.allows errand = true) :
    (agenda.perform errand).2 = (plan.perform errand).2 ∧
      (plan.perform errand).1.Shows (agenda.perform errand).1 := by
  cases errand with
  | push step =>
    refine ⟨?_, shows.push step⟩
    simp only [Agenda.perform, Plan.perform, shows.active]
  | activate index => exact shows.activate (Option.isNone_iff_eq_none.mp allowed) index
  | settle => exact shows.settle
  | takeRemaining =>
    have taken : agenda.takeRemaining.1 = plan.row.steps := agenda.settled.1.trans shows.steps
    exact ⟨congrArg Receipt.taken taken, rfl, rfl, shows.arrivals, fun _ => rfl, nofun⟩

theorem Shows.transcript (shows : plan.Shows agenda) {errands : List (Errand κ)}
    (admitted : agenda.admits errands = true) :
    (transcript Agenda.perform agenda errands).2 = (transcript Plan.perform plan errands).2 ∧
      (transcript Plan.perform plan errands).1.Shows
        (transcript Agenda.perform agenda errands).1 := by
  induction errands generalizing plan agenda with
  | nil => exact ⟨rfl, shows⟩
  | cons errand rest ih =>
    rw [Agenda.admits, Bool.and_eq_true] at admitted
    obtain ⟨receipt, shows⟩ := shows.perform admitted.1
    obtain ⟨receipts, last⟩ := ih shows admitted.2
    unfold Sequencer.transcript
    exact ⟨by dsimp only; rw [receipt, receipts], last⟩

theorem showsEmpty : Shows ({} : Plan κ) {} where
  row := rfl
  active := rfl
  arrivals := rfl
  idle _ := rfl
  busy := nofun

end Plan

/-- From the empty agenda on, whatever is pushed, activated between two steps, settled and taken,
the agenda answers like the plan and stands like it. What is counted and shown of it are the length
and the steps of the row, in their order and with their places. -/
theorem rowRefined (errands : List (Errand κ))
    (admitted : Agenda.admits ({} : Agenda κ) errands = true) :
    let done := transcript Agenda.perform ({} : Agenda κ) errands
    let planned := transcript Plan.perform ({} : Plan κ) errands
    done.2 = planned.2 ∧ done.1.row = planned.1.row ∧ done.1.active = planned.1.active ∧
      done.1.len = planned.1.row.steps.length ∧
      (∀ name place, (done.1.snapshot name).pending[place]? =
        planned.1.row.steps[place]?.map fun entry =>
          PendingStep.mk place entry.kind entry.depth entry.description) ∧
      (done.1.active = none → done.1.settle = done.1) := by
  obtain ⟨receipts, shows⟩ := Plan.showsEmpty.transcript admitted
  refine ⟨receipts, shows.row, shows.active, ?_, fun name place => ?_,
    fun idle => Agenda.settleIdle idle (shows.idle idle)⟩
  · rw [← Agenda.lengthOfPending, ← shows.steps]
    rfl
  · rw [← shows.steps]
    simp [Agenda.snapshot, Agenda.pending, List.getElem?_zipIdx, Function.comp_def]

def twoLevels : List (Errand Nat) :=
  [.push ⟨.value, 0, none, false⟩, .push ⟨.value, 1, none, false⟩, .activate 0,
    .push ⟨.value, 2, none, false⟩, .push ⟨.value, 3, none, false⟩, .settle, .activate 1,
    .push ⟨.value, 4, none, false⟩, .push ⟨.observer, 5, none, false⟩, .settle, .settle,
    .push ⟨.value, 6, none, false⟩]

theorem rowRefinedTwoLevels :
    Agenda.admits {} twoLevels = true ∧
      (transcript Agenda.perform {} twoLevels).2 = (transcript Plan.perform {} twoLevels).2 ∧
      (transcript Agenda.perform {} twoLevels).1.row.steps.map (·.code) = [4, 5, 3, 1, 6] ∧
      (transcript Agenda.perform {} twoLevels).1.len = 5 := by
  have admitted : Agenda.admits {} twoLevels = true := by decide
  have refined := rowRefined twoLevels admitted
  have codes := congrArg (fun row => row.steps.map (·.code)) refined.2.1
  exact ⟨admitted, refined.1, codes.trans (by decide), refined.2.2.2.1.trans (by decide)⟩

namespace Agenda

def Attained (agenda : Agenda κ) : Prop :=
  ∃ errands, admits {} errands = true ∧ (transcript perform {} errands).1 = agenda

theorem transcriptNext (agenda : Agenda κ) (errands : List (Errand κ)) (errand : Errand κ) :
    (transcript perform agenda (errands ++ [errand])).1 =
      ((transcript perform agenda errands).1.perform errand).1 := by
  induction errands generalizing agenda with
  | nil => rfl
  | cons first rest ih => exact ih _

theorem admitsNext {agenda : Agenda κ} {errands : List (Errand κ)}
    (admitted : agenda.admits errands = true) {errand : Errand κ}
    (allowed : (transcript perform agenda errands).1.allows errand = true) :
    agenda.admits (errands ++ [errand]) = true := by
  induction errands generalizing agenda with
  | nil => exact Bool.and_eq_true_iff.mpr ⟨allowed, rfl⟩
  | cons first rest ih =>
    rw [admits, Bool.and_eq_true] at admitted
    rw [List.cons_append, admits, admitted.1, Bool.true_and]
    exact ih admitted.2 allowed

theorem Attained.next {agenda : Agenda κ} (attained : agenda.Attained) (errand : Errand κ)
    (allowed : agenda.allows errand = true) : (agenda.perform errand).1.Attained := by
  obtain ⟨errands, admitted, rfl⟩ := attained
  exact ⟨errands ++ [errand], admitsNext admitted allowed, transcriptNext {} errands errand⟩

end Agenda

namespace Standing

variable {queue : QueueId} {name : String}

variable (queue name) in
theorem keptAttained : Kept queue name fun a : Standing κ ν ε => Marked a ∧ a.agenda.Attained where
  start := ⟨keptMarked queue name |>.start, [], rfl, rfl⟩
  given act holds := by
    refine ⟨keptMarked queue name |>.given act holds.1, ?_⟩
    cases act with
    | append agenda log point step => exact holds.2.next (.push step) rfl
    | _ => exact holds.2
  reply act holds := by
    refine ⟨keptMarked queue name |>.reply act holds.1, ?_⟩
    cases act with
    | settle agenda => exact holds.2.next .settle rfl
    | fail agenda => exact (holds.2.next .settle rfl).next .takeRemaining rfl
    | refuse agenda => exact (holds.2.next .settle rfl).next .takeRemaining rfl
    | _ => exact holds.2
  follow act holds := by
    refine ⟨keptMarked queue name |>.follow act holds.1, ?_⟩
    cases act with
    | activate agenda log run value entry next taken =>
      have idle : agenda.active = none := holds.1.mark
      have attained := holds.2.next (.activate run.index) (by rw [Agenda.allows, idle]; rfl)
      simpa only [Agenda.perform, taken] using attained
    | _ => exact holds.2

end Standing

/-- The agenda of every queue is, at every moment, one that errands lead to. -/
theorem Ensemble.Reachable.attained {behaviour : Behaviour κ ν ε} {a : Ensemble κ ν ε}
    (reached : Reachable behaviour a) (queue : QueueId) : (a.world.agenda queue).Attained := by
  obtain ⟨point, -, -, attained⟩ := reached.holds (keptAttained queue (a.world.nameOf queue))
  exact attained

end Sequencer

import Sequencer.Proofs.Reading

/-! The places of a run. The steps that a run activates are numbered from 0 in the order in which
it activates them, and everything the log says of a step says it under its number: the start that
the recorder is asked for, the application, the end of the step and a completion that went
unrecorded. -/
namespace Sequencer

def Call.start? : Call → Option StepInfo
  | .startStep _ info => some info
  | _ => none

def Event.opened? : Event κ ν ε → Option (Entry κ × StepInfo)
  | .activated _ entry info => some (entry, info)
  | _ => none

def Event.began? : Event κ ν ε → Option (Entry κ × StepInfo)
  | .applied _ _ entry info _ => some (entry, info)
  | _ => none

def Event.opens : Event κ ν ε → Bool
  | .activated _ _ _ | .applied _ _ _ _ _ | .asked _ (.startStep _ _) => true
  | _ => false

theorem Event.openingNone {event : Event κ ν ε} (later : event.opens = false) :
    event.opened? = none ∧ event.activation? = none ∧ event.call?.bind Call.start? = none ∧
      event.began? = none := by
  cases event with
  | activated | applied => cases later
  | asked queue call => cases call <;> cases later <;> exact ⟨rfl, rfl, rfl, rfl⟩
  | _ => exact ⟨rfl, rfl, rfl, rfl⟩

def Event.info? : Event κ ν ε → Option StepInfo
  | .asked _ call => call.start?
  | .activated _ _ info | .applied _ _ _ info _ | .settled _ info _ _ | .refused _ info _
  | .stepUnrecorded _ info _ => some info
  | _ => none

def Entry.infoAt (entry : Entry κ) (place : Nat) : StepInfo := entry.info (UInt32.ofNat place)

def numbered (entries : List (Entry κ)) : List (Entry κ × StepInfo) :=
  entries.zipIdx.map fun (entry, place) => (entry, entry.infoAt place)

theorem numberedSnoc (entries : List (Entry κ)) (entry : Entry κ) :
    numbered (entries ++ [entry]) = numbered entries ++ [(entry, entry.infoAt entries.length)] := by
  simp [numbered, List.zipIdx_append]

theorem numberedAt (entries : List (Entry κ)) (place : Nat) :
    (numbered entries)[place]? = entries[place]?.map fun entry => (entry, entry.infoAt place) := by
  simp only [numbered, List.getElem?_map, List.getElem?_zipIdx, Option.map_map, Nat.zero_add]
  rfl

namespace Log

abbrev starts (log : Log κ ν ε) : List StepInfo := log.calls.filterMap Call.start?

structure Numbered (log : Log κ ν ε) : Prop where
  opened : log.filterMap Event.opened? = numbered log.activated
  starts : log.starts = (numbered log.activated).map Prod.snd
  began : log.filterMap Event.began? <+: numbered log.activated
  infos : ∀ event ∈ log, ∀ info, event.info? = some info → info ∈ log.starts

theorem openingNone {events : Log κ ν ε} (later : ∀ event ∈ events, event.opens = false) :
    events.filterMap Event.opened? = [] ∧ events.activated = [] ∧ events.starts = [] ∧
      events.filterMap Event.began? = [] := by
  have none {β : Type} (f : Event κ ν ε → Option β)
      (blind : ∀ event, event.opens = false → f event = none) : events.filterMap f = [] :=
    List.filterMap_eq_nil_iff.mpr fun event present => blind event (later event present)
  refine ⟨none _ fun _ later => (Event.openingNone later).1,
    none _ fun _ later => (Event.openingNone later).2.1, ?_,
    none _ fun _ later => (Event.openingNone later).2.2.2⟩
  rw [starts, calls, List.filterMap_filterMap]
  exact none _ fun _ later => (Event.openingNone later).2.2.1

namespace Numbered

variable {log : Log κ ν ε}

theorem more (numbered : log.Numbered) (events : Log κ ν ε)
    (later : ∀ event ∈ events, event.opens = false)
    (infos : ∀ event ∈ events, ∀ info, event.info? = some info → info ∈ log.starts) :
    Log.Numbered (log ++ events) := by
  obtain ⟨opened, activated, starts, began⟩ := openingNone later
  have same : Log.activated (log ++ events) = log.activated := log.readQuiet activated
  have shown : Log.starts (log ++ events) = log.starts := by
    simp only [Log.starts, Log.calls, List.filterMap_append] at starts ⊢
    rw [starts, List.append_nil]
  refine ⟨?_, ?_, ?_, fun event present info about => ?_⟩
  · rw [log.readQuiet opened, same, numbered.opened]
  · rw [shown, same, numbered.starts]
  · rw [log.readQuiet began, same]
    exact numbered.began
  · rw [shown]
    rcases List.mem_append.mp present with old | new
    · exact numbered.infos event old info about
    · exact infos event new info about

theorem opening (numbered : log.Numbered) (queue : QueueId) (run : Int) (entry : Entry κ)
    {index : UInt32} (place : index = UInt32.ofNat log.activated.length) :
    Log.Numbered (log ++ opening queue run entry index) := by
  obtain rfl := place
  have activated : Log.activated (log ++ Sequencer.opening queue run entry
      (UInt32.ofNat log.activated.length)) = log.activated ++ [entry] := log.activatedNext ..
  have shown : Log.starts (log ++ Sequencer.opening queue run entry
      (UInt32.ofNat log.activated.length)) =
        log.starts ++ [entry.infoAt log.activated.length] := by
    simp [Log.starts, Log.calls, Sequencer.opening, List.filterMap_cons, Event.call?, Call.start?,
      Entry.infoAt]
  refine ⟨?_, ?_, ?_, fun event present info about => ?_⟩
  · rw [activated, numberedSnoc, ← numbered.opened]
    simp [Sequencer.opening, List.filterMap_cons, Event.opened?, Entry.infoAt]
  · rw [shown, activated, numberedSnoc, List.map_append, ← numbered.starts]
    rfl
  · rw [activated, numberedSnoc, List.filterMap_append]
    refine List.IsPrefix.trans ?_ (List.prefix_append _ _)
    simpa [Sequencer.opening, List.filterMap_cons, Event.began?] using numbered.began
  · rw [shown, List.mem_append]
    rcases List.mem_append.mp present with old | new
    · exact .inl (numbered.infos event old info about)
    · simp only [Sequencer.opening, List.mem_cons, List.not_mem_nil, or_false] at new
      rcases new with rfl | rfl <;> cases about <;> exact .inr (List.mem_singleton_self _)

end Numbered

structure Level (log : Log κ ν ε) : Prop extends log.Numbered where
  whole : log.filterMap Event.began? = numbered log.activated

namespace Level

variable {log : Log κ ν ε}

theorem more (level : log.Level) (events : Log κ ν ε)
    (later : ∀ event ∈ events, event.opens = false)
    (infos : ∀ event ∈ events, ∀ info, event.info? = some info → info ∈ log.starts) :
    Log.Level (log ++ events) := by
  refine ⟨level.toNumbered.more events later infos, ?_⟩
  obtain ⟨-, activated, -, began⟩ := openingNone later
  rw [Log.activated, log.readQuiet began, log.readQuiet activated]
  exact level.whole

theorem attempt (level : log.Level) (queue : QueueId) (run step : Int) (entry : Entry κ)
    (input : ν) {index : UInt32} (place : index = UInt32.ofNat log.activated.length) :
    Log.Level (log ++ opening queue run entry index ++
      [.applied queue step entry (entry.info index) input]) := by
  have opened := level.opening queue run entry place
  obtain rfl := place
  generalize place : UInt32.ofNat log.activated.length = index at opened ⊢
  let before := log ++ Sequencer.opening queue run entry index
  have activated : Log.activated (before ++ [.applied queue step entry (entry.info index) input]) =
      Log.activated before := before.readQuiet rfl
  have starts : Log.starts (before ++ [.applied queue step entry (entry.info index) input]) =
      Log.starts before := by
    simp [Log.starts, Log.calls, Event.call?]
  have last : Log.activated before = log.activated ++ [entry] := log.activatedNext ..
  have began : List.filterMap Event.began?
      (before ++ [.applied queue step entry (entry.info index) input]) =
        numbered (Log.activated before) := by
    rw [last, numberedSnoc, ← level.whole]
    simp [before, Sequencer.opening, List.filterMap_cons, Event.began?, Entry.infoAt, place]
  have whole := began.trans (congrArg numbered activated.symm)
  refine ⟨⟨?_, ?_, ?_, fun event present info about => ?_⟩, whole⟩
  · rw [activated, ← opened.opened, List.filterMap_append]
    exact List.append_nil _
  · rw [activated, starts]
    exact opened.starts
  · exact whole ▸ List.prefix_rfl
  · rw [starts]
    rcases List.mem_append.mp present with old | new
    · exact opened.infos event old info about
    · cases List.mem_singleton.mp new
      exact opened.infos (.activated queue entry _) (by simp [Sequencer.opening]) info about

end Level

theorem levelNil : Log.Level ([] : Log κ ν ε) :=
  ⟨⟨rfl, rfl, List.prefix_rfl, fun _ among => nomatch among⟩, rfl⟩

end Log

namespace Trunk

theorem activatedOfEvents (queue : QueueId) (name : String) (trunk : Trunk κ ν) :
    (trunk.events queue name : Log κ ν ε).activated = trunk.entries :=
  congrArg Reading.activated (trunk.read queue name)

theorem placeOfIndex (queue : QueueId) (name : String) (trunk : Trunk κ ν) :
    trunk.index = UInt32.ofNat (trunk.events queue name : Log κ ν ε).activated.length := by
  rw [activatedOfEvents, entries, List.length_map]
  rfl

theorem level (queue : QueueId) (name : String) (trunk : Trunk κ ν) :
    Log.Level (trunk.events queue name : Log κ ν ε) := by
  induction trunk using byRounds with
  | admitted run queued =>
    exact Log.levelNil.more _ (by simp [Event.opens]) (by simp [Event.info?, Call.start?])
  | grown trunk round ih =>
    let info := round.entry.info trunk.index
    have attempted := ih.attempt queue trunk.run round.step round.entry round.input
      (trunk.placeOfIndex queue name)
    have shown : info ∈ Log.starts _ := attempted.infos
      (.applied queue round.step round.entry info round.input) (by simp [info]) info rfl
    have grown : (trunk.grow round).events queue name (ε := ε) =
        (trunk.events queue name ++ opening queue trunk.run round.entry trunk.index ++
          [.applied queue round.step round.entry info round.input]) ++
        (.settled queue info round.spliced (.ok round.output) ::
          .asked queue (.completeStep round.step (.completed round.spliced)) ::
          round.complaint.toList.map (.stepUnrecorded queue info)) := by
      rw [eventsOfGrow]
      simp [Round.events, info, index]
    rw [grown]
    refine attempted.more _ (by simp [Event.opens]) fun event present other about => ?_
    have same : other = info := by
      simp only [List.mem_cons, List.mem_map] at present
      rcases present with rfl | rfl | ⟨failure, -, rfl⟩ <;> cases about <;> rfl
    exact same ▸ shown

end Trunk

def Event.Winds (failing : Option StepInfo) : Event κ ν ε → Prop
  | .dropped _ _ | .asked _ (.completeStep _ _) | .asked _ (.completeRun _ _) | .runUnrecorded _ _
  | .completed _ _ _ | .failed _ _ _ => True
  | .stepUnrecorded _ info _ => some info = failing
  | _ => False

theorem Event.Winds.later {failing : Option StepInfo} {event : Event κ ν ε}
    (winds : event.Winds failing) :
    event.opens = false ∧ ∀ info, event.info? = some info → some info = failing := by
  cases event with
  | asked queue call => cases call <;> first | exact winds.elim | exact ⟨rfl, nofun⟩
  | stepUnrecorded queue info failure =>
    exact ⟨rfl, fun other about => Option.some.inj about ▸ winds⟩
  | dropped | runUnrecorded | completed | failed => exact ⟨rfl, nofun⟩
  | _ => exact winds.elim

theorem Fall.closingWinds (queue : QueueId) (run : Int) (index : UInt32) (fall : Fall κ ν) :
    ∀ event ∈ (fall.closing queue run index : Log κ ν ε),
      event.Winds (some (fall.entry.info index)) := by
  obtain ⟨entry, attempt, error, remaining⟩ := fall
  intro event present
  cases attempt with
  | none =>
    simp only [closing, List.cons_append, List.nil_append, List.mem_cons, List.not_mem_nil,
      or_false] at present
    rcases present with rfl | rfl <;> trivial
  | some attempt =>
    simp only [closing, List.cons_append, List.mem_cons, List.mem_append, List.mem_map,
      List.not_mem_nil, or_false] at present
    rcases present with rfl | rfl | ⟨complaint, -, rfl⟩ | rfl
    · trivial
    · trivial
    · rfl
    · trivial

theorem Fall.endingWinds (queue : QueueId) (run : Int) (index : UInt32) (fall : Fall κ ν)
    (complaint : Option Failure) : ∀ event ∈ fall.closing queue run index ++
      (complaint.toList.map (.runUnrecorded queue) ++ [.failed queue fall.error fall.dropped]),
      (event : Event κ ν ε).Winds (some (fall.entry.info index)) := by
  intro event present
  simp only [List.mem_append, List.mem_map, List.mem_singleton] at present
  rcases present with closing | ⟨failure, -, rfl⟩ | rfl
  · exact fall.closingWinds queue run index event closing
  · trivial
  · trivial

/- The forms that the story of a run has on its way: before its admission, a trunk, a trunk with one
more step opened or applied, or a trunk that fell. -/
inductive Tale (queue : QueueId) (name : String) : Log κ ν ε → Prop where
  | idle : Tale queue name []
  | asked : Tale queue name [.asked queue (.startRun name)]
  | steady (trunk : Trunk κ ν) (more : Log κ ν ε) (winds : ∀ event ∈ more, event.Winds none) :
      Tale queue name (trunk.events queue name ++ more)
  | opened (trunk : Trunk κ ν) (entry : Entry κ) :
      Tale queue name (trunk.events queue name ++ opening queue trunk.run entry trunk.index)
  | applied (trunk : Trunk κ ν) (entry : Entry κ) (step : Int) (input : ν) :
      Tale queue name (trunk.events queue name ++ opening queue trunk.run entry trunk.index ++
        [.applied queue step entry (entry.info trunk.index) input])
  | fallen (trunk : Trunk κ ν) (fall : Fall κ ν) (told rest : List (Entry κ)) (more : Log κ ν ε)
      (split : fall.remaining = told ++ rest)
      (winds : ∀ event ∈ more, event.Winds (some (fall.entry.info trunk.index))) :
      Tale queue name (fallen queue name trunk fall told ++ more)

theorem fallenNumbered (queue : QueueId) (name : String) (trunk : Trunk κ ν) (fall : Fall κ ν)
    (told : List (Entry κ)) (more : Log κ ν ε)
    (winds : ∀ event ∈ more, event.Winds (some (fall.entry.info trunk.index))) :
    Log.Numbered (fallen queue name trunk fall told ++ more) := by
  have place := trunk.placeOfIndex (ε := ε) queue name
  have behind : ∀ event ∈ fall.blow queue trunk.index :: .withdrawn queue fall.remaining ::
      (notices queue fall.error (trunk.index + 1) told ++ more), event.opens = false ∧
        ∀ info, event.info? = some info → info = fall.entry.info trunk.index := by
    intro event present
    simp only [List.mem_cons, List.mem_append] at present
    rcases present with rfl | rfl | notice | last
    · unfold Fall.blow
      cases fall.attempt <;> exact ⟨rfl, fun info about => (Option.some.inj about).symm⟩
    · exact ⟨rfl, nofun⟩
    · obtain ⟨entry, label, rfl⟩ := noticesTell notice
      exact ⟨rfl, nofun⟩
    · obtain ⟨opens, only⟩ := (winds event last).later
      exact ⟨opens, fun info about => Option.some.inj (only info about)⟩
  have whole : fallen queue name trunk fall told ++ more =
      (trunk.events queue name ++ fall.lead queue trunk.run trunk.index) ++
        fall.blow queue trunk.index :: .withdrawn queue fall.remaining ::
          (notices queue fall.error (trunk.index + 1) told ++ more) := by
    simp [fallen, Fall.events]
  have leads : Log.Numbered
      (trunk.events queue name ++ fall.lead queue trunk.run trunk.index : Log κ ν ε) := by
    cases tried : fall.attempt with
    | none =>
      simpa [Fall.lead, tried] using
        (trunk.level queue name).opening queue trunk.run fall.entry place
    | some attempt =>
      simpa [Fall.lead, tried] using ((trunk.level queue name).attempt queue trunk.run attempt.step
        fall.entry attempt.input place).toNumbered
  have shown : fall.entry.info trunk.index ∈
      Log.starts (trunk.events queue name ++ fall.lead queue trunk.run trunk.index : Log κ ν ε) :=
    leads.infos (.activated queue fall.entry (fall.entry.info trunk.index))
      (by simp [Fall.lead, opening]) _ rfl
  rw [whole]
  exact leads.more _ (fun event present => (behind event present).1)
    fun event present info about => (behind event present).2 info about ▸ shown

namespace Standing

variable {queue : QueueId} {name : String}

theorem Told.tale {a : Standing κ ν ε} (going : a.point ≠ .finished none)
    (told : a.Told queue name) : Tale queue name a.log.deeds := by
  obtain ⟨agenda, log, point⟩ := a
  unfold Told at told
  dsimp only at told ⊢ going
  generalize log.deeds = deeds at told ⊢
  have whole (trunk : Trunk κ ν) : Tale queue name (trunk.events queue name : Log κ ν ε) :=
    List.append_nil (trunk.events queue name : Log κ ν ε) ▸
      .steady trunk [] fun _ among => nomatch among
  have fell {run : Run} {delivery : Delivery} {rest told : List (Entry κ)} {index : UInt32}
      {dropped : Nat} {trunk : Trunk κ ν} {fall : Fall κ ν}
      (delivers : Delivers queue name deeds run
        delivery rest index dropped trunk fall told) : Tale queue name deeds := by
    rw [delivers.deeds, ← List.append_nil (fallen queue name trunk fall told)]
    exact .fallen trunk fall told rest [] delivers.split fun _ among => nomatch among
  have closed (trunk : Trunk κ ν) (fall : Fall κ ν) (more : Log κ ν ε)
      (winds : ∀ event ∈ more, event.Winds (some (fall.entry.info trunk.index))) :
      Tale queue name (fallen queue name trunk fall fall.remaining ++ more) :=
    .fallen trunk fall fall.remaining [] more (List.append_nil _).symm winds
  cases point with
  | free => exact (show deeds = [] from told) ▸ .idle
  | proceeding run value =>
    obtain ⟨trunk, -, rfl⟩ := told
    exact whole trunk
  | delivering run delivery rest index dropped =>
    obtain ⟨trunk, fall, met, delivers⟩ := told
    exact fell delivers
  | inside stage =>
    cases stage with
    | outside => exact told.elim
    | startingRun id value => exact (show deeds = _ from told) ▸ .asked
    | startingStep run value entry info =>
      obtain ⟨trunk, -, -, rfl⟩ := told
      exact .opened trunk entry
    | applying run step info | calling run step info | awaiting run step info =>
      obtain ⟨trunk, entry, input, -, rfl, rfl⟩ := told
      exact .applied trunk entry step input
    | observing run step info value =>
      obtain ⟨trunk, entry, -, rfl, rfl⟩ := told
      exact .applied trunk entry step value
    | delivering run delivery label rest index dropped =>
      obtain ⟨trunk, fall, met, delivers⟩ := told
      exact fell delivers
    | completingStep run info verdict =>
      cases verdict with
      | completed value =>
        obtain ⟨trunk, round, -, -, -, -, rfl⟩ := told
        exact whole (trunk.grow round)
      | failed error dropped =>
        obtain ⟨trunk, fall, attempt, -, -, -, -, -, rfl⟩ := told
        exact closed trunk fall _ (by simp [Event.Winds])
    | completingRun run verdict =>
      cases verdict with
      | completed value =>
        obtain ⟨trunk, -, rfl⟩ := told
        exact .steady trunk _ (by simp [Event.Winds])
      | failed error dropped =>
        obtain ⟨trunk, fall, -, -, -, rfl⟩ := told
        exact closed trunk fall _ (fall.closingWinds queue _ _)
  | finished result =>
    rcases result with _ | error | value
    · exact absurd rfl going
    · rcases told with ⟨failure, -, rfl⟩ | ⟨trunk, fall, complaint, rfl, rfl⟩
      · exact .asked
      · rw [List.append_assoc, List.append_assoc]
        exact closed trunk fall _ (fall.endingWinds queue _ _ complaint)
    · obtain ⟨trunk, complaint, rfl⟩ := told
      rw [List.append_assoc, List.append_assoc]
      refine .steady trunk _ fun event present => ?_
      simp only [List.mem_append, List.mem_map, List.mem_singleton] at present
      rcases present with rfl | ⟨failure, -, rfl⟩ | rfl <;> trivial

theorem keptByStory {fact : Log κ ν ε → Prop}
    (holds : ∀ {deeds : Log κ ν ε}, Tale queue name deeds → fact deeds) :
    Kept queue name fun a : Standing κ ν ε => a.Told queue name ∧ fact a.log.deeds where
  start := ⟨rfl, holds .idle⟩
  given act before := by
    have told := before.1.given act
    refine ⟨told, ?_⟩
    cases act with
    | append agenda log point step =>
      rw [Log.deedsAfterAppend]
      exact before.2
    | discard | leave => exact before.2
    | begin agenda log value => exact holds (told.tale (by simp))
  reply act before := by
    have told := before.1.reply act
    refine ⟨told, holds (told.tale ?_)⟩
    cases act <;> simp
  follow act before := by
    have told := before.1.follow act
    refine ⟨told, holds (told.tale ?_)⟩
    cases act <;> simp

end Standing

theorem Tale.numbered {queue : QueueId} {name : String} {deeds : Log κ ν ε}
    (tale : Tale queue name deeds) : deeds.Numbered := by
  cases tale with
  | idle => exact Log.levelNil.toNumbered
  | asked =>
    exact (Log.levelNil.more _ (by simp [Event.opens])
      (by simp [Event.info?, Call.start?])).toNumbered
  | steady trunk more winds =>
    refine (trunk.level queue name).toNumbered.more more
      (fun event present => (winds event present).later.1) fun event present info about => ?_
    cases (winds event present).later.2 info about
  | opened trunk entry =>
    exact (trunk.level queue name).opening queue trunk.run entry (trunk.placeOfIndex queue name)
  | applied trunk entry step input =>
    exact ((trunk.level queue name).attempt queue trunk.run step entry input
      (trunk.placeOfIndex queue name)).toNumbered
  | fallen trunk fall told rest more split winds =>
    exact fallenNumbered queue name trunk fall told more winds

variable (queue : QueueId) (name : String) in
theorem Standing.keptNumbered : Kept queue name
    fun a : Standing κ ν ε => a.Told queue name ∧ a.log.deeds.Numbered :=
  keptByStory fun tale => tale.numbered

theorem Log.numberedOfDeeds {log : Log κ ν ε} (numbered : log.deeds.Numbered) : log.Numbered := by
  have starts : log.deeds.starts = log.starts := by
    rw [starts, calls, readDeeds _ _ fun _ _ _ => rfl]
  obtain ⟨opened, started, began, infos⟩ := numbered
  rw [Log.activated, readDeeds log _ fun _ _ _ => rfl] at opened started began
  rw [readDeeds log _ fun _ _ _ => rfl] at opened began
  rw [starts] at started infos
  refine ⟨opened, started, began, fun event present info about => ?_⟩
  have deed : event.arrival? = none := by
    cases event with
    | appended queue entry nested => cases about
    | _ => rfl
  exact infos event (List.mem_filter.mpr ⟨present, by rw [deed]; rfl⟩) info about

end Sequencer

import Mathlib.Algebra.BigOperators.Group.List.Basic
import Mathlib.Algebra.Ring.Nat
import Sequencer.Proofs.Numbering
import Sequencer.Proofs.Parentage
import Sequencer.Proofs.Place
import Sequencer.Proofs.RecorderProtocol

/-! The forest that a recorder can draw. It is shown the depth of each step that it is asked to
start; from these depths alone it can tell which step found which, and at the end of a good run its
reckoning comes to the numbers that it was given. -/
namespace Sequencer
open Standing

/- By its depth, the step at a place was found by the nearest one before it that is one less deep.
-/
def Finds (depths : List Nat) (finder place : Nat) : Prop :=
  finder < place ∧ place < depths.length ∧ depths[place]? = depths[finder]?.map (· + 1) ∧
    ∀ between < place, finder < between → depths[place]? ≠ depths[between]?.map (· + 1)

instance (depths : List Nat) (finder place : Nat) : Decidable (Finds depths finder place) :=
  inferInstanceAs (Decidable (_ ∧ _ ∧ _ ∧ ∀ between < place, finder < between → _ ≠ _))

def finds (depths : List Nat) (finder : Nat) : Nat :=
  (List.range depths.length).countP fun place => Finds depths finder place

theorem Finds.unique {depths : List Nat} {finder other place : Nat}
    (finds : Finds depths finder place) (also : Finds depths other place) : finder = other := by
  obtain ⟨before, -, deeper, nearest⟩ := finds
  obtain ⟨earlier, -, same, closest⟩ := also
  rcases Nat.lt_trichotomy finder other with behind | equal | ahead
  · exact absurd same (nearest other earlier behind)
  · exact equal
  · exact absurd deeper (closest finder before ahead)

def StepStatus.spliced : StepStatus → Nat
  | .completed spliced => spliced
  | .failed _ => 0

section Places

variable {entries : List (Entry κ)} {entry : Entry κ} {place : Nat}

abbrev depthsOf (entries : List (Entry κ)) : List Nat := entries.map fun entry => entry.depth.toNat

theorem lineageAt (here : entries[place]? = some entry) : (lineage [] entries)[place]? =
    some (entry, (finderOf (entries.take place).reverse entry).map Entry.ticket) := by
  obtain ⟨inside, rfl⟩ := List.getElem?_eq_some_iff.mp here
  have split : entries = entries.take place ++ entries[place] :: entries.drop (place + 1) := by
    rw [List.getElem_cons_drop, List.take_append_drop]
  have length : (lineage [] (entries.take place)).length = place := by
    rw [lengthOfLineage, List.length_take, Nat.min_eq_left (Nat.le_of_lt inside)]
  conv_lhs => rw [split]
  rw [lineageAppend, List.append_nil, List.getElem?_append_right (by omega), length, Nat.sub_self,
    lineage]
  rfl

theorem finderAt {finder : Entry κ} (here : entries[place]? = some entry)
    (found : finderOf (entries.take place).reverse entry = some finder) :
    ∃ spot, Finds (depthsOf entries) spot place ∧ entries[spot]? = some finder := by
  obtain ⟨deeper, nearer, farther, split, apart⟩ := List.find?_eq_some_iff_append.mp found
  simp only [decide_eq_true_eq] at deeper
  have inside : place < entries.length := (List.getElem?_eq_some_iff.mp here).1
  have before : entries.take place = farther.reverse ++ finder :: nearer.reverse := by
    simpa using congrArg List.reverse split
  have early (spot : Nat) (low : spot < place) :
      entries[spot]? = (farther.reverse ++ finder :: nearer.reverse)[spot]? := by
    rw [← before, List.getElem?_take_of_lt low]
  have length : place = farther.length + 1 + nearer.length := by
    have := congrArg List.length before
    simp only [List.length_take, List.length_append, List.length_reverse, List.length_cons] at this
    omega
  have there : entries[farther.length]? = some finder := by
    rw [early _ (by omega), List.getElem?_append_right (by simp)]
    simp
  refine ⟨farther.length, ⟨by omega, by simpa using inside, ?_, fun between low high same => ?_⟩,
    there⟩
  · simp [here, there, deeper]
  · rw [List.getElem?_map, List.getElem?_map, here, early between low,
      List.getElem?_append_right (by simpa using Nat.le_of_lt high)] at same
    obtain ⟨gap, rfl⟩ := Nat.exists_eq_add_of_lt high
    have inner : farther.length + gap + 1 - farther.reverse.length = gap + 1 := by
      simp
      omega
    rw [inner, List.getElem?_cons_succ] at same
    cases present : nearer.reverse[gap]? with
    | none =>
      have := List.getElem?_eq_none_iff.mp present
      simp only [List.length_reverse] at this
      omega
    | some other =>
      have among := List.mem_reverse.mp (List.mem_of_getElem? present)
      have none := apart other among
      simp only [present, Option.map_some, Option.some.injEq] at same
      simp [same] at none

theorem findsIff (distinct : (entries.map Entry.ticket).Nodup) (here : entries[place]? = some entry)
    {spot : Nat} {finder : Entry κ} (there : entries[spot]? = some finder) :
    (finderOf (entries.take place).reverse entry).map Entry.ticket = some finder.ticket ↔
      Finds (depthsOf entries) spot place := by
  constructor
  · intro told
    obtain ⟨other, found, same⟩ := Option.map_eq_some_iff.mp told
    obtain ⟨near, finds, present⟩ := finderAt here found
    have equal : (entries.map Entry.ticket)[near]? = (entries.map Entry.ticket)[spot]? := by
      simp [present, there, same]
    have inside : near < (entries.map Entry.ticket).length := by
      simpa using (List.getElem?_eq_some_iff.mp present).1
    exact (List.getElem?_inj inside distinct).mp equal ▸ finds
  · intro finds
    have inside : spot < place := finds.1
    have deeper : finder.depth.toNat + 1 = entry.depth.toNat := by
      simpa [here, there] using finds.2.2.1.symm
    have among : finder ∈ (entries.take place).reverse := by
      rw [List.mem_reverse]
      exact List.mem_of_getElem? ((List.getElem?_take_of_lt inside).trans there)
    cases found : finderOf (entries.take place).reverse entry with
    | none => simpa [deeper] using List.find?_eq_none.mp found finder among
    | some other =>
      obtain ⟨near, also, present⟩ := finderAt here found
      cases also.unique finds
      rw [Option.some.inj (present.symm.trans there)]
      rfl

theorem countByPlace {α : Type} (rows : List α) (p : α → Bool) (q : Nat → Bool)
    (same : ∀ place row, rows[place]? = some row → p row = q place) :
    rows.countP p = (List.range rows.length).countP q := by
  induction rows using List.reverseRecOn with
  | nil => rfl
  | append_singleton rows row ih =>
    have last := same rows.length row (by simp)
    have before := ih fun place other present => same place other (by
      rw [List.getElem?_append_left (List.getElem?_eq_some_iff.mp present).1, present])
    rw [List.countP_append, before, List.length_append, List.length_singleton, List.range_succ,
      List.countP_append, List.countP_singleton, List.countP_singleton, last]

theorem findingsByDepths (distinct : (entries.map Entry.ticket).Nodup) {spot : Nat}
    {finder : Entry κ} (there : entries[spot]? = some finder) :
    findings entries finder = finds (depthsOf entries) spot := by
  rw [findings, finds, countByPlace _ _ fun place => Finds (depthsOf entries) spot place,
    lengthOfLineage, List.length_map]
  intro place row present
  have inside : place < entries.length := by
    rw [← lengthOfLineage []]
    exact (List.getElem?_eq_some_iff.mp present).1
  have here := List.getElem?_eq_getElem inside
  rw [lineageAt here] at present
  cases present
  exact decide_eq_decide.mpr (findsIff distinct here there)

theorem sumOfMarks {α : Type} (items : List α) (p : α → Prop) [DecidablePred p] :
    (items.map fun item => if p item then 1 else 0).sum = items.countP fun item => p item := by
  induction items with
  | nil => rfl
  | cons item rest ih => simp [ih, List.countP_cons, Nat.add_comm]

theorem ticketsCounted {tickets : List Nat} (distinct : tickets.Nodup)
    (rows : List (Entry κ × Option Nat))
    (among : ∀ row ∈ rows, ∀ ticket, row.2 = some ticket → ticket ∈ tickets) :
    (tickets.map fun ticket => rows.countP fun row => row.2 = some ticket).sum =
      rows.countP fun row => row.2.isSome := by
  induction rows with
  | nil => simp
  | cons row rest ih =>
    rw [List.forall_mem_cons] at among
    have own : (tickets.map fun ticket => if row.2 = some ticket then 1 else 0).sum =
        if row.2.isSome then 1 else 0 := by
      cases found : row.2 with
      | none => simp
      | some ticket =>
        have once := List.count_eq_one_of_mem distinct (among.1 ticket found)
        have same : tickets.countP (fun other => ticket = other) = tickets.count ticket :=
          List.countP_congr fun other _ => by
            rw [decide_eq_true_eq, beq_iff_eq]
            exact eq_comm
        simpa [sumOfMarks, same] using once
    simp only [List.countP_cons, decide_eq_true_eq]
    rw [List.sum_map_add, ih among.2, own]

theorem Lineal.finders {queue : QueueId} {log : Log κ ν ε} (lineal : Lineal queue log entries)
    (here : entries[place]? = some entry) :
    (entry.depth = 0 → log.Found queue entry none) ∧
    (0 < entry.depth → ∃ finder parent, Finds (depthsOf entries) finder place ∧
      entries[finder]? = some parent ∧ log.Found queue entry (some parent.ticket)) := by
  have row := List.mem_of_getElem? (lineageAt here)
  have found := lineal.found _ row
  refine ⟨fun root => ?_, fun deep => ?_⟩
  · rw [rootsOfLineage row (congrArg UInt32.toNat root)] at found
    exact found
  · have deep : entry.depth.toNat ≠ 0 := Nat.ne_of_gt deep
    cases told : finderOf (entries.take place).reverse entry with
    | none => exact absurd (lineal.roots _ row (by rw [told]; rfl)) deep
    | some parent =>
      obtain ⟨finder, finds, there⟩ := finderAt here told
      rw [told] at found
      exact ⟨finder, parent, finds, there, found⟩

theorem lengthByFindings {queue : QueueId} {log : Log κ ν ε} (lineal : Lineal queue log entries)
    (distinct : (entries.map Entry.ticket).Nodup) :
    entries.length = (depthsOf entries).count 0 + (entries.map (findings entries)).sum := by
  have sum := ticketsCounted distinct (lineage [] entries) fun row present ticket found => by
    simpa using lineageTickets present found
  rw [List.map_map] at sum
  have roots : (depthsOf entries).count 0 =
      (lineage [] entries).countP fun row => row.2 = none := by
    conv_lhs => rw [← stepsOfLineage [] entries]
    rw [depthsOf, List.count_eq_countP, List.countP_map, List.countP_map]
    refine List.countP_congr fun row present => ?_
    have root := lineal.roots row present
    have unfound := rootsOfLineage present
    cases found : row.2 <;> simp_all
  have either := (lineage [] entries).length_eq_countP_add_countP fun row => row.2.isSome
  have counts : (entries.map (findings entries)).sum =
      (lineage [] entries).countP fun row => row.2.isSome := sum
  rw [lengthOfLineage] at either
  rw [roots, counts, either, Nat.add_comm]
  simp

end Places

theorem depthsOfNumbered (entries : List (Entry κ)) :
    ((numbered entries).map Prod.snd).map (fun info => info.depth.toNat) = depthsOf entries := by
  have steps : (numbered entries).map Prod.fst = entries := by
    rw [numbered, List.map_map]
    exact List.zipIdx_map_fst 0 entries
  conv_rhs => rw [← steps]
  rw [depthsOf, List.map_map, List.map_map]
  refine List.map_congr_left fun row present => ?_
  obtain ⟨⟨entry, place⟩, -, rfl⟩ := List.mem_map.mp present
  rfl

theorem findingsOfRoots (entries : List (Entry κ)) {roots : List (Entry κ)}
    (depths : ∀ root ∈ roots, root.depth = 0) :
    findings (entries ++ roots) = findings entries := by
  induction roots using List.reverseRecOn with
  | nil => rw [List.append_nil]
  | append_singleton roots root ih =>
    rw [List.forall_mem_append, List.forall_mem_singleton] at depths
    rw [← ih depths.1, ← List.append_assoc]
    exact funext (findingsOfRoot _ (by rw [depths.2]; rfl))

theorem Trunk.splices (queue : QueueId) (name : String) (trunk : Trunk κ ν) :
    (trunk.events queue name : Log κ ν ε).splices = trunk.rounds.map Round.spliced := by
  induction trunk using byRounds with
  | admitted run queued => rfl
  | grown trunk round ih =>
    rw [eventsOfGrow, Log.splices, List.filterMap_append, ← Log.splices, ih]
    obtain ⟨entry, step, input, spliced, output, complaint⟩ := round
    cases complaint <;> simp [grow, Round.events, opening, List.filterMap_cons, Event.spliced?]

theorem Trunk.infosOfExchanges (trunk : Trunk κ ν) :
    trunk.exchanges.map Exchange.info = (numbered trunk.entries).map Prod.snd := by
  simp [exchanges, numbered, entries, List.zipIdx_map, Function.comp_def, Entry.infoAt]

theorem Trunk.splicedOfExchanges (trunk : Trunk κ ν) :
    (trunk.exchanges.map fun exchange => exchange.status.spliced) =
      trunk.rounds.map Round.spliced := by
  rw [exchanges, List.map_map]
  conv_rhs => rw [← List.zipIdx_map_fst 0 trunk.rounds, List.map_map]
  rfl

theorem Trunk.exchangeAt {trunk : Trunk κ ν} {place : Nat} {exchange : Exchange}
    (present : trunk.exchanges[place]? = some exchange) :
    ∃ round, trunk.rounds[place]? = some round ∧ exchange.status = .completed round.spliced := by
  rw [exchanges, List.getElem?_map, List.getElem?_zipIdx, Option.map_map] at present
  obtain ⟨round, there, rfl⟩ := Option.map_eq_some_iff.mp present
  exact ⟨round, there, rfl⟩

theorem Trunk.tally {trunk : Trunk κ ν} (distinct : (trunk.entries.map Entry.ticket).Nodup)
    (counted : trunk.rounds.map Round.spliced = trunk.entries.map (findings trunk.entries))
    {place : Nat} {exchange : Exchange} (present : trunk.exchanges[place]? = some exchange) :
    exchange.status = .completed (finds (depthsOf trunk.entries) place) := by
  obtain ⟨round, there, status⟩ := Trunk.exchangeAt present
  have entry : trunk.entries[place]? = some round.entry := by
    rw [Trunk.entries, List.getElem?_map, there]
    rfl
  have spliced := congrArg (·[place]?) counted
  simp only [List.getElem?_map, there, entry, Option.map_some, Option.some.injEq] at spliced
  rw [status, spliced, findingsByDepths distinct entry]

theorem Trunk.total {queue : QueueId} {log : Log κ ν ε} {trunk : Trunk κ ν}
    (lineal : Lineal queue log trunk.entries) (distinct : (trunk.entries.map Entry.ticket).Nodup)
    (counted : trunk.rounds.map Round.spliced = trunk.entries.map (findings trunk.entries))
    (few : trunk.entries.length < UInt32.size) :
    trunk.index.toNat = (depthsOf trunk.entries).count 0 +
      (trunk.exchanges.map fun exchange => exchange.status.spliced).sum := by
  have all := lengthByFindings lineal distinct
  have length : trunk.rounds.length = trunk.entries.length := by rw [Trunk.entries, List.length_map]
  rw [Trunk.index, UInt32.toNat_ofNat_of_lt' (length ▸ few), length, all, ← counted,
    trunk.splicedOfExchanges]

namespace Completed

variable {queue : QueueId} {name : String} {value : ν} {agenda : Agenda κ}
  {log before after : Log κ ν ε} {trunk : Trunk κ ν}

theorem splices (completed : Completed queue name value agenda log trunk before after) :
    log.splices = trunk.rounds.map Round.spliced := by
  obtain ⟨complaint, deeds⟩ := completed.deeds
  rw [Log.splices, ← Log.readDeeds log _ fun _ _ _ => rfl, deeds, List.filterMap_append,
    List.filterMap_append, List.filterMap_append, ← Log.splices, trunk.splices]
  cases complaint <;> simp [List.filterMap_cons, Event.spliced?]

theorem unbroken (completed : Completed queue name value agenda log trunk before after) :
    log.Unbroken := by
  obtain ⟨complaint, deeds⟩ := completed.deeds
  intro id remaining present
  have deed := Log.deedPresent present rfl
  rw [deeds] at deed
  simp [Trunk.events, Round.events, opening] at deed

/- Behind a run that gave its value only roots wait, so every finding has been counted. -/
theorem counted (completed : Completed queue name value agenda log trunk before after)
    (descent : Descent queue agenda log) (idle : agenda.active = none)
    (buffer : agenda.buffer = []) :
    trunk.rounds.map Round.spliced = log.activated.map (findings log.activated) := by
  have roots : ∀ entry ∈ agenda.pending, entry.depth = 0 := by
    rw [Agenda.pending, buffer, List.nil_append]
    exact completed.closed.depth
  have found := (descent.counted completed.unbroken).found
  rw [idle, findingsOfRoots _ roots, completed.splices] at found
  simpa using found

end Completed

namespace Ensemble

variable {behaviour : Behaviour κ ν ε} {s : Ensemble κ ν ε}

/-- The depths shown at the starts tell who found whom, and the numbers given agree with them. -/
theorem startsTellFinders (reached : Reachable behaviour s) (queue : QueueId)
    (few : (s.world.log queue).arrivals.length < UInt32.size) :
    let log := s.world.log queue
    let depths := log.starts.map fun info => info.depth.toNat
    (log.arrivals.map Entry.ticket).Nodup ∧
    (∀ first ∈ depths.head?, first = 0) ∧
    depths.IsChain (fun before next => next ≤ before + 1) ∧
    (∀ place info, log.starts[place]? = some info → ∃ entry, log.activated[place]? = some entry ∧
      info = entry.infoAt place ∧ (info.depth = 0 → log.Found queue entry none) ∧
      (0 < info.depth → ∃ finder parent, Finds depths finder place ∧
        log.activated[finder]? = some parent ∧ log.Found queue entry (some parent.ticket))) ∧
    ∀ a r value, Reachable behaviour a → Returns behaviour queue (.ok value) a r →
      Reaches behaviour r s → ∃ run, ∃ exchanges : List Exchange, ∃ applied,
        log.calls = dialogue (s.world.nameOf queue) run exchanges ++
          [.completeRun run (.completed applied)] ∧
        exchanges.map Exchange.info = log.starts ∧
        (∀ (place : Nat) (exchange : Exchange), exchanges[place]? = some exchange →
          exchange.status = .completed (finds depths place)) ∧
        applied.toNat = depths.count 0 +
          (exchanges.map fun exchange => exchange.status.spliced).sum := by
  intro log depths
  obtain ⟨point, here, ⟨descended, told, numbered⟩, conserved⟩ := reached.holds
    (((keptDescended queue _).and (keptNumbered queue _)).and (keptConserved queue _))
  have ticketed := descended.balanced.ordered.ticketed
  have arrived := congrArg List.length ticketed
  rw [List.length_map, List.length_range] at arrived
  have descent := descended.descent (arrived ▸ few)
  have numbered : log.Numbered := Log.numberedOfDeeds numbered
  have starts : log.starts = (Sequencer.numbered log.activated).map Prod.snd := numbered.starts
  have same : depths = depthsOf log.activated := by
    rw [← depthsOfNumbered, ← starts]
  have distinct : (log.activated.map Entry.ticket).Nodup := by
    have both := conserved.distinct ticketed
    rw [List.map_append] at both
    exact both.of_append_left
  obtain ⟨rest, lineal, -⟩ := descent.lineal
  have lineal : Lineal queue log log.activated := lineal.take
  refine ⟨reached.ticketsDistinct queue, ?_, ?_, fun place info shown => ?_,
    fun a r value before returns later => ?_⟩
  · rw [same, List.head?_map]
    intro first head
    obtain ⟨entry, present, rfl⟩ := Option.map_eq_some_iff.mp head
    exact lineal.first entry present
  · rw [same, List.isChain_map]
    exact lineal.chain
  · rw [starts, List.getElem?_map, numberedAt, Option.map_map] at shown
    obtain ⟨entry, here, rfl⟩ := Option.map_eq_some_iff.mp shown
    exact ⟨entry, here, rfl, same ▸ lineal.finders here⟩
  · obtain ⟨trunk, earlier, after, completed⟩ := returns.completed before later
    have idle := (returns.holds before later (keptMarked queue _)).mark
    obtain ⟨activated, -, -, -, calls⟩ := completed.read
    have counted := completed.counted descent idle (descended.balanced.ordered.marked.idle idle)
    have short : log.activated.length < UInt32.size := by
      have within := Nat.lt_of_le_of_lt conserved.within few
      rw [List.length_append] at within
      exact Nat.lt_of_le_of_lt (Nat.le_add_right _ _) within
    refine ⟨trunk.run, trunk.exchanges, trunk.index, ?_, ?_, fun place exchange present => ?_, ?_⟩
    · rw [trunk.dialogueOfCalls, before.named (.head returns.next later)]
      exact calls
    · rw [starts, activated]
      exact trunk.infosOfExchanges
    · rw [activated] at distinct counted same
      rw [same]
      exact Trunk.tally distinct counted present
    · rw [activated] at lineal distinct counted short same
      rw [same]
      exact Trunk.total lineal distinct counted short

def grown : Ensemble Nat Nat Unit :=
  lone (.countdown (.done 7) .silent) "counting"
    [{ kind := .value, code := 2 }, { kind := .value, code := 1 }] 20

theorem startsTellFindersGrown :
    Reachable (.countdown (.done 7) .silent) grown ∧
    (grown.world.log 0).arrivals.length < UInt32.size ∧
    (grown.world.log 0).starts.map (fun info => info.depth.toNat) = [0, 1, 2, 0, 1] ∧
    Finds [0, 1, 2, 0, 1] 3 4 ∧
    (∃ entry, (grown.world.log 0).activated[4]? = some entry ∧
      ∃ finder parent, Finds [0, 1, 2, 0, 1] finder 4 ∧
        (grown.world.log 0).activated[finder]? = some parent ∧
        (grown.world.log 0).Found 0 entry (some parent.ticket)) ∧
    ∃ exchanges : List Exchange, exchanges.map Exchange.info = (grown.world.log 0).starts ∧
      (∀ (place : Nat) (exchange : Exchange), exchanges[place]? = some exchange →
        exchange.status = .completed (finds [0, 1, 2, 0, 1] place)) ∧
      5 = 2 + (exchanges.map fun exchange => exchange.status.spliced).sum := by
  let behaviour : Behaviour Nat Nat Unit := .countdown (.done 7) .silent
  let steps : List (Step Nat) := [{ kind := .value, code := 2 }, { kind := .value, code := 1 }]
  have before : Reachable behaviour (lone behaviour "counting" steps 19) :=
    loneReachable behaviour _ _ _
  have returns : Returns behaviour 0 (.ok 7) (lone behaviour "counting" steps 19) grown :=
    Returns.alone behaviour (.completingRun ⟨0, 0, 5⟩ (.completed 7)) (.returned ()) rfl rfl rfl
  have few : (grown.world.log 0).arrivals.length < UInt32.size := by decide +kernel
  have depths :
      (grown.world.log 0).starts.map (fun info => info.depth.toNat) = [0, 1, 2, 0, 1] := by
    decide +kernel
  obtain ⟨-, -, -, finders, ending⟩ := startsTellFinders (before.next returns.next) 0 few
  obtain ⟨run, exchanges, applied, calls, infos, statuses, total⟩ :=
    ending _ _ _ before returns .refl
  have shown : (grown.world.log 0).starts[4]? = some ⟨"value step #4", "value", 4, 1⟩ := by
    decide +kernel
  obtain ⟨entry, here, -, -, nested⟩ := finders 4 _ shown
  have five : applied = 5 := by
    have last : (grown.world.log 0).calls.getLast? = some (.completeRun 0 (.completed 5)) := by
      decide +kernel
    rw [calls, List.getLast?_concat] at last
    cases last
    rfl
  rw [depths] at nested statuses total
  rw [five] at total
  exact ⟨before.next returns.next, few, depths, by decide, ⟨entry, here, nested (by decide)⟩,
    exchanges, infos, statuses, total⟩

end Ensemble

end Sequencer

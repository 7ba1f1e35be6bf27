import Mathlib.Data.List.Chain
import Sequencer.Proofs.Balance
import Sequencer.Proofs.Depths

/-! Who found whom, told by depths alone. Take the steps in the order in which they are or would be
activated: the finder of a step is the nearest one before it that is one less deep. A discovery
comes in right behind what its finder has found so far and before steps that are no deeper than the
finder, so it takes no other step from its finder. -/
namespace Sequencer

def finderOf (earlier : List (Entry κ)) (entry : Entry κ) : Option (Entry κ) :=
  earlier.find? fun other => other.depth.toNat + 1 = entry.depth.toNat

def lineage (earlier : List (Entry κ)) : List (Entry κ) → List (Entry κ × Option Nat)
  | [] => []
  | entry :: rest =>
    (entry, (finderOf earlier entry).map Entry.ticket) :: lineage (entry :: earlier) rest

def findings (entries : List (Entry κ)) (entry : Entry κ) : Nat :=
  (lineage [] entries).countP fun row => row.2 = some entry.ticket

section Lineage

variable {earlier rest : List (Entry κ)} {entry : Entry κ}

theorem lineageAppend (earlier first second : List (Entry κ)) :
    lineage earlier (first ++ second) =
      lineage earlier first ++ lineage (first.reverse ++ earlier) second := by
  induction first generalizing earlier with
  | nil => rfl
  | cons entry rest ih => simp [lineage, ih]

theorem stepsOfLineage (earlier entries : List (Entry κ)) :
    (lineage earlier entries).map Prod.fst = entries := by
  induction entries generalizing earlier with
  | nil => rfl
  | cons entry rest ih => simp [lineage, ih]

theorem lengthOfLineage (earlier entries : List (Entry κ)) :
    (lineage earlier entries).length = entries.length := by
  rw [← List.length_map (f := Prod.fst), stepsOfLineage]

theorem finderOfRoot (earlier : List (Entry κ)) (root : entry.depth.toNat = 0) :
    finderOf earlier entry = none := by
  simp [finderOf, root]

theorem rootsOfLineage {row : Entry κ × Option Nat} {entries : List (Entry κ)}
    (present : row ∈ lineage earlier entries) (root : row.1.depth.toNat = 0) : row.2 = none := by
  induction entries generalizing earlier with
  | nil => cases present
  | cons entry rest ih =>
    rcases List.mem_cons.mp present with rfl | behind
    · rw [finderOfRoot earlier root]
      rfl
    · exact ih behind

theorem finderAmong {finder : Entry κ} (found : finderOf earlier entry = some finder) :
    finder ∈ earlier ∧ finder.depth.toNat + 1 = entry.depth.toNat :=
  ⟨List.mem_of_find?_eq_some found, by simpa using List.find?_some found⟩

theorem lineageSkip (newer : List (Entry κ))
    (apart : ∀ other ∈ rest, entry.depth.toNat + 1 ≠ other.depth.toNat) :
    lineage (newer ++ entry :: earlier) rest = lineage (newer ++ earlier) rest := by
  induction rest generalizing newer with
  | nil => rfl
  | cons other rest ih =>
    rw [List.forall_mem_cons] at apart
    have same : finderOf (newer ++ entry :: earlier) other = finderOf (newer ++ earlier) other := by
      simp [finderOf, List.find?_append, apart.1]
    rw [lineage, lineage, same, ← List.cons_append, ih (other :: newer) apart.2]
    rfl

theorem lineageInsert {active : Entry κ} {found : List (Entry κ)} (before : List (Entry κ))
    (deeper : ∀ other ∈ found, other.depth.toNat = active.depth.toNat + 1)
    (bounded : ∀ other ∈ rest, other.depth.toNat ≤ active.depth.toNat)
    (depth : entry.depth.toNat = active.depth.toNat + 1) :
    ∃ first second, lineage [] (before ++ active :: found ++ rest) = first ++ second ∧
      lineage [] (before ++ active :: found ++ entry :: rest) =
        first ++ (entry, some active.ticket) :: second := by
  let front := (before ++ active :: found).reverse
  have own : finderOf front entry = some active := by
    have skipped : found.reverse.find? (fun other => other.depth.toNat + 1 = entry.depth.toNat) =
        none := by
      rw [List.find?_eq_none]
      intro other present
      have := deeper other (List.mem_reverse.mp present)
      simp only [decide_eq_true_eq]
      omega
    have order : front = found.reverse ++ active :: before.reverse := by simp [front]
    rw [finderOf, order, List.find?_append, skipped, Option.none_or]
    simp [depth]
  have others : lineage (entry :: front) rest = lineage front rest :=
    lineageSkip [] fun other present => by
      have := bounded other present
      omega
  refine ⟨lineage [] (before ++ active :: found), lineage front rest, ?_, ?_⟩
  · rw [lineageAppend, List.append_nil]
  · rw [lineageAppend, List.append_nil, lineage, own, others]
    rfl

theorem lineageTickets {row : Entry κ × Option Nat} {entries : List (Entry κ)} {ticket : Nat}
    (present : row ∈ lineage earlier entries) (found : row.2 = some ticket) :
    ticket ∈ (earlier ++ entries).map Entry.ticket := by
  induction entries generalizing earlier with
  | nil => cases present
  | cons entry rest ih =>
    rcases List.mem_cons.mp present with rfl | behind
    · obtain ⟨finder, among, rfl⟩ := Option.map_eq_some_iff.mp found
      exact List.mem_map_of_mem (List.mem_append_left _ (finderAmong among).1)
    · have among := ih behind
      simp only [List.map_append, List.map_cons, List.mem_append, List.mem_cons] at among ⊢
      tauto

theorem findingsOfRoot (entries : List (Entry κ)) {root : Entry κ} (depth : root.depth.toNat = 0)
    (entry : Entry κ) : findings (entries ++ [root]) entry = findings entries entry := by
  rw [findings, lineageAppend, List.countP_append, lineage, finderOfRoot _ depth]
  simp [findings, lineage]

theorem findingsOfNested {before found : List (Entry κ)} {active other : Entry κ}
    (deeper : ∀ other ∈ found, other.depth.toNat = active.depth.toNat + 1)
    (bounded : ∀ other ∈ rest, other.depth.toNat ≤ active.depth.toNat)
    (depth : entry.depth.toNat = active.depth.toNat + 1) :
    findings (before ++ active :: found ++ entry :: rest) other =
      findings (before ++ active :: found ++ rest) other +
        if active.ticket = other.ticket then 1 else 0 := by
  obtain ⟨first, second, old, new⟩ := lineageInsert before deeper bounded depth
  rw [findings, findings, old, new, List.countP_append, List.countP_append, List.countP_cons,
    Nat.add_assoc]
  simp

theorem findingsOfFresh {entries : List (Entry κ)}
    (fresh : entry.ticket ∉ entries.map Entry.ticket) : findings entries entry = 0 := by
  rw [findings, List.countP_eq_zero]
  intro row present found
  exact fresh (lineageTickets present (by simpa using found))

end Lineage

namespace Log

def Found (queue : QueueId) (log : Log κ ν ε) (entry : Entry κ) (finder : Option Nat) : Prop :=
  ∃ before nested after, log = before ++ .appended queue entry nested :: after ∧
    (Log.discovery queue before).active = finder

theorem Found.more {queue : QueueId} {log : Log κ ν ε} {entry : Entry κ} {finder : Option Nat}
    (found : log.Found queue entry finder) (events : Log κ ν ε) :
    Log.Found queue (log ++ events) entry finder := by
  obtain ⟨before, nested, after, rfl, active⟩ := found
  exact ⟨before, nested, after ++ events, by simp, active⟩

theorem foundLast (queue : QueueId) (log : Log κ ν ε) (entry : Entry κ) (nested : Bool) :
    Log.Found queue (log ++ [.appended queue entry nested]) entry (log.discovery queue).active :=
  ⟨log, nested, [], rfl, rfl⟩

end Log

structure Lineal (queue : QueueId) (log : Log κ ν ε) (entries : List (Entry κ)) : Prop where
  first : ∀ entry ∈ entries.head?, entry.depth.toNat = 0
  chain : entries.IsChain fun before next => next.depth.toNat ≤ before.depth.toNat + 1
  found : ∀ row ∈ lineage [] entries, log.Found queue row.1 row.2
  roots : ∀ row ∈ lineage [] entries, row.2 = none → row.1.depth.toNat = 0

namespace Lineal

variable {queue : QueueId} {log : Log κ ν ε} {entries : List (Entry κ)}

theorem more (lineal : Lineal queue log entries) (events : Log κ ν ε) :
    Lineal queue (log ++ events) entries :=
  ⟨lineal.first, lineal.chain, fun row present => (lineal.found row present).more events,
    lineal.roots⟩

theorem take {rest : List (Entry κ)} (lineal : Lineal queue log (entries ++ rest)) :
    Lineal queue log entries := by
  obtain ⟨first, chain, found, roots⟩ := lineal
  rw [lineageAppend] at found roots
  refine ⟨fun entry head => first entry ?_, (List.isChain_append.mp chain).1,
    fun row present => found row (List.mem_append_left _ present),
    fun row present => roots row (List.mem_append_left _ present)⟩
  rw [List.head?_append, Option.mem_def.mp head]
  rfl

theorem root (lineal : Lineal queue log entries) {entry : Entry κ} (depth : entry.depth.toNat = 0)
    (found : log.Found queue entry none) : Lineal queue log (entries ++ [entry]) := by
  have rows : lineage [] (entries ++ [entry]) = lineage [] entries ++ [(entry, none)] := by
    rw [lineageAppend, lineage, finderOfRoot _ depth]
    rfl
  refine ⟨fun other head => ?_, ?_, ?_, ?_⟩
  · cases entries with
    | nil => exact Option.some.inj head ▸ depth
    | cons before rest => exact lineal.first other head
  · rw [List.isChain_append]
    refine ⟨lineal.chain, .singleton _, fun before _ next head => ?_⟩
    cases Option.some.inj head
    rw [depth]
    exact Nat.zero_le _
  · rw [rows, List.forall_mem_append]
    exact ⟨lineal.found, by simpa using found⟩
  · rw [rows, List.forall_mem_append]
    exact ⟨lineal.roots, by simpa using depth⟩

theorem nested {before found rest : List (Entry κ)} {active entry : Entry κ}
    (lineal : Lineal queue log (before ++ active :: found ++ rest))
    (deeper : ∀ other ∈ found, other.depth.toNat = active.depth.toNat + 1)
    (bounded : ∀ other ∈ rest, other.depth.toNat ≤ active.depth.toNat)
    (depth : entry.depth.toNat = active.depth.toNat + 1)
    (appended : log.Found queue entry (some active.ticket)) :
    Lineal queue log (before ++ active :: found ++ entry :: rest) := by
  obtain ⟨first, second, old, new⟩ := lineageInsert before deeper bounded depth
  obtain ⟨head, chain, told, roots⟩ := lineal
  rw [old, List.forall_mem_append] at told roots
  rw [List.isChain_append] at chain
  refine ⟨fun other present => head other ?_, ?_, ?_, ?_⟩
  · cases before <;> exact present
  · refine List.isChain_append.mpr ⟨chain.1, List.isChain_cons.mpr ⟨?_, chain.2.1⟩, ?_⟩
    · intro next present
      have := bounded next (List.mem_of_mem_head? present)
      omega
    · intro other last next present
      cases Option.some.inj present
      have level : active.depth.toNat ≤ other.depth.toNat := by
        rw [List.getLast?_append_cons] at last
        rcases List.mem_cons.mp (List.mem_of_getLast? last) with rfl | behind
        · exact Nat.le_refl _
        · exact deeper other behind ▸ Nat.le_succ _
      omega
  · rw [new, List.forall_mem_append, List.forall_mem_cons]
    exact ⟨told.1, appended, told.2⟩
  · rw [new, List.forall_mem_append, List.forall_mem_cons]
    exact ⟨roots.1, nofun, roots.2⟩

end Lineal

def Event.spliced? : Event κ ν ε → Option Nat
  | .settled _ _ spliced _ => some spliced
  | _ => none

namespace Log

abbrev splices (log : Log κ ν ε) : List Nat := log.filterMap Event.spliced?

end Log

/- What was found, counted: each step that settled has spliced what it found, the active one has it
in the buffer, and no waiting step has found anything. -/
structure Counted (agenda : Agenda κ) (log : Log κ ν ε) : Prop where
  found : log.splices ++ (agenda.active.map fun _ => agenda.buffer.length).toList =
    log.activated.map (findings (log.activated ++ agenda.pending))
  none : ∀ entry ∈ agenda.pending, findings (log.activated ++ agenda.pending) entry = 0

theorem Counted.nested {queue : QueueId} {agenda : Agenda κ} {log : Log κ ν ε}
    (counted : Counted agenda log) {mark : Active} (busy : agenda.active = some mark)
    {earlier : List (Entry κ)} {active : Entry κ} (whole : log.activated = earlier ++ [active])
    (step : Step κ) (nested : Bool)
    (grown : ∀ other, findings (log.activated ++ (agenda.append step).pending) other =
      findings (log.activated ++ agenda.pending) other +
        if active.ticket = other.ticket then 1 else 0)
    (distinct : ((log.activated ++ agenda.pending).map Entry.ticket).Nodup)
    (fresh : (agenda.entry step).ticket ∉ (log.activated ++ agenda.pending).map Entry.ticket) :
    Counted (agenda.append step) (log ++ [.appended queue (agenda.entry step) nested]) := by
  obtain ⟨found, none⟩ := counted
  obtain ⟨pipeline, buffer⟩ := Agenda.appendActive busy step
  have still : (agenda.append step).active = some mark := (agenda.activeAfterAppend step).trans busy
  have same : Log.activated (log ++ [.appended queue (agenda.entry step) nested]) =
      log.activated := log.readQuiet rfl
  have spliced : Log.splices (log ++ [.appended queue (agenda.entry step) nested]) =
      log.splices := log.readQuiet rfl
  have unlike {other : Entry κ} (present : other ∈ earlier ∨ other ∈ agenda.pending) :
      active.ticket ≠ other.ticket := by
    intro same
    rw [whole, List.append_assoc, List.singleton_append, List.map_append, List.map_cons,
      List.nodup_middle, List.nodup_cons, ← List.map_append, same] at distinct
    exact distinct.1 (List.mem_map_of_mem (List.mem_append.mpr present))
  have others : earlier.map (findings (log.activated ++ (agenda.append step).pending)) =
      earlier.map (findings (log.activated ++ agenda.pending)) := by
    refine List.map_congr_left fun other present => ?_
    rw [grown, if_neg (unlike (.inl present)), Nat.add_zero]
  refine ⟨?_, ?_⟩
  · have counts : log.splices = earlier.map (findings (log.activated ++ agenda.pending)) ∧
        [agenda.buffer.length] = [findings (log.activated ++ agenda.pending) active] := by
      rw [busy, whole, List.map_append] at found
      exact List.append_inj' (whole ▸ found) rfl
    have own := List.cons.inj counts.2
    rw [still, same, spliced, counts.1, whole, List.map_append, ← whole, others,
      List.map_singleton, grown, if_pos rfl, ← own.1, buffer, List.length_append]
    rfl
  · rw [same]
    intro other present
    rw [(agenda.pendingAfterAppend step).mem_iff, List.mem_append, List.mem_singleton] at present
    rw [grown]
    rcases present with old | rfl
    · rw [none other old, if_neg (unlike (.inr old))]
    · rw [findingsOfFresh fresh, if_neg]
      exact fun same => fresh (same ▸ List.mem_map_of_mem (by simp [whole]))

theorem Agenda.Graded.discovered {agenda : Agenda κ} (graded : agenda.Graded)
    (few : agenda.arrivals < UInt32.size) {mark : Active} (busy : agenda.active = some mark)
    {active : Entry κ} (level : active.depth = mark.depth) (step : Step κ) :
    (agenda.entry step).depth.toNat = active.depth.toNat + 1 ∧
      (∀ other ∈ agenda.buffer, other.depth.toNat = active.depth.toNat + 1) ∧
      ∀ other ∈ agenda.pipeline, other.depth.toNat ≤ active.depth.toNat := by
  have within := graded.active mark busy
  refine ⟨?_, level ▸ graded.deeper mark busy, level ▸ graded.bounded mark busy⟩
  rw [level]
  simp only [Agenda.entry, Agenda.depth, busy, UInt32.toNat_add, UInt32.toNat_one]
  exact Nat.mod_eq_of_lt (Nat.lt_of_le_of_lt within few)

structure Descent (queue : QueueId) (agenda : Agenda κ) (log : Log κ ν ε) : Prop where
  lineal : ∃ rest, Lineal queue log (log.activated ++ rest) ∧ (log.Unbroken → rest = agenda.pending)
  counted : log.Unbroken → Counted agenda log

namespace Descent

variable {queue : QueueId} {agenda next : Agenda κ} {log : Log κ ν ε}

theorem whole (descent : Descent queue agenda log) (unbroken : log.Unbroken) :
    Lineal queue log (log.activated ++ agenda.pending) := by
  obtain ⟨rest, lineal, same⟩ := descent.lineal
  exact same unbroken ▸ lineal

theorem more (descent : Descent queue agenda log) (events : Log κ ν ε)
    (activated : events.activated = []) (pending : next.pending = agenda.pending)
    (found : events.splices ++ (next.active.map fun _ => next.buffer.length).toList =
      (agenda.active.map fun _ => agenda.buffer.length).toList) :
    Descent queue next (log ++ events) := by
  have same : Log.activated (log ++ events) = log.activated := log.readQuiet activated
  obtain ⟨rest, lineal, waiting⟩ := descent.lineal
  refine ⟨⟨rest, ?_, fun unbroken => ?_⟩, fun unbroken => ?_⟩
  · rw [same]
    exact lineal.more events
  · rw [waiting (unbroken.earlier (List.prefix_append _ _)), pending]
  · have counted := descent.counted (unbroken.earlier (List.prefix_append _ _))
    refine ⟨?_, ?_⟩
    · rw [same, pending, ← counted.found, ← found, ← List.append_assoc, Log.splices, Log.splices,
        Log.splices, List.filterMap_append]
    · rw [same, pending]
      exact counted.none

theorem quiet (descent : Descent queue agenda log) (events : Log κ ν ε)
    (activated : events.activated = []) (spliced : events.splices = []) :
    Descent queue agenda (log ++ events) :=
  descent.more events activated rfl (by rw [spliced, List.nil_append])

theorem broken (descent : Descent queue agenda log) (events : Log κ ν ε)
    (activated : events.activated = []) (out : ¬ Log.Unbroken (log ++ events)) :
    Descent queue next (log ++ events) := by
  have same : Log.activated (log ++ events) = log.activated := log.readQuiet activated
  obtain ⟨rest, lineal, -⟩ := descent.lineal
  exact ⟨⟨rest, same ▸ lineal.more events, fun unbroken => absurd unbroken out⟩,
    fun unbroken => absurd unbroken out⟩

theorem appendRoot (descent : Descent queue agenda log) (unbroken : log.Unbroken)
    (order : Order queue agenda log)
    (ticketed : log.arrivals.map Entry.ticket = List.range agenda.arrivals)
    (idle : agenda.active = none) (step : Step κ) (nested : Bool) :
    Descent queue (agenda.append step) (log ++ [.appended queue (agenda.entry step) nested]) := by
  have lineal := descent.whole unbroken
  obtain ⟨found, none⟩ := descent.counted unbroken
  have waiting := Agenda.pendingIdle idle step
  have still : (agenda.append step).active = .none := (agenda.activeAfterAppend step).trans idle
  have depth : (agenda.entry step).depth.toNat = 0 := by simp [Agenda.entry, Agenda.depth, idle]
  have same : Log.activated (log ++ [.appended queue (agenda.entry step) nested]) =
      log.activated := log.readQuiet rfl
  have fresh : (agenda.entry step).ticket ∉ (log.activated ++ agenda.pending).map Entry.ticket := by
    rw [order.preorder]
    exact order.fresh ticketed
  have appended := Log.foundLast queue log (agenda.entry step) nested
  rw [order.idle idle] at appended
  have count : findings (log.activated ++ (agenda.pending ++ [agenda.entry step])) =
      findings (log.activated ++ agenda.pending) := by
    rw [← List.append_assoc]
    exact funext (findingsOfRoot _ depth)
  refine ⟨⟨_, ?_, fun _ => rfl⟩, fun _ => ⟨?_, ?_⟩⟩
  · rw [same, waiting, ← List.append_assoc]
    exact (lineal.more _).root depth appended
  · rw [still, same, waiting, count]
    rw [idle] at found
    simpa [Log.splices, List.filterMap_cons, Event.spliced?] using found
  · rw [same, waiting, count, List.forall_mem_append, List.forall_mem_singleton]
    exact ⟨none, findingsOfFresh fresh⟩

theorem appendNested (descent : Descent queue agenda log) (unbroken : log.Unbroken)
    (order : Order queue agenda log)
    (ticketed : log.arrivals.map Entry.ticket = List.range agenda.arrivals)
    (graded : agenda.Graded) (few : agenda.arrivals < UInt32.size) {mark : Active}
    (busy : agenda.active = some mark) {last : Entry κ}
    (latest : log.activated.getLast? = some last)
    (level : last.depth = mark.depth) (step : Step κ) (nested : Bool) :
    Descent queue (agenda.append step) (log ++ [.appended queue (agenda.entry step) nested]) := by
  obtain ⟨earlier, active, whole, marked, -⟩ := order.busy (by simp [busy])
  obtain rfl : active = last := by
    rw [whole, List.getLast?_concat] at latest
    exact Option.some.inj latest
  obtain ⟨depth, deeper, bounded⟩ := graded.discovered few busy level step
  obtain ⟨pipeline, buffer⟩ := Agenda.appendActive busy step
  have same : Log.activated (log ++ [.appended queue (agenda.entry step) nested]) =
      log.activated := log.readQuiet rfl
  have before : log.activated ++ agenda.pending =
      earlier ++ active :: agenda.buffer ++ agenda.pipeline := by
    simp [whole, Agenda.pending]
  have after : log.activated ++ (agenda.append step).pending =
      earlier ++ active :: agenda.buffer ++ agenda.entry step :: agenda.pipeline := by
    simp [whole, Agenda.pending, pipeline, buffer]
  have fresh : (agenda.entry step).ticket ∉ (log.activated ++ agenda.pending).map Entry.ticket := by
    rw [order.preorder]
    exact order.fresh ticketed
  have appended := Log.foundLast queue log (agenda.entry step) nested
  rw [marked] at appended
  refine ⟨⟨_, ?_, fun _ => rfl⟩, fun _ => ?_⟩
  · have lineal := descent.whole unbroken
    rw [before] at lineal
    rw [same, after]
    exact (lineal.more _).nested deeper bounded depth appended
  · refine (descent.counted unbroken).nested busy whole step nested (fun other => ?_)
      (order.distinct ticketed) fresh
    rw [before, after]
    exact findingsOfNested deeper bounded depth

theorem activate (descent : Descent queue agenda log) (unbroken : log.Unbroken)
    (resting : agenda.active = none) (idle : agenda.buffer = []) {index : UInt32} {entry : Entry κ}
    (taken : agenda.activate index = some (entry, next)) (info : StepInfo) (call : Call) :
    Descent queue next (log ++ [.activated queue entry info, .asked queue call]) := by
  obtain ⟨pipeline, buffer, marked, -⟩ := Agenda.activateSome taken
  have lineal := descent.whole unbroken
  obtain ⟨found, none⟩ := descent.counted unbroken
  have waiting : agenda.pending = entry :: next.pending := by
    rw [Agenda.pending, Agenda.pending, buffer, idle, pipeline, List.nil_append, List.nil_append]
  have last := log.activatedNext queue entry info call
  have same : Log.activated (log ++ [.activated queue entry info, .asked queue call]) ++
      next.pending = log.activated ++ agenda.pending := by
    rw [last, waiting, List.append_assoc, List.singleton_append]
  have spliced : Log.splices (log ++ [.activated queue entry info, .asked queue call]) =
      log.splices := log.readQuiet rfl
  refine ⟨⟨_, ?_, fun _ => rfl⟩, fun _ => ⟨?_, fun other present => ?_⟩⟩
  · rw [same]
    exact lineal.more _
  · rw [resting] at found
    rw [same, last, List.map_append, ← found, spliced, marked, buffer, idle, List.map_singleton,
      none entry (by simp [waiting])]
    simp
  · rw [same]
    exact none other (by simp [waiting, present])

end Descent

namespace Standing

variable {queue : QueueId} {name : String}

structure Descended (queue : QueueId) (a : Standing κ ν ε) : Prop where
  balanced : a.Balanced queue
  depths : a.Depths
  level : ∀ mark, a.agenda.active = some mark →
    ∃ entry, a.log.activated.getLast? = some entry ∧ entry.depth = mark.depth
  descent : a.agenda.arrivals < UInt32.size → Descent queue a.agenda a.log

theorem descentAppend {agenda : Agenda κ} {log : Log κ ν ε} {point : Point κ ν}
    (holds : Descended queue ⟨agenda, log, point⟩) (few : agenda.arrivals < UInt32.size)
    (step : Step κ) (nested : Bool) :
    Descent queue (agenda.append step) (log ++ [.appended queue (agenda.entry step) nested]) := by
  have ordered := holds.balanced.ordered
  have descent := holds.descent few
  by_cases unbroken : log.Unbroken
  · have order := ordered.order unbroken
    cases active : agenda.active with
    | none => exact descent.appendRoot unbroken order ordered.ticketed active step nested
    | some mark =>
      obtain ⟨last, latest, level⟩ := holds.level mark active
      exact descent.appendNested unbroken order ordered.ticketed
        (holds.depths.graded few) few active
        latest level step nested
  · exact descent.broken _ rfl fun still => unbroken (still.earlier (List.prefix_append _ _))

theorem descentSettle {agenda : Agenda κ} {log : Log κ ν ε} (descent : Descent queue agenda log)
    {mark : Active} (busy : agenda.active = some mark) (info : StepInfo)
    (result : Except RunError ν) (call : Call) : Descent queue agenda.settle
      (log ++ [.settled queue info agenda.found.size result, .asked queue call]) := by
  refine descent.more _ rfl ?_ ?_
  · rw [Agenda.pending, agenda.settled.1, agenda.settled.2, List.nil_append]
  · have size : agenda.buffer.length = agenda.found.size := Lane.lengthOfList _
    rw [busy, Option.map_some, size]
    rfl

theorem unactivated {new : Log κ ν ε} (silent : ∀ event ∈ new, event.seeks = false) :
    new.activated = [] := by
  refine List.filterMap_eq_nil_iff.mpr fun event present => ?_
  have none := silent event present
  cases event with
  | activated => cases none
  | _ => rfl

theorem Response.activated {stage : Stage κ ν} {ending : Ending (stage.Answer ε)}
    {a b : Standing κ ν ε} (act : Response queue stage ending a b) :
    b.log.activated = a.log.activated := by
  obtain ⟨new, log, silent⟩ := act.unseeking
  rw [log, Log.activated, Log.readQuiet _ (unactivated silent)]

variable (queue name) in
theorem keptDescended : Kept queue name (Descended (κ := κ) (ν := ν) (ε := ε) queue) where
  start := ⟨(keptBalanced queue name).start, (keptDepths queue name).start, nofun, fun _ =>
    ⟨⟨[], ⟨nofun, .nil, nofun, nofun⟩, fun _ => rfl⟩, fun _ => ⟨rfl, nofun⟩⟩⟩
  given act holds := by
    refine ⟨(keptBalanced queue name).given act holds.balanced,
      (keptDepths queue name).given act holds.depths, ?_, ?_⟩
    · cases act with
      | append agenda log point step =>
        intro mark busy
        rw [agenda.activeAfterAppend] at busy
        simpa [Log.activated, Event.activation?] using holds.level mark busy
      | begin agenda log value => simpa [Log.activated, Event.activation?] using holds.level
      | discard | leave => exact holds.level
    · cases act with
      | append agenda log point step =>
        intro few
        rw [agenda.arrivalsAfterAppend] at few
        exact descentAppend holds (Nat.lt_of_succ_lt few) step _
      | begin agenda log value => exact fun few => (holds.descent few).quiet _ rfl rfl
      | discard | leave => exact holds.descent
  reply act holds := by
    refine ⟨(keptBalanced queue name).reply act holds.balanced,
      (keptDepths queue name).reply act holds.depths, ?_, fun few => ?_⟩
    · rw [act.activated]
      cases act with
      | settle | fail | refuse =>
        intro mark busy
        cases busy
      | _ => exact holds.level
    · rw [act.arrivals.2] at few
      have descent := holds.descent few
      have marked := holds.balanced.ordered.marked.mark
      cases act with
      | settle agenda log stage ending run step info value settles =>
        exact descentSettle descent (marked.trans settles.mark) info _ _
      | fail agenda log stage ending run step info error settles =>
        exact descent.broken _ rfl fun unbroken => unbroken queue agenda.pending (by simp)
      | refuse agenda log run value entry info failure =>
        exact descent.broken _ rfl fun unbroken => unbroken queue agenda.pending (by simp)
      | goOn agenda log run info value ending heard =>
        exact descent.quiet _ (by cases ending <;> rfl) (by cases ending <;> rfl)
      | giveUp agenda log run info error dropped ending heard =>
        dsimp only
        rw [List.append_assoc]
        exact descent.quiet _ (by cases ending <;> rfl) (by cases ending <;> rfl)
      | finish agenda log run verdict ending heard =>
        dsimp only
        rw [List.append_assoc]
        exact descent.quiet _ (by cases ending <;> cases verdict <;> rfl)
          (by cases ending <;> cases verdict <;> rfl)
      | accept | apply => exact descent.quiet _ rfl rfl
      | reject | call | told => exact descent
  follow act holds := by
    refine ⟨(keptBalanced queue name).follow act holds.balanced,
      (keptDepths queue name).follow act holds.depths, ?_, fun few => ?_⟩
    · cases act with
      | activate agenda log run value entry next taken =>
        intro mark busy
        cases (Agenda.activateSome taken).2.2.1.symm.trans busy
        exact ⟨entry, by simp [Log.activated, List.filterMap_cons, Event.activation?], rfl⟩
      | pass => exact holds.level
      | _ => simpa [Log.activated, List.filterMap_cons, Event.activation?] using holds.level
    · rw [act.arrivals.2] at few
      have descent := holds.descent few
      have marked := holds.balanced.ordered.marked
      cases act with
      | activate agenda log run value entry next taken =>
        exact descent.activate holds.balanced.accounts marked.mark
          (marked.idle marked.mark) taken _ _
      | pass => exact descent
      | _ => exact descent.quiet _ rfl rfl

end Standing

end Sequencer

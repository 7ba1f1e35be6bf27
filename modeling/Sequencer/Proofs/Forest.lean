import Mathlib.Data.List.Basic
import Mathlib.Data.List.Perm.Basic
import Mathlib.Data.List.Nodup
import Sequencer.Discovery

/-! What a discovery does to the preorder of a forest. The parent is found by its ticket; the new
step comes after everything the parent has led to so far, and nothing else moves. -/
namespace Sequencer

mutual
def Tree.under (ticket : Nat) : Tree κ → List (Entry κ)
  | .node entry found =>
    if entry.ticket = ticket then Forest.preorder found else Forest.under ticket found

def Forest.under (ticket : Nat) : Forest κ → List (Entry κ)
  | [] => []
  | tree :: rest => tree.under ticket ++ Forest.under ticket rest
end

def Tree.tickets (tree : Tree κ) : List Nat := tree.preorder.map Entry.ticket

def Forest.tickets (forest : Forest κ) : List Nat := forest.preorder.map Entry.ticket

theorem Tree.ticketsOfNode (entry : Entry κ) (found : Forest κ) :
    (Tree.node entry found).tickets = entry.ticket :: found.tickets := by
  simp only [tickets, preorder, List.map_cons, Forest.tickets]

theorem Forest.ticketsOfCons (tree : Tree κ) (rest : Forest κ) :
    Forest.tickets (tree :: rest) = tree.tickets ++ rest.tickets := by
  simp only [tickets, preorder, List.map_append, Tree.tickets]

namespace Forest

theorem preorderAppend (left right : Forest κ) :
    Forest.preorder (left ++ right) = left.preorder ++ right.preorder := by
  induction left with
  | nil => simp [preorder]
  | cons tree rest ih =>
    rw [List.cons_append, preorder, preorder, ih, List.append_assoc]

theorem underAppend (ticket : Nat) (left right : Forest κ) :
    Forest.under ticket (left ++ right) = left.under ticket ++ right.under ticket := by
  induction left with
  | nil => simp [under]
  | cons tree rest ih => rw [List.cons_append, under, under, ih, List.append_assoc]

theorem preorderOfSingle (entry : Entry κ) : Forest.preorder [.node entry []] = [entry] := by
  simp [preorder, Tree.preorder]

theorem underOfSingle (ticket : Nat) (entry : Entry κ) :
    Forest.under ticket [.node entry []] = [] := by
  simp [under, Tree.under, preorder]

theorem emptyOfPreorder {forest : Forest κ} (none : forest.preorder = []) : forest = [] := by
  cases forest with
  | nil => rfl
  | cons tree rest =>
    obtain ⟨entry, found⟩ := tree
    simp [preorder, Tree.preorder] at none

end Forest

mutual
theorem Tree.adoptAbsent (parent : Nat) (child : Entry κ) :
    ∀ tree : Tree κ, parent ∉ tree.tickets → tree.adopt parent child = tree ∧ tree.under parent = []
  | .node entry found, absent => by
    rw [Tree.ticketsOfNode, List.mem_cons, not_or] at absent
    obtain ⟨same, none⟩ := Forest.adoptAbsent parent child found absent.2
    simp only [Tree.adopt, Tree.under, if_neg (Ne.symm absent.1), same, none, List.append_nil,
      and_self]

theorem Forest.adoptAbsent (parent : Nat) (child : Entry κ) :
    ∀ forest : Forest κ, parent ∉ forest.tickets →
      forest.adopt parent child = forest ∧ forest.under parent = []
  | [], _ => by simp only [Forest.adopt, Forest.under, and_self]
  | tree :: rest, absent => by
    rw [Forest.ticketsOfCons, List.mem_append, not_or] at absent
    obtain ⟨tree_, none⟩ := Tree.adoptAbsent parent child tree absent.1
    obtain ⟨rest_, nothing⟩ := Forest.adoptAbsent parent child rest absent.2
    simp only [Forest.adopt, Forest.under, tree_, none, rest_, nothing, List.append_nil, and_self]
end

structure Adopted (parent : Nat) (child : Entry κ) (old new under grown : List (Entry κ)) :
    Prop where
  spot : ∃ left entry right, entry.ticket = parent ∧ old = left ++ entry :: (under ++ right) ∧
    new = left ++ entry :: (under ++ child :: right)
  grown : grown = under ++ [child]

namespace Adopted

variable {parent : Nat} {child : Entry κ} {old new under grown : List (Entry κ)}

theorem within (adopted : Adopted parent child old new under grown)
    (ahead behind : List (Entry κ)) :
    Adopted parent child (ahead ++ old ++ behind) (ahead ++ new ++ behind) under grown := by
  obtain ⟨⟨left, entry, right, same, rfl, rfl⟩, grown⟩ := adopted
  exact ⟨⟨ahead ++ left, entry, right ++ behind, same, by simp, by simp⟩, grown⟩

theorem perm (adopted : Adopted parent child old new under grown) : new.Perm (old ++ [child]) := by
  obtain ⟨⟨left, entry, right, -, rfl, rfl⟩, -⟩ := adopted
  have moved : (under ++ child :: right).Perm ((under ++ right) ++ [child]) :=
    List.perm_middle.trans (List.perm_append_singleton child _).symm
  simpa using (moved.cons entry).append_left left

end Adopted

mutual
theorem Tree.adoptPresent (parent : Nat) (child : Entry κ) :
    ∀ tree : Tree κ, tree.tickets.Nodup → parent ∈ tree.tickets →
      Adopted parent child tree.preorder (tree.adopt parent child).preorder
        (tree.under parent) ((tree.adopt parent child).under parent)
  | .node entry found, distinct, present => by
    rw [Tree.ticketsOfNode, List.nodup_cons] at distinct
    rw [Tree.ticketsOfNode, List.mem_cons] at present
    by_cases here : entry.ticket = parent
    · have absent : parent ∉ Forest.tickets found := here ▸ distinct.1
      simp only [Tree.adopt, Tree.under, Tree.preorder, if_pos here,
        (Forest.adoptAbsent parent child found absent).1, Forest.preorderAppend,
        Forest.preorderOfSingle]
      exact ⟨⟨[], entry, [], here, by simp, by simp⟩, rfl⟩
    · have inner := Forest.adoptPresent parent child found distinct.2
        (present.resolve_left (Ne.symm here))
      simpa [Tree.adopt, Tree.under, Tree.preorder, if_neg here] using inner.within [entry] []

theorem Forest.adoptPresent (parent : Nat) (child : Entry κ) :
    ∀ forest : Forest κ, forest.tickets.Nodup → parent ∈ forest.tickets →
      Adopted parent child forest.preorder (forest.adopt parent child).preorder
        (forest.under parent) ((forest.adopt parent child).under parent)
  | [], _, present => by simp [Forest.tickets, Forest.preorder] at present
  | tree :: rest, distinct, present => by
    rw [Forest.ticketsOfCons, List.nodup_append'] at distinct
    rw [Forest.ticketsOfCons, List.mem_append] at present
    obtain ⟨first, others, apart⟩ := distinct
    by_cases here : parent ∈ tree.tickets
    · have inner := Tree.adoptPresent parent child tree first here
      obtain ⟨same, none⟩ := Forest.adoptAbsent parent child rest (apart here)
      simpa [Forest.adopt, Forest.under, Forest.preorder, same, none] using
        inner.within [] (Forest.preorder rest)
    · have inner := Forest.adoptPresent parent child rest others (present.resolve_left here)
      obtain ⟨same, none⟩ := Tree.adoptAbsent parent child tree here
      simpa [Forest.adopt, Forest.under, Forest.preorder, same, none] using
        inner.within tree.preorder []
end

/- Tickets are distinct, so the spot is the one behind the step that has the ticket. -/
theorem Forest.adoptBehind {forest : Forest κ} (distinct : forest.tickets.Nodup)
    {earlier rest : List (Entry κ)} {active : Entry κ}
    (whole : forest.preorder = earlier ++ active :: (forest.under active.ticket ++ rest))
    (child : Entry κ) :
    (forest.adopt active.ticket child).preorder =
        earlier ++ active :: (forest.under active.ticket ++ child :: rest) ∧
      (forest.adopt active.ticket child).under active.ticket =
        forest.under active.ticket ++ [child] := by
  have present : active.ticket ∈ forest.tickets := by simp [tickets, whole]
  have adopted := Forest.adoptPresent active.ticket child forest distinct present
  obtain ⟨left, entry, right, ticket, old, new⟩ := adopted.spot
  rw [tickets, whole, List.map_append, List.map_cons, List.nodup_middle, List.nodup_cons,
    List.mem_append, not_or] at distinct
  rw [← ticket] at distinct
  have before : entry ∉ earlier := fun inside => distinct.1.1 (List.mem_map_of_mem inside)
  have behind : entry ∉ forest.under active.ticket ++ rest :=
    fun inside => distinct.1.2 (List.mem_map_of_mem (ticket ▸ inside))
  obtain ⟨rfl, rfl, tail⟩ :=
    (List.append_cons_inj_of_notMem before behind).mp (whole.symm.trans old)
  cases List.append_cancel_left tail
  exact ⟨new, adopted.grown⟩

mutual
theorem Tree.adoptElsewhere {parent other : Nat} (child : Entry κ) (apart : other ≠ parent) :
    ∀ tree : Tree κ, tree.under other = [] → (tree.adopt parent child).under other = []
  | .node entry found, barren => by
    by_cases here : entry.ticket = other
    · have elsewhere : entry.ticket ≠ parent := here ▸ apart
      simp only [Tree.under, if_pos here] at barren
      simp only [Tree.adopt, Tree.under, if_pos here, if_neg elsewhere, List.append_nil,
        Forest.emptyOfPreorder barren, Forest.adopt, Forest.preorder]
    · simp only [Tree.under, if_neg here] at barren
      have inner := Forest.adoptElsewhere child apart found barren
      simp only [Tree.adopt, Tree.under, if_neg here, Forest.underAppend, inner, List.nil_append]
      split
      · exact Forest.underOfSingle other child
      · rfl

theorem Forest.adoptElsewhere {parent other : Nat} (child : Entry κ) (apart : other ≠ parent) :
    ∀ forest : Forest κ, forest.under other = [] → (forest.adopt parent child).under other = []
  | [], barren => barren
  | tree :: rest, barren => by
    rw [Forest.under, List.append_eq_nil_iff] at barren
    rw [Forest.adopt, Forest.under, Tree.adoptElsewhere child apart tree barren.1,
      Forest.adoptElsewhere child apart rest barren.2, List.nil_append]
end

end Sequencer

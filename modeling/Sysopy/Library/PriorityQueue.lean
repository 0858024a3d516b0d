import Mathlib.Data.List.Sort

/-!
# Queues with priorities

A queue delivers the entry with the highest priority first, and entries of one
priority in the order in which they came. An entry is put behind all that are at
least as urgent, so its place in the list is its place in the order of delivery.
-/
namespace Sysopy.PriorityQueue

variable {α : Type*} (prio : α → ℤ)

/-- The entry goes before the first that is less urgent. -/
def enqueue (a : α) (queue : List α) : List α :=
  queue.orderedInsert (fun a b => prio b < prio a) a

def Ordered (queue : List α) : Prop := queue.Pairwise fun a b => prio b ≤ prio a

variable {prio}

theorem enqueue_perm (a : α) (queue : List α) : (enqueue prio a queue).Perm (a :: queue) :=
  queue.perm_orderedInsert _ a

@[simp] theorem mem_enqueue {a b : α} {queue : List α} :
    b ∈ enqueue prio a queue ↔ b = a ∨ b ∈ queue :=
  List.mem_orderedInsert _

theorem ordered_nil : Ordered prio [] := List.Pairwise.nil

theorem Ordered.le_first {a b : α} {queue : List α} (h : Ordered prio (a :: queue))
    (hb : b ∈ queue) : prio b ≤ prio a :=
  List.rel_of_pairwise_cons h hb

theorem Ordered.tail {a : α} {queue : List α} (h : Ordered prio (a :: queue)) :
    Ordered prio queue :=
  (List.pairwise_cons.mp h).2

theorem Ordered.enqueue {queue : List α} (h : Ordered prio queue) (a : α) :
    Ordered prio (enqueue prio a queue) := by
  induction queue with
  | nil => exact List.pairwise_singleton _ a
  | cons first queue ih =>
    have hrest := ih h.tail
    unfold PriorityQueue.enqueue at hrest ⊢
    rw [List.orderedInsert_cons]
    split_ifs with hlt
    · refine List.pairwise_cons.mpr ⟨?_, h⟩
      intro b hb
      rcases List.mem_cons.mp hb with rfl | hb
      · exact hlt.le
      · exact (h.le_first hb).trans hlt.le
    · refine List.pairwise_cons.mpr ⟨?_, hrest⟩
      intro b hb
      rcases (List.mem_orderedInsert _).mp hb with rfl | hb
      · exact not_lt.mp hlt
      · exact h.le_first hb

end Sysopy.PriorityQueue

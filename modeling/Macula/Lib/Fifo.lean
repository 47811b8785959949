import Mathlib.Data.List.Nodup

/-!
# A fair lock

The queue of a lock that grants in the order of arrival, as `tokio::sync::Mutex` does: the
head of the queue holds the lock, those behind it wait.  Whoever leaves (a holder that
releases, a waiter that gives up) is taken out and nobody overtakes.

So at most one party holds the lock (`granted_unique`), the holder keeps it while others
come and go (`Granted.enqueue`, `Granted.leave`), and a relation between those ahead and
those behind only has to be checked against the newcomer (`pairwise_enqueue`).
-/

namespace Fifo

variable {α : Type*}

def enqueue (q : List α) (a : α) : List α := q ++ [a]

def leave [DecidableEq α] (q : List α) (a : α) : List α := q.filter (· ≠ a)

/-- `a` holds the lock. -/
def Granted (q : List α) (a : α) : Prop := q.head? = some a

instance [DecidableEq α] (q : List α) (a : α) : Decidable (Granted q a) :=
  inferInstanceAs (Decidable (q.head? = some a))

@[simp] theorem mem_enqueue {q : List α} {a b : α} : b ∈ enqueue q a ↔ b ∈ q ∨ b = a := by
  simp [enqueue]

theorem Granted.mem {q : List α} {a : α} (h : Granted q a) : a ∈ q :=
  List.mem_of_mem_head? h

theorem granted_unique {q : List α} {a b : α} (ha : Granted q a) (hb : Granted q b) : a = b :=
  Option.some.inj (ha.symm.trans hb)

theorem Granted.enqueue {q : List α} {a : α} (h : Granted q a) (b : α) :
    Granted (Fifo.enqueue q b) a := by
  obtain ⟨rest, rfl⟩ : ∃ rest, q = a :: rest := List.head?_eq_some_iff.mp h
  rfl

theorem nodup_enqueue {q : List α} {a : α} (h : q.Nodup) (ha : a ∉ q) :
    (enqueue q a).Nodup :=
  List.nodup_append.mpr
    ⟨h, List.nodup_singleton a, fun _ hb _ hc hbc => ha (List.mem_singleton.mp hc ▸ hbc ▸ hb)⟩

theorem pairwise_enqueue {R : α → α → Prop} {q : List α} {a : α} (h : q.Pairwise R)
    (ha : ∀ b ∈ q, R b a) : (enqueue q a).Pairwise R :=
  List.pairwise_append.mpr ⟨h, List.pairwise_singleton R a,
    fun b hb _ hc => List.mem_singleton.mp hc ▸ ha b hb⟩

/-- Whoever is related to nobody behind it, when it holds the lock, is related to nobody
else in the queue. -/
theorem Granted.pairwise {R : α → α → Prop} {q : List α} {a b : α} (h : Granted q a)
    (hR : q.Pairwise R) (hb : b ∈ q) (hab : b ≠ a) : R a b := by
  obtain ⟨rest, rfl⟩ : ∃ rest, q = a :: rest := List.head?_eq_some_iff.mp h
  rcases List.mem_cons.mp hb with rfl | hb
  · exact absurd rfl hab
  · exact List.rel_of_pairwise_cons hR hb

variable [DecidableEq α]

@[simp] theorem mem_leave {q : List α} {a b : α} : b ∈ leave q a ↔ b ∈ q ∧ b ≠ a := by
  simp [leave]

theorem Granted.leave {q : List α} {a b : α} (h : Granted q a) (hb : a ≠ b) :
    Granted (Fifo.leave q b) a := by
  obtain ⟨rest, rfl⟩ : ∃ rest, q = a :: rest := List.head?_eq_some_iff.mp h
  simp [Granted, Fifo.leave, hb]

theorem nodup_leave {q : List α} (a : α) (h : q.Nodup) : (leave q a).Nodup := h.filter _

theorem pairwise_leave {R : α → α → Prop} {q : List α} (a : α) (h : q.Pairwise R) :
    (leave q a).Pairwise R :=
  h.filter _

end Fifo

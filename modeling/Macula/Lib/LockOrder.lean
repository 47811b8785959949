import Mathlib.Data.List.Nodup
import Mathlib.Logic.Function.Basic
import Mathlib.Logic.Relation

/-!
# Locks that are asked for in order

A fair lock for readers and writers, as `tokio::sync::RwLock` and `tokio::sync::Mutex` are:
its queue has in the order of arrival those who hold it and those who wait.  A writer is
granted the lock at the head of the queue, a reader when only readers are ahead of it, so a
writer that waits keeps the readers behind it waiting.

A party waits for everybody ahead of it in the queue it waits in, whether they hold the lock
or wait themselves.  When the locks have ranks, and whoever asks for a lock has only locks of
a lower rank, nobody waits in a circle (`acyclic`), and behind everybody who waits there is
somebody who does not (`exists_free`).

A `Discipline` says for each program point which locks are held and which one is asked for.
What a party does to the queues follows from the points before and after its step.
-/

namespace LockOrder

inductive Mode where
  | read
  | write
deriving DecidableEq

/-- Who holds a lock and who waits for it, in the order of arrival. -/
abbrev Queue (α : Type*) := List (α × Mode)

variable {α κ π : Type*} [DecidableEq α]

/-! ## One lock -/

def enqueue (q : Queue α) (a : α) (m : Mode) : Queue α := q ++ [(a, m)]

def leave (q : Queue α) (a : α) : Queue α := q.filter fun x => x.1 ≠ a

/-- Those who arrived before `a`. -/
def ahead (q : Queue α) (a : α) : Queue α := q.takeWhile fun x => x.1 ≠ a

/-- `a` is in the queue. -/
def Queued (q : Queue α) (a : α) : Prop := ∃ m, (a, m) ∈ q

def mode (q : Queue α) (a : α) : Option Mode := (q.find? fun x => x.1 = a).map Prod.snd

/-- `a` holds the lock. -/
def Granted (q : Queue α) (a : α) : Prop :=
  match mode q a with
  | some .write => ahead q a = []
  | some .read => ∀ x ∈ ahead q a, x.2 = .read
  | none => False

instance (q : Queue α) (a : α) : Decidable (Granted q a) := by
  unfold Granted
  split <;> infer_instance

@[simp] theorem leave_cons {x : α × Mode} {q : Queue α} {a : α} :
    leave (x :: q) a = if x.1 = a then leave q a else x :: leave q a := by
  by_cases hx : x.1 = a <;> simp [leave, hx]

@[simp] theorem ahead_cons {x : α × Mode} {q : Queue α} {a : α} :
    ahead (x :: q) a = if x.1 = a then [] else x :: ahead q a := by
  by_cases hx : x.1 = a <;> simp [ahead, hx]

@[simp] theorem mode_cons {x : α × Mode} {q : Queue α} {a : α} :
    mode (x :: q) a = if x.1 = a then some x.2 else mode q a := by
  by_cases hx : x.1 = a <;> simp [mode, hx]

omit [DecidableEq α] in
theorem queued_iff {q : Queue α} {a : α} : Queued q a ↔ a ∈ q.map Prod.fst := by
  simp [Queued]

omit [DecidableEq α] in
@[simp] theorem queued_enqueue {q : Queue α} {a b : α} {m : Mode} :
    Queued (enqueue q a m) b ↔ Queued q b ∨ b = a := by
  simp [queued_iff, enqueue]

@[simp] theorem queued_leave {q : Queue α} {a b : α} :
    Queued (leave q a) b ↔ Queued q b ∧ b ≠ a := by
  simp only [Queued, leave, List.mem_filter, decide_eq_true_eq]
  constructor
  · rintro ⟨m, hm, hne⟩
    exact ⟨⟨m, hm⟩, hne⟩
  · rintro ⟨⟨m, hm⟩, hne⟩
    exact ⟨m, hm, hne⟩

theorem queued_of_mem_ahead {q : Queue α} {a b : α} {m : Mode} (h : (b, m) ∈ ahead q a) :
    Queued q b :=
  ⟨m, (List.takeWhile_prefix _).subset h⟩

/-- Whoever is ahead has fewer ahead of it. -/
theorem length_ahead_lt {q : Queue α} {a b : α} {m : Mode} (h : (b, m) ∈ ahead q a) :
    (ahead q b).length < (ahead q a).length := by
  induction q with
  | nil => cases h
  | cons x q ih =>
      by_cases hx : x.1 = a
      · simp [hx] at h
      · by_cases hb : x.1 = b
        · simp only [ahead_cons, if_pos hb, if_neg hx]
          simp
        · have htail : (b, m) ∈ ahead q a := by
            simp only [ahead_cons, if_neg hx, List.mem_cons] at h
            rcases h with rfl | htail
            · exact absurd rfl hb
            · exact htail
          simp [hx, hb, ih htail]

/-- Whoever is in the queue and not granted the lock has somebody ahead. -/
theorem exists_ahead {q : Queue α} {a : α} (hq : Queued q a) (h : ¬ Granted q a) :
    ∃ x, x ∈ ahead q a := by
  by_contra hnone
  have hempty : ahead q a = [] := by
    rw [List.eq_nil_iff_forall_not_mem]
    intro x hx
    exact hnone ⟨x, hx⟩
  apply h
  obtain ⟨m, hm⟩ := hq
  unfold Granted
  split
  next => exact hempty
  next =>
    intro x hx
    rw [hempty] at hx
    cases hx
  next hmode =>
    rw [mode, Option.map_eq_none_iff, List.find?_eq_none] at hmode
    simpa using hmode (a, m) hm

/-! ### A grant stays -/

theorem mem_leave {q : Queue α} {a b : α} {m : Mode} :
    (b, m) ∈ leave q a ↔ (b, m) ∈ q ∧ b ≠ a := by
  simp [leave]

omit [DecidableEq α] in
theorem mem_enqueue {q : Queue α} {a b : α} {m m' : Mode} :
    (b, m') ∈ enqueue q a m ↔ (b, m') ∈ q ∨ b = a ∧ m' = m := by
  simp [enqueue]

theorem ahead_leave {q : Queue α} {a b : α} (hab : b ≠ a) :
    ahead (leave q a) b = leave (ahead q b) a := by
  induction q with
  | nil => rfl
  | cons x q ih =>
      by_cases hx : x.1 = a
      · simp [hx, hab.symm, ih]
      · by_cases hb : x.1 = b
        · simp [hb, hab]
          rfl
        · simp [hx, hb, ih]

theorem mode_leave {q : Queue α} {a b : α} (hab : b ≠ a) : mode (leave q a) b = mode q b := by
  induction q with
  | nil => rfl
  | cons x q ih =>
      by_cases hx : x.1 = a
      · simp [hx, hab.symm, ih]
      · simp [hx, ih]

theorem ahead_enqueue {q : Queue α} {a b : α} {m m' : Mode} (h : mode q b = some m') :
    ahead (enqueue q a m) b = ahead q b := by
  induction q with
  | nil => cases h
  | cons x q ih =>
      show ahead (x :: enqueue q a m) b = ahead (x :: q) b
      by_cases hb : x.1 = b
      · simp [hb]
      · simp only [mode_cons, if_neg hb] at h
        simp [hb, ih h]

theorem mode_enqueue {q : Queue α} {a b : α} {m m' : Mode} (h : mode q b = some m') :
    mode (enqueue q a m) b = some m' := by
  induction q with
  | nil => cases h
  | cons x q ih =>
      show mode (x :: enqueue q a m) b = some m'
      by_cases hb : x.1 = b
      · simpa [hb] using h
      · simp only [mode_cons, if_neg hb] at h
        simp [hb, ih h]

theorem Granted.mode {q : Queue α} {a : α} (h : Granted q a) : ∃ m, mode q a = some m := by
  cases hm : LockOrder.mode q a with
  | none =>
      rw [Granted, hm] at h
      exact h.elim
  | some m => exact ⟨m, rfl⟩

theorem Granted.leave {q : Queue α} {a b : α} (h : Granted q b) (hab : b ≠ a) :
    Granted (leave q a) b := by
  obtain ⟨m, hm⟩ := h.mode
  rw [Granted, hm] at h
  rw [Granted, mode_leave hab, hm, ahead_leave hab]
  cases m with
  | write =>
      rw [show ahead q b = [] from h]
      rfl
  | read =>
      intro x hx
      exact h x (List.mem_filter.mp hx).1

theorem Granted.enqueue {q : Queue α} {a b : α} {m : Mode} (h : Granted q b) :
    Granted (enqueue q a m) b := by
  obtain ⟨m', hm'⟩ := h.mode
  rw [Granted, hm'] at h
  rw [Granted, mode_enqueue hm', ahead_enqueue hm']
  exact h

/-- A writer that has the lock is the first of the queue. -/
theorem Granted.first {q : Queue α} {a : α} (h : Granted q a)
    (hm : LockOrder.mode q a = some .write) :
    ∃ m rest, q = (a, m) :: rest := by
  rw [Granted, hm] at h
  cases q with
  | nil => cases hm
  | cons x rest =>
      by_cases hx : x.1 = a
      · exact ⟨x.2, rest, by rw [← hx]⟩
      · simp [hx] at h

/-! ## The wait graph -/

/-- `a` asks for a lock it is not granted, and `b` is ahead of it. -/
def WaitsFor (queue : κ → Queue α) (asks : α → Option κ) (a b : α) : Prop :=
  ∃ l, asks a = some l ∧ ¬ Granted (queue l) a ∧ ∃ m, (b, m) ∈ ahead (queue l) a

/-- Whoever asks for a lock is in its queue, and else in those of locks of a lower rank. -/
structure Ordered (rank : κ → Nat) (queue : κ → Queue α) (asks : α → Option κ) : Prop where
  queued : ∀ a l, asks a = some l → Queued (queue l) a
  rank : ∀ a l l', asks a = some l → Queued (queue l') a → l' ≠ l → rank l' < rank l

/-- `b`, which asks for `l'`, is closer to getting on than `a`, which asks for `l`. -/
def Closer (rank : κ → Nat) (queue : κ → Queue α) (a : α) (l : κ) (b : α) (l' : κ) : Prop :=
  rank l < rank l' ∨ l' = l ∧ (ahead (queue l) b).length < (ahead (queue l) a).length

section

variable {rank : κ → Nat} {queue : κ → Queue α} {asks : α → Option κ}

theorem WaitsFor.closer (h : Ordered rank queue asks) {a b : α} {l l' : κ}
    (hw : WaitsFor queue asks a b) (ha : asks a = some l) (hb : asks b = some l') :
    Closer rank queue a l b l' := by
  obtain ⟨l₀, ha₀, -, m, hm⟩ := hw
  obtain rfl : l = l₀ := Option.some.inj (ha.symm.trans ha₀)
  by_cases hl : l' = l
  · exact .inr ⟨hl, length_ahead_lt hm⟩
  · exact .inl (h.rank b l' l hb (queued_of_mem_ahead hm) (Ne.symm hl))

theorem Closer.trans {a b c : α} {l l' l'' : κ} (h : Closer rank queue a l b l')
    (h' : Closer rank queue b l' c l'') : Closer rank queue a l c l'' := by
  rcases h with hlt | ⟨rfl, hlt⟩
  · rcases h' with hlt' | ⟨rfl, -⟩
    · exact .inl (Nat.lt_trans hlt hlt')
    · exact .inl hlt
  · rcases h' with hlt' | ⟨rfl, hlt'⟩
    · exact .inl hlt'
    · exact .inr ⟨rfl, Nat.lt_trans hlt' hlt⟩

theorem transGen_closer (h : Ordered rank queue asks) {a b : α} {l l' : κ}
    (hw : Relation.TransGen (WaitsFor queue asks) a b) (ha : asks a = some l)
    (hb : asks b = some l') : Closer rank queue a l b l' := by
  induction hw generalizing l' with
  | single hab => exact hab.closer h ha hb
  | tail _ hbc ih =>
      obtain ⟨l₁, hl₁, -⟩ := id hbc
      exact (ih hl₁).trans (hbc.closer h hl₁ hb)

/-- Nobody waits in a circle. -/
theorem acyclic (h : Ordered rank queue asks) (a : α) :
    ¬ Relation.TransGen (WaitsFor queue asks) a a := by
  intro hw
  obtain ⟨b, ⟨l, ha, -⟩, -⟩ := Relation.TransGen.head'_iff.mp hw
  rcases transGen_closer h hw ha ha with hlt | ⟨-, hlt⟩
  · exact Nat.lt_irrefl _ hlt
  · exact Nat.lt_irrefl _ hlt

/-- Behind everybody there is somebody who waits for nobody. -/
theorem exists_free (h : Ordered rank queue asks) {n : Nat} (hn : ∀ l, rank l ≤ n) (a : α) :
    ∃ b, Relation.ReflTransGen (WaitsFor queue asks) a b ∧ ∀ c, ¬ WaitsFor queue asks b c := by
  have hlock : ∀ (k i : Nat) (a : α) (l : κ), asks a = some l → n - rank l = k →
      (ahead (queue l) a).length = i →
      ∃ b, Relation.ReflTransGen (WaitsFor queue asks) a b ∧
        ∀ c, ¬ WaitsFor queue asks b c := by
    intro k
    induction k using Nat.strongRecOn with
    | ind k ihk =>
        intro i
        induction i using Nat.strongRecOn with
        | ind i ihi =>
            intro a l ha hk hi
            by_cases hfree : ∀ c, ¬ WaitsFor queue asks a c
            · exact ⟨a, .refl, hfree⟩
            · obtain ⟨c, hc⟩ : ∃ c, WaitsFor queue asks a c := by
                simpa using hfree
              cases hasks : asks c with
              | none =>
                  refine ⟨c, .single hc, ?_⟩
                  rintro d ⟨l', hl', -⟩
                  rw [hasks] at hl'
                  cases hl'
              | some l' =>
                  obtain ⟨b, hb, hfree'⟩ : ∃ b, Relation.ReflTransGen (WaitsFor queue asks) c b ∧
                      ∀ d, ¬ WaitsFor queue asks b d := by
                    rcases hc.closer h ha hasks with hlt | ⟨rfl, hlt⟩
                    · have hle := hn l'
                      exact ihk (n - rank l') (by omega) _ c l' hasks rfl rfl
                    · exact ihi _ (by omega) c l' hasks hk rfl
                  exact ⟨b, .head hc hb, hfree'⟩
  cases hasks : asks a with
  | none =>
      refine ⟨a, .refl, ?_⟩
      rintro c ⟨l, hl, -⟩
      rw [hasks] at hl
      cases hl
  | some l => exact hlock _ _ a l hasks rfl rfl

/-! ### Waiting for somebody to end -/

/-- `a` waits for a lock, or it joins `b`: it waits until `b` has ended. -/
def Waits (queue : κ → Queue α) (asks : α → Option κ) (joins : α → α → Prop) (a b : α) : Prop :=
  WaitsFor queue asks a b ∨ joins a b

variable {joins : α → α → Prop}

/-- Nobody waits in a circle when whoever is joined waits for nobody. -/
theorem acyclic_joins (h : Ordered rank queue asks)
    (hj : ∀ a b, joins a b → ∀ c, ¬ Waits queue asks joins b c) (a : α) :
    ¬ Relation.TransGen (Waits queue asks joins) a a := by
  have hlocks : ∀ {b}, Relation.TransGen (Waits queue asks joins) a b →
      (∃ c, Waits queue asks joins b c) → Relation.TransGen (WaitsFor queue asks) a b := by
    intro b hab
    induction hab with
    | single hab =>
        rintro ⟨c, hc⟩
        rcases hab with hwait | hjoin
        · exact .single hwait
        · exact absurd hc (hj _ _ hjoin c)
    | tail _ hbc ih =>
        rintro ⟨d, hd⟩
        rcases id hbc with hwait | hjoin
        · exact (ih ⟨_, hbc⟩).tail hwait
        · exact absurd hd (hj _ _ hjoin d)
  intro hcycle
  obtain ⟨b, hab, -⟩ := Relation.TransGen.head'_iff.mp hcycle
  exact acyclic h a (hlocks hcycle ⟨b, hab⟩)

theorem exists_free_joins (h : Ordered rank queue asks) {n : Nat} (hn : ∀ l, rank l ≤ n)
    (hj : ∀ a b, joins a b → ∀ c, ¬ Waits queue asks joins b c) (a : α) :
    ∃ b, Relation.ReflTransGen (Waits queue asks joins) a b ∧
      ∀ c, ¬ Waits queue asks joins b c := by
  obtain ⟨b, hab, hfree⟩ := exists_free h hn a
  have hab' : Relation.ReflTransGen (Waits queue asks joins) a b :=
    Relation.ReflTransGen.mono (fun _ _ h => Or.inl h) _ _ hab
  by_cases hjoin : ∃ c, joins b c
  · obtain ⟨c, hc⟩ := hjoin
    exact ⟨c, hab'.tail (.inr hc), hj b c hc⟩
  · refine ⟨b, hab', ?_⟩
    rintro c (hwait | hc)
    · exact hfree c hwait
    · exact hjoin ⟨c, hc⟩

end

/-! ## Program points and locks -/

/-- What a program holds and asks for at each of its points, the locks in the order of
their ranks. -/
structure Discipline (π κ : Type*) where
  asks : π → Option (κ × Mode)
  holds : π → List (κ × Mode)
  rank : κ → Nat
  nodup : ∀ p, ((holds p).map Prod.fst).Nodup
  ordered : ∀ p x, asks p = some x → ∀ y ∈ holds p, rank y.1 < rank x.1

namespace Discipline

variable (D : Discipline π κ)

/-- The locks in whose queues a party is. -/
def footprint (p : π) : List (κ × Mode) := (D.asks p).toList ++ D.holds p

/-- The queues are those of parties at these points, and whoever holds a lock was granted it. -/
structure Sound (queue : κ → Queue α) (place : α → π) : Prop where
  mem_iff : ∀ a l m, (a, m) ∈ queue l ↔ (l, m) ∈ D.footprint (place a)
  granted : ∀ a l m, (l, m) ∈ D.holds (place a) → Granted (queue l) a

variable {D}

theorem mem_footprint {p : π} {x : κ × Mode} :
    x ∈ D.footprint p ↔ D.asks p = some x ∨ x ∈ D.holds p := by
  simp [footprint, Option.mem_toList]

theorem not_held_of_asks {p : π} {l : κ} {m m' : Mode} (h : D.asks p = some (l, m)) :
    (l, m') ∉ D.holds p := by
  intro hm
  exact Nat.lt_irrefl _ (D.ordered p (l, m) h (l, m') hm)

/-- A party is in a queue once. -/
theorem mode_unique {p : π} {l : κ} {m m' : Mode} (h : (l, m) ∈ D.footprint p)
    (h' : (l, m') ∈ D.footprint p) : m = m' := by
  rcases mem_footprint.mp h with hasks | hheld
  · rcases mem_footprint.mp h' with hasks' | hheld'
    · exact congrArg Prod.snd (Option.some.inj (hasks.symm.trans hasks'))
    · exact absurd hheld' (not_held_of_asks hasks)
  · rcases mem_footprint.mp h' with hasks' | hheld'
    · exact absurd hheld (not_held_of_asks hasks')
    · exact congrArg Prod.snd (List.inj_on_of_nodup_map (D.nodup p) hheld hheld' rfl)

variable {queue : κ → Queue α} {place : α → π} {a b : α} {p : π} {l : κ}

namespace Sound

/-- The mode in which a party is in a queue. -/
theorem mode_eq (h : D.Sound queue place) {m : Mode} (hm : (l, m) ∈ D.footprint (place a)) :
    mode (queue l) a = some m := by
  have hmem := (h.mem_iff a l m).mpr hm
  cases hfind : (queue l).find? fun x => x.1 = a with
  | none =>
      rw [List.find?_eq_none] at hfind
      simpa using hfind (a, m) hmem
  | some x =>
      obtain ⟨b, m'⟩ := x
      obtain rfl : b = a := by
        simpa using List.find?_some hfind
      have hm' := (h.mem_iff b l m').mp (List.mem_of_find?_eq_some hfind)
      rw [mode, hfind, mode_unique hm hm']
      rfl

/-- *Exclusion.*  One writer at a time is granted a lock. -/
theorem exclusive (h : D.Sound queue place) (ha : (l, .write) ∈ D.footprint (place a))
    (hb : (l, .write) ∈ D.footprint (place b)) (hga : Granted (queue l) a)
    (hgb : Granted (queue l) b) : a = b := by
  obtain ⟨m, rest, hq⟩ := hga.first (h.mode_eq ha)
  obtain ⟨m', rest', hq'⟩ := hgb.first (h.mode_eq hb)
  rw [hq] at hq'
  exact congrArg Prod.fst (List.cons.inj hq').1

/-- A party that appears, at a point without locks. -/
theorem appear (h : D.Sound queue place) (hold : D.footprint (place a) = [])
    (hnew : D.footprint p = []) : D.Sound queue (Function.update place a p) where
  mem_iff b l m := by
    by_cases hb : b = a
    · subst hb
      rw [Function.update_self, h.mem_iff, hold, hnew]
    · rw [Function.update_of_ne hb]
      exact h.mem_iff b l m
  granted b l m hm := by
    by_cases hb : b = a
    · subst hb
      rw [Function.update_self] at hm
      have hmem : (l, m) ∈ D.footprint p := mem_footprint.mpr (.inr hm)
      rw [hnew] at hmem
      cases hmem
    · rw [Function.update_of_ne hb] at hm
      exact h.granted b l m hm

/-- Whoever waits does so in the order of the ranks. -/
theorem ordered (h : D.Sound queue place) {asks : α → Option κ}
    (hasks : ∀ a l, asks a = some l → ∃ m, D.asks (place a) = some (l, m)) :
    Ordered D.rank queue asks where
  queued a l hl := by
    obtain ⟨m, hm⟩ := hasks a l hl
    exact ⟨m, (h.mem_iff a l m).mpr (mem_footprint.mpr (.inl hm))⟩
  rank a l l' hl hq hne := by
    obtain ⟨m, hm⟩ := hasks a l hl
    obtain ⟨m', hm'⟩ := hq
    rcases mem_footprint.mp ((h.mem_iff a l' m').mp hm') with hasks' | hheld
    · rw [hm] at hasks'
      exact absurd (congrArg Prod.fst (Option.some.inj hasks')).symm hne
    · exact D.ordered _ _ hm _ hheld

end Sound

/-! ### A step -/

variable [DecidableEq κ]

variable (D) in
/-- The queues after `a` has come to the point `p`. -/
def requeue (queue : κ → Queue α) (a : α) (p : π) (l : κ) : Queue α :=
  if l ∈ (D.holds p).map Prod.fst then queue l
  else
    match D.asks p with
    | none => leave (queue l) a
    | some x => if x.1 = l then enqueue (leave (queue l) a) a x.2 else leave (queue l) a

theorem mem_requeue_of_ne {m : Mode} (hb : b ≠ a) :
    (b, m) ∈ D.requeue queue a p l ↔ (b, m) ∈ queue l := by
  unfold requeue
  split
  · rfl
  · split
    · simp [mem_leave, hb]
    · split
      · simp [mem_enqueue, mem_leave, hb]
      · simp [mem_leave, hb]

theorem granted_requeue_of_ne (h : Granted (queue l) b) (hb : b ≠ a) :
    Granted (D.requeue queue a p l) b := by
  unfold requeue
  split
  · exact h
  · split
    · exact h.leave hb
    · split
      · exact (h.leave hb).enqueue
      · exact h.leave hb

theorem mem_requeue_self {m : Mode} :
    (a, m) ∈ D.requeue queue a p l ↔
      D.asks p = some (l, m) ∨ (∃ m', (l, m') ∈ D.holds p) ∧ (a, m) ∈ queue l := by
  have hheld : l ∈ (D.holds p).map Prod.fst ↔ ∃ m', (l, m') ∈ D.holds p := by
    simp
  unfold requeue
  split
  next hl =>
    have hnot : D.asks p ≠ some (l, m) := by
      intro hasks
      obtain ⟨m', hm'⟩ := hheld.mp hl
      exact not_held_of_asks hasks hm'
    simp [hnot, hheld.mp hl]
  next hl =>
    rw [hheld] at hl
    cases hasks : D.asks p with
    | none => simp [mem_leave, hl]
    | some x =>
        obtain ⟨l', m'⟩ := x
        by_cases hx : l' = l
        · simp [hx, mem_enqueue, mem_leave, hl, eq_comm]
        · simp [hx, mem_leave, hl]

/-- A step to a point that holds only locks that were held or granted. -/
theorem Sound.move (h : D.Sound queue place) (hheld : D.holds p ⊆ D.footprint (place a))
    (hgranted : ∀ x ∈ D.holds p, D.asks (place a) = some x → Granted (queue x.1) a) :
    D.Sound (D.requeue queue a p) (Function.update place a p) where
  mem_iff b l m := by
    by_cases hb : b = a
    · subst hb
      rw [mem_requeue_self, Function.update_self, mem_footprint]
      refine or_congr_right ⟨?_, ?_⟩
      · rintro ⟨⟨m', hm'⟩, hm⟩
        rwa [mode_unique ((h.mem_iff b l m).mp hm) (hheld hm')]
      · intro hm
        exact ⟨⟨m, hm⟩, (h.mem_iff b l m).mpr (hheld hm)⟩
    · rw [mem_requeue_of_ne hb, Function.update_of_ne hb]
      exact h.mem_iff b l m
  granted b l m hm := by
    by_cases hb : b = a
    · subst hb
      rw [Function.update_self] at hm
      have hkeep : D.requeue queue b p l = queue l := if_pos (List.mem_map_of_mem hm)
      rw [hkeep]
      rcases mem_footprint.mp (hheld hm) with hasks | hold
      · exact hgranted (l, m) hm hasks
      · exact h.granted b l m hold
    · rw [Function.update_of_ne hb] at hm
      exact granted_requeue_of_ne (h.granted b l m hm) hb

end Discipline

end LockOrder

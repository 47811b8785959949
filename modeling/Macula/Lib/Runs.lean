import Mathlib.Logic.Basic

/-!
# Runs of a transition function

`step s e = some s'` when the event `e` can happen in `s` and leads to `s'`.  A run is a
list of events.  The order of the events is the interleaving: a statement about all lists
of events is a statement about all interleavings.

`Guarded` says that each event of a run meets a condition in the state it happens in, and
`run_invariant` is the induction: what one guarded step preserves, a guarded run preserves.
`good_iff_guarded` is for a guard that is exact: without it the next state is bad.
-/

section Runs

variable {σ ε : Type*} (step : σ → ε → Option σ)

/-- The state after the events, if each of them can happen when its turn comes. -/
def run : σ → List ε → Option σ
  | s, [] => some s
  | s, e :: es => (step s e).bind (fun s' => run s' es)

/-- The state a run of `es` ends in; `s` when they cannot all happen. -/
def runFrom (s : σ) (es : List ε) : σ := (run step s es).getD s

/-- `guard` holds of every event of the run, in the state before it. -/
def Guarded (guard : σ → ε → Prop) : σ → List ε → Prop
  | _, [] => True
  | s, e :: es => guard s e ∧ ∀ s' ∈ step s e, Guarded guard s' es

instance decidableGuarded (guard : σ → ε → Prop) [∀ s e, Decidable (guard s e)] :
    ∀ (s : σ) (es : List ε), Decidable (Guarded step guard s es)
  | _, [] => inferInstanceAs (Decidable True)
  | s, e :: es =>
    have : ∀ s', Decidable (Guarded step guard s' es) :=
      fun s' => decidableGuarded guard s' es
    inferInstanceAs (Decidable (guard s e ∧ ∀ s' ∈ step s e, Guarded step guard s' es))

variable {step}

theorem run_cons {s s' : σ} {e : ε} {es : List ε} :
    run step s (e :: es) = some s' ↔ ∃ s₁, step s e = some s₁ ∧ run step s₁ es = some s' :=
  Option.bind_eq_some_iff

theorem run_append {s s' s'' : σ} : ∀ {pre post : List ε}, run step s pre = some s' →
    run step s' post = some s'' → run step s (pre ++ post) = some s'' := by
  intro pre post hpre hpost
  induction pre generalizing s with
  | nil =>
    cases hpre
    exact hpost
  | cons e pre ih =>
    obtain ⟨s₁, he, hrest⟩ := run_cons.mp hpre
    exact run_cons.mpr ⟨s₁, he, ih hrest⟩

theorem run_eq_runFrom {s : σ} {es : List ε} (h : (run step s es).isSome = true) :
    run step s es = some (runFrom step s es) := by
  obtain ⟨s', hs'⟩ := Option.isSome_iff_exists.mp h
  rw [runFrom, hs']
  rfl

theorem step_eq_runFrom {s : σ} {e : ε} (h : (step s e).isSome = true) :
    step s e = some (runFrom step s [e]) := by
  obtain ⟨s', hs'⟩ := Option.isSome_iff_exists.mp h
  rw [runFrom, run, hs']
  rfl

theorem Guarded.of_initial {guard : σ → ε → Prop} : ∀ {pre es : List ε} {s : σ}, pre <+: es →
    Guarded step guard s es → Guarded step guard s pre := by
  intro pre
  induction pre with
  | nil => exact fun _ _ => trivial
  | cons e pre ih =>
    intro es s hpre hg
    cases es with
    | nil => exact absurd (List.prefix_nil.mp hpre) (List.cons_ne_nil _ _)
    | cons e' es =>
      obtain ⟨rfl, htail⟩ := List.cons_prefix_cons.mp hpre
      exact ⟨hg.1, fun s' he => ih htail (hg.2 s' he)⟩

/-- What every guarded step preserves holds at the end of every guarded run. -/
theorem run_invariant {guard : σ → ε → Prop} (inv : σ → Prop)
    (preserved : ∀ s e s', inv s → guard s e → step s e = some s' → inv s') :
    ∀ {es : List ε} {s s' : σ}, inv s → Guarded step guard s es → run step s es = some s' →
      inv s' := by
  intro es
  induction es with
  | nil =>
    intro s s' hi _ h
    cases h
    exact hi
  | cons e es ih =>
    intro s s' hi hg h
    obtain ⟨s₁, he, hes⟩ := run_cons.mp h
    obtain ⟨hguard, hrest⟩ := hg
    exact ih (preserved s e s₁ hi hguard he) (hrest s₁ he) hes

theorem guarded_true : ∀ (es : List ε) (s : σ), Guarded step (fun _ _ => True) s es := by
  intro es
  induction es with
  | nil => exact fun _ => trivial
  | cons e es ih => exact fun _ => ⟨trivial, fun s' _ => ih s'⟩

theorem guarded_of_forall {p : ε → Prop} : ∀ {es : List ε} {s : σ}, (∀ e ∈ es, p e) →
    Guarded step (fun _ e => p e) s es := by
  intro es
  induction es with
  | nil => exact fun _ => trivial
  | cons e es ih =>
    intro s h
    obtain ⟨he, hes⟩ := List.forall_mem_cons.mp h
    exact ⟨he, fun _ _ => ih hes⟩

/-- A run without a guard. -/
theorem run_invariant_of_step (inv : σ → Prop)
    (preserved : ∀ s e s', inv s → step s e = some s' → inv s') {es : List ε} {s s' : σ}
    (hi : inv s) (h : run step s es = some s') : inv s' :=
  run_invariant inv (fun s e s' hi _ he => preserved s e s' hi he) hi (guarded_true es s) h

/-- *A guard that is exact.*  When guarded steps keep an invariant that implies `good`, and an
unguarded step can happen and ends the good, then the states of a run are good if and only if
the run is guarded. -/
theorem good_iff_guarded {guard : σ → ε → Prop} (inv good : σ → Prop)
    (preserved : ∀ s e s', inv s → guard s e → step s e = some s' → inv s')
    (sound : ∀ s, inv s → good s)
    (tight : ∀ s e, inv s → ¬ guard s e → ∃ s', step s e = some s' ∧ ¬ good s') :
    ∀ {es : List ε} {s : σ}, inv s →
      ((∀ pre s', pre <+: es → run step s pre = some s' → good s') ↔ Guarded step guard s es) := by
  intro es
  induction es with
  | nil =>
    intro s hi
    refine ⟨fun _ => trivial, fun _ pre s' hpre hrun => ?_⟩
    obtain rfl := List.prefix_nil.mp hpre
    cases hrun
    exact sound s hi
  | cons e es ih =>
    intro s hi
    constructor
    · intro hgood
      have hguard : guard s e := by
        refine Classical.byContradiction (fun hbad => ?_)
        obtain ⟨s', he, hnot⟩ := tight s e hi hbad
        exact hnot (hgood [e] s' (List.cons_prefix_cons.mpr ⟨rfl, List.nil_prefix⟩)
          (run_cons.mpr ⟨s', he, rfl⟩))
      refine ⟨hguard, fun s' he => ?_⟩
      refine (ih (preserved s e s' hi hguard he)).mp (fun pre s'' hpre hrun => ?_)
      exact hgood (e :: pre) s'' (List.cons_prefix_cons.mpr ⟨rfl, hpre⟩)
        (run_cons.mpr ⟨s', he, hrun⟩)
    · intro hg pre s' hpre hrun
      exact sound s' (run_invariant inv preserved hi (hg.of_initial hpre) hrun)

/-- What respects a view still does behind a step. -/
theorem bind_congr_view {α : Type*} {view : σ → α} {o o' : Option σ} {f : σ → Option σ}
    (h : o.map view = o'.map view)
    (hf : ∀ s s', view s = view s' → (f s).map view = (f s').map view) :
    (o.bind f).map view = (o'.bind f).map view := by
  cases o with
  | none =>
      have hnone : o' = none := by
        simpa using h.symm
      rw [hnone]
  | some s =>
      obtain ⟨s', rfl, hview⟩ : ∃ s', o' = some s' ∧ view s' = view s := by
        simpa using h.symm
      exact hf s s' hview.symm

/-- *Two runs.*  When a step shows no more of a state than `view` does, runs of the same events
from states with the same view end in states with the same view. -/
theorem run_congr {α : Type*} {view : σ → α}
    (congr : ∀ s s' e, view s = view s' → (step s e).map view = (step s' e).map view) :
    ∀ (es : List ε) (s s' : σ), view s = view s' →
      (run step s es).map view = (run step s' es).map view := by
  intro es
  induction es with
  | nil =>
      intro s s' h
      simp [run, h]
  | cons e es ih =>
      intro s s' h
      exact bind_congr_view (congr s s' e h) ih

/-- Two runs that only begin with different events. -/
theorem run_congr_cons {α : Type*} {view : σ → α}
    (congr : ∀ s s' e, view s = view s' → (step s e).map view = (step s' e).map view)
    {s s' : σ} {e e' : ε} (h : (step s e).map view = (step s' e').map view) (es : List ε) :
    (run step s (e :: es)).map view = (run step s' (e' :: es)).map view :=
  bind_congr_view h (run_congr congr es)

end Runs

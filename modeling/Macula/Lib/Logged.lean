import Macula.Lib.Outcome

/-!
# Computations that leave a log

A `Logged` computation has a log of what it has done besides its outcome.  The log stays when
the computation fails or panics, so that it also says what was done before the failure.

`Allowed` is a rule for logs: each entry is permitted by the entries before it.  The rule is
proved of a computation along its steps (`Allowed.bind`, `Allowed.after`).
-/

structure Logged (ω ε α : Type) where
  log : List ω
  result : Outcome ε α

namespace Logged

variable {ω ε ε' α β : Type}

protected def bind (x : Logged ω ε α) (f : α → Logged ω ε β) : Logged ω ε β :=
  match x.result with
  | .ok a => ⟨x.log ++ (f a).log, (f a).result⟩
  | .err e => ⟨x.log, .err e⟩
  | .panicked => ⟨x.log, .panicked⟩

instance : Monad (Logged ω ε) where
  pure a := ⟨[], .ok a⟩
  bind := Logged.bind

/-- A computation that is not logged. -/
def quiet (x : Outcome ε α) : Logged ω ε α := ⟨[], x⟩

/-- A computation with one entry. -/
def noted (entry : ω) (x : Outcome ε α) : Logged ω ε α := ⟨[entry], x⟩

def mapErr (f : ε → ε') (x : Logged ω ε α) : Logged ω ε' α := ⟨x.log, x.result.mapErr f⟩

/-- `let result = x; next; result`. -/
def after (x : Logged ω ε α) (next : Logged ω ε Unit) : Logged ω ε α :=
  match x.result with
  | .panicked => x
  | _ => ⟨x.log ++ next.log, x.result.after fun _ => next.result⟩

/-- `next` when `x` fails, and then its error. -/
def onErr (x : Logged ω ε α) (next : Logged ω ε Unit) : Logged ω ε α :=
  match x.result with
  | .err _ => x.after next
  | _ => x

@[simp] theorem result_pure (a : α) : (pure a : Logged ω ε α).result = .ok a := rfl

@[simp] theorem result_quiet (x : Outcome ε α) : (quiet x : Logged ω ε α).result = x := rfl

@[simp] theorem result_noted (entry : ω) (x : Outcome ε α) : (noted entry x).result = x := rfl

@[simp] theorem result_mapErr (f : ε → ε') (x : Logged ω ε α) :
    (x.mapErr f).result = x.result.mapErr f := rfl

@[simp] theorem result_bind (x : Logged ω ε α) (f : α → Logged ω ε β) :
    (x >>= f).result = x.result >>= fun a => (f a).result := by
  show (Logged.bind x f).result = _
  unfold Logged.bind
  split
  · next h => rw [h, Outcome.ok_bind]
  · next h => rw [h, Outcome.err_bind]
  · next h => rw [h, Outcome.panicked_bind]

theorem log_bind {x : Logged ω ε α} {f : α → Logged ω ε β} {a : α} (h : x.result = .ok a) :
    (x >>= f).log = x.log ++ (f a).log := by
  show (Logged.bind x f).log = _
  rw [Logged.bind, h]

@[simp] theorem result_after (x : Logged ω ε α) (next : Logged ω ε Unit) :
    (x.after next).result = x.result.after fun _ => next.result := by
  unfold after
  split
  · next h => rw [h]; rfl
  · rfl

/-! ## Rules for logs -/

/-- `P before entry` for every entry of the log, with what comes before it. -/
inductive AllowedFrom (P : List ω → ω → Prop) : (before log : List ω) → Prop where
  | nil (before : List ω) : AllowedFrom P before []
  | cons {before log : List ω} {entry : ω} : P before entry →
      AllowedFrom P (before ++ [entry]) log → AllowedFrom P before (entry :: log)

/-- The log of the computation goes by the rule, after the log `before`. -/
def Allowed (P : List ω → ω → Prop) (before : List ω) (x : Logged ω ε α) : Prop :=
  AllowedFrom P before x.log

variable {P : List ω → ω → Prop} {before : List ω}

theorem AllowedFrom.append {log log' : List ω} (h : AllowedFrom P before log)
    (h' : AllowedFrom P (before ++ log) log') : AllowedFrom P before (log ++ log') := by
  induction h with
  | nil before =>
      rw [List.append_nil] at h'
      exact h'
  | cons hentry _ ih =>
      refine .cons hentry (ih ?_)
      rwa [List.append_assoc, List.singleton_append]

namespace Allowed

theorem quiet (x : Outcome ε α) : Allowed P before (quiet x) := .nil before

theorem noted {entry : ω} (h : P before entry) (x : Outcome ε α) :
    Allowed P before (noted entry x) :=
  .cons h (.nil _)

theorem mapErr {f : ε → ε'} {x : Logged ω ε α} (h : Allowed P before x) :
    Allowed P before (x.mapErr f) :=
  h

theorem bind {x : Logged ω ε α} {f : α → Logged ω ε β} (hx : Allowed P before x)
    (hf : ∀ a, x.result = .ok a → Allowed P (before ++ x.log) (f a)) :
    Allowed P before (x >>= f) := by
  show AllowedFrom P before (Logged.bind x f).log
  unfold Logged.bind
  split
  · next a h => exact AllowedFrom.append hx (hf a h)
  · exact hx
  · exact hx

theorem after {x : Logged ω ε α} {next : Logged ω ε Unit} (hx : Allowed P before x)
    (hnext : Allowed P (before ++ x.log) next) : Allowed P before (x.after next) := by
  show AllowedFrom P before (Logged.after x next).log
  unfold Logged.after
  split
  · exact hx
  · exact AllowedFrom.append hx hnext

theorem onErr {x : Logged ω ε α} {next : Logged ω ε Unit} (hx : Allowed P before x)
    (hnext : Allowed P (before ++ x.log) next) : Allowed P before (x.onErr next) := by
  unfold Logged.onErr
  split
  · exact hx.after hnext
  · exact hx

end Allowed

end Logged

import Mathlib.Data.List.Basic
import Mathlib.Logic.Function.Basic

/-!
# A directory of files

An entry of a directory leads from a name to a file.  Who has a file open reaches it without its
name, and goes on writing to it after the name has passed to another file.  No two names lead to
one file, so an operation on one name leaves what another name leads to alone (`Unchanged`).

Opening a file for writing creates it or truncates it; the bytes come later, piece by piece.
Renaming is one step.
-/

/-- `ν` are the names and `α` the bytes. -/
structure Directory (ν α : Type*) where
  entry : ν → Option Nat
  content : Nat → List α
  /-- Only the owner may read and write the file. -/
  ownerOnly : Nat → Bool
  /-- No file from here on is in use. -/
  fresh : Nat
  entry_lt : ∀ {n f}, entry n = some f → f < fresh
  entry_inj : ∀ {m n f}, entry m = some f → entry n = some f → m = n

namespace Directory

variable {ν α : Type*}

/-! ## Operations -/

def empty : Directory ν α where
  entry _ := none
  content _ := []
  ownerOnly _ := false
  fresh := 0
  entry_lt := nofun
  entry_inj := nofun

/-- What the file under a name holds. -/
def read (d : Directory ν α) (n : ν) : Option (List α) := (d.entry n).map d.content

/-- The file that opening a name for writing leads to. -/
def opened (d : Directory ν α) (n : ν) : Nat := (d.entry n).getD d.fresh

/-- Opens a name for writing: the file is there afterwards, and empty. -/
def create [DecidableEq ν] (d : Directory ν α) (n : ν) : Directory ν α where
  entry := Function.update d.entry n (some (d.opened n))
  content := Function.update d.content (d.opened n) []
  ownerOnly :=
    Function.update d.ownerOnly (d.opened n) ((d.entry n).isSome && d.ownerOnly (d.opened n))
  fresh := d.fresh + 1
  entry_lt := by
    intro m f h
    rw [Function.update_apply] at h
    split at h
    · obtain rfl := Option.some.inj h
      cases hn : d.entry n with
      | none => simp [opened, hn]
      | some g => simpa [opened, hn] using Nat.lt_succ_of_lt (d.entry_lt hn)
    · exact Nat.lt_succ_of_lt (d.entry_lt h)
  entry_inj := by
    have hopened : ∀ {m}, d.entry m = some (d.opened n) → m = n := by
      intro m hm
      cases hn : d.entry n with
      | none => exact absurd (d.entry_lt hm) (by simp [opened, hn])
      | some g => exact d.entry_inj hm (by simp [opened, hn])
    intro m m' f h h'
    rw [Function.update_apply] at h h'
    split at h
    · next hm =>
        split at h'
        · next hm' => rw [hm, hm']
        · rw [hm, hopened (h'.trans h.symm)]
    · split at h'
      · next hm' => rw [hm', hopened (h.trans h'.symm)]
      · exact d.entry_inj h h'

/-- `b` over the bytes from position `offset` on.  Where the bytes end before that, the gap reads
as `default`. -/
def overwrite [Inhabited α] (bytes : List α) (offset : Nat) (b : List α) : List α :=
  (bytes ++ List.replicate (offset - bytes.length) default).take offset ++ b ++
    bytes.drop (offset + b.length)

/-- Writes to an open file. -/
def writeAt [Inhabited α] (d : Directory ν α) (f offset : Nat) (b : List α) : Directory ν α :=
  { d with content := Function.update d.content f (overwrite (d.content f) offset b) }

/-- Opens a name and writes to it, with nobody in between. -/
def put [DecidableEq ν] [Inhabited α] (d : Directory ν α) (n : ν) (b : List α) : Directory ν α :=
  (d.create n).writeAt (d.opened n) 0 b

/-- Takes all rights to the file under a name from everybody but its owner. -/
def restrict (d : Directory ν α) (n : ν) : Option (Directory ν α) :=
  (d.entry n).map fun f => { d with ownerOnly := Function.update d.ownerOnly f true }

/-- The file under `m` is under `n` instead.  Nothing happens when they are the same name. -/
def move [DecidableEq ν] (d : Directory ν α) (m n : ν) : Directory ν α where
  entry x := if x = n then d.entry m else if x = m then none else d.entry x
  content := d.content
  ownerOnly := d.ownerOnly
  fresh := d.fresh
  entry_lt := by
    intro x f h
    split at h
    · exact d.entry_lt h
    · split at h
      · cases h
      · exact d.entry_lt h
  entry_inj := by
    intro x y f hx hy
    split at hx
    · next hxn =>
        split at hy
        · next hyn => rw [hxn, hyn]
        · split at hy
          · cases hy
          · next hym => exact absurd (d.entry_inj hy hx) hym
    · split at hx
      · cases hx
      · next hxm =>
          split at hy
          · exact absurd (d.entry_inj hx hy) hxm
          · split at hy
            · cases hy
            · exact d.entry_inj hx hy

/-- `rename` replaces what is under `n` in one step.  There has to be a file under `m`. -/
def rename [DecidableEq ν] (d : Directory ν α) (m n : ν) : Option (Directory ν α) :=
  if (d.entry m).isSome then some (d.move m n) else none

/-! ## What an operation does to its own name -/

section

variable {d d' : Directory ν α} {m n : ν} {f : Nat}

@[simp] theorem read_empty : (empty : Directory ν α).read n = none := rfl

theorem read_of_entry (h : d.entry n = some f) : d.read n = some (d.content f) := by
  rw [read, h]
  rfl

@[simp] theorem entry_create [DecidableEq ν] : (d.create n).entry n = some (d.opened n) := by
  simp [create]

@[simp] theorem content_create [DecidableEq ν] : (d.create n).content (d.opened n) = [] := by
  simp [create]

@[simp] theorem read_create [DecidableEq ν] : (d.create n).read n = some [] := by
  rw [read_of_entry entry_create, content_create]

theorem overwrite_length [Inhabited α] (a b : List α) : overwrite a a.length b = a ++ b := by
  simp [overwrite]

theorem content_writeAt [Inhabited α] {a b : List α} (h : d.content f = a) :
    (d.writeAt f a.length b).content f = a ++ b := by
  simp [writeAt, h, overwrite_length]

theorem read_writeAt [Inhabited α] {offset : Nat} {b : List α} (h : d.entry n = some f) :
    (d.writeAt f offset b).read n = some ((d.writeAt f offset b).content f) :=
  read_of_entry (d := d.writeAt f offset b) h

@[simp] theorem read_put [DecidableEq ν] [Inhabited α] {b : List α} :
    (d.put n b).read n = some b := by
  have hwrite := content_writeAt (b := b) (content_create (d := d) (n := n))
  exact (read_writeAt entry_create).trans (congrArg some hwrite)

theorem restrict_of_entry (h : d.entry n = some f) :
    d.restrict n = some { d with ownerOnly := Function.update d.ownerOnly f true } := by
  rw [restrict, h]
  rfl

theorem restrict_eq_some :
    d.restrict n = some d' ↔ ∃ f, d.entry n = some f ∧
      d' = { d with ownerOnly := Function.update d.ownerOnly f true } := by
  rw [restrict, Option.map_eq_some_iff]
  exact exists_congr fun f => and_congr_right fun _ => eq_comm

theorem rename_eq_some [DecidableEq ν] :
    d.rename m n = some d' ↔ (d.entry m).isSome = true ∧ d' = d.move m n := by
  rw [rename]
  split
  · next h => simp [h, eq_comm]
  · next h => simp [h]

@[simp] theorem entry_move [DecidableEq ν] : (d.move m n).entry n = d.entry m := by
  simp [move]

theorem entry_move_of_ne [DecidableEq ν] (hne : n ≠ m) : (d.move m n).entry m = none := by
  simp [move, hne.symm]

@[simp] theorem read_move [DecidableEq ν] : (d.move m n).read n = d.read m := by
  simp only [read, entry_move]
  rfl

end

/-! ## What an operation does to the other names -/

/-- A name leads to the same file, and the file is as it was. -/
structure Unchanged (d d' : Directory ν α) (n : ν) : Prop where
  entry : d'.entry n = d.entry n
  content : ∀ {f}, d.entry n = some f → d'.content f = d.content f
  ownerOnly : ∀ {f}, d.entry n = some f → d'.ownerOnly f = d.ownerOnly f

section

variable {d d' : Directory ν α} {m m' n : ν} {f : Nat}

theorem Unchanged.refl : Unchanged d d n := ⟨rfl, fun _ => rfl, fun _ => rfl⟩

theorem Unchanged.read (h : Unchanged d d' n) : d'.read n = d.read n := by
  rw [Directory.read, Directory.read, h.entry]
  cases hn : d.entry n with
  | none => rfl
  | some f => simp [h.content hn]

/-- Opening a name never opens a file in use that is not under it. -/
theorem opened_ne_of_lt (hlt : f < d.fresh) (hne : d.entry m ≠ some f) : d.opened m ≠ f := by
  intro hf
  cases hm : d.entry m with
  | none =>
      simp [opened, hm] at hf
      omega
  | some g =>
      simp only [opened, hm, Option.getD_some] at hf
      exact hne (hf ▸ hm)

theorem opened_ne (hne : n ≠ m) (h : d.entry n = some f) : d.opened m ≠ f := by
  apply opened_ne_of_lt (d.entry_lt h)
  intro hm
  exact hne (d.entry_inj h hm)

theorem opened_lt_create [DecidableEq ν] : d.opened n < (d.create n).fresh :=
  entry_lt _ entry_create

theorem unchanged_create [DecidableEq ν] (hne : n ≠ m) : Unchanged d (d.create m) n where
  entry := by simp [create, hne]
  content h := by simp [create, (opened_ne hne h).symm]
  ownerOnly h := by simp [create, (opened_ne hne h).symm]

theorem unchanged_writeAt [Inhabited α] {offset : Nat} {b : List α} (hne : d.entry n ≠ some f) :
    Unchanged d (d.writeAt f offset b) n where
  entry := rfl
  content h := by
    have hf : _ ≠ f := fun hf => hne (hf ▸ h)
    simp [writeAt, hf]
  ownerOnly _ := rfl

theorem unchanged_restrict (hne : n ≠ m) (h : d.restrict m = some d') : Unchanged d d' n := by
  obtain ⟨f, hm, rfl⟩ := restrict_eq_some.mp h
  refine ⟨rfl, fun _ => rfl, fun hn => ?_⟩
  have hf : _ ≠ f := fun hf => hne (d.entry_inj (hf ▸ hn) hm)
  simp [hf]

theorem unchanged_move [DecidableEq ν] (hm : n ≠ m) (hm' : n ≠ m') :
    Unchanged d (d.move m m') n where
  entry := by simp [move, hm, hm']
  content _ := rfl
  ownerOnly _ := rfl

end

end Directory

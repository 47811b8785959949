import Macula.Identity.KeyFile
import Macula.Lib.Runs

/-!
# Saving an identity

`save` opens its temporary file, fills it piece by piece, restricts it to its owner and renames
it.  Other calls may take their steps between any two of these, and a crash is the end of a run.

A save is atomic when at every point of every run the path leads to what was there before or to
the identity, and to the identity once the call has returned `Ok`.  `saveAtomic_iff` says when:
the temporary file has to be the call's own.
-/

namespace Macula.Save

/-- A path in the directory, by the name of the file it ends in.  A path that ends in none (`..`)
leads to a directory. -/
abbrev Path := Option FileName

abbrev FileSystem := Directory FileName UInt8

/-- How far a call of `save` has come. -/
inductive Stage where
  | called
  /-- The temporary file is open, and `written` bytes are in it. -/
  | filling (file written : Nat)
  | filled
  | restricted
  /-- `Ok(())` -/
  | saved
  /-- `Err(e)` -/
  | failed
deriving DecidableEq

def Stage.Returned (stage : Stage) : Prop := stage = .saved ∨ stage = .failed

instance (stage : Stage) : Decidable stage.Returned :=
  inferInstanceAs (Decidable (_ ∨ _))

/-- A call of `save`. -/
structure Call where
  identity : KeyPair
  path : Path
  stage : Stage

def Call.tmpPath (call : Call) : Path := call.path.map FileName.withTmp

structure World where
  fs : FileSystem
  calls : List Call

inductive Event where
  | call (identity : KeyPair) (path : Path)
  /-- The next step of a call.  A write takes at most `n` bytes. -/
  | next (i n : Nat)
  /-- The operating system refuses the next step of a call. -/
  | refused (i : Nat)

section

variable (E : Ed25519)

/-- `KeyPair::load` -/
def load (fs : FileSystem) (path : Path) : Outcome LoadKeyError KeyPair :=
  match path.bind fs.read with
  | none => .err .io
  | some blob => KeyPair.ofKeyFile E blob

/-- The next step of `save`. -/
def Call.next (call : Call) (fs : FileSystem) (n : Nat) : FileSystem × Stage :=
  match call.stage with
  | .called =>
      match call.tmpPath with
      | none => (fs, .failed)
      | some tmp => (fs.create tmp, .filling (fs.opened tmp) 0)
  | .filling file written =>
      let blob := call.identity.keyFile E
      let chunk := (blob.drop written).take n
      let written' := written + chunk.length
      -- `write_all` gives up when nothing is written
      if chunk = [] then (fs, .failed)
      else (fs.writeAt file written chunk,
        if written' = blob.length then .filled else .filling file written')
  | .filled =>
      match call.tmpPath.bind fs.restrict with
      | none => (fs, .failed)
      | some fs' => (fs', .restricted)
  | .restricted =>
      match call.tmpPath.bind (fun tmp => call.path.bind (fs.rename tmp)) with
      | none => (fs, .failed)
      | some fs' => (fs', .saved)
  | .saved => (fs, .saved)
  | .failed => (fs, .failed)

/-- What happens to call `i`, while it has not returned. -/
def World.update (w : World) (i : Nat) (f : Call → FileSystem × Stage) : Option World := do
  let call ← w.calls[i]?
  if call.stage.Returned then none
  else some { fs := (f call).1, calls := w.calls.set i { call with stage := (f call).2 } }

def step (w : World) : Event → Option World
  | .call identity path => some { w with calls := w.calls ++ [⟨identity, path, .called⟩] }
  | .next i n => w.update i (fun call => call.next E w.fs n)
  | .refused i => w.update i (fun _ => (w.fs, .failed))

/-- `identity.save(path)` has been called, and nothing else. -/
def World.initial (fs : FileSystem) (identity : KeyPair) (path : Path) : World :=
  ⟨fs, [⟨identity, path, .called⟩]⟩

/-- *Saving to `path` is atomic*, beside saves to the paths `others`: at every point of every run
in which nobody else saves to `path`. -/
def SaveAtomic (others : Set Path) (path : Path) : Prop :=
  ∀ (fs : FileSystem) (identity : KeyPair) (events : List Event) (w : World),
    (∀ B q, .call B q ∈ events → q ∈ others ∧ q ≠ path) →
    run (step E) (.initial fs identity path) events = some w →
      (load E w.fs path = load E fs path ∨ load E w.fs path = .ok identity) ∧
      (w.calls.head?.map Call.stage = some .saved → load E w.fs path = .ok identity)

end

/-- The temporary file for `path` is another file, and no other call has the same one. -/
def OwnTmp (others : Set Path) (path : Path) : Prop :=
  ∀ name ∈ path, name.extension ≠ some TMP ∧
    ∀ q, some q ∈ others → q ≠ name → q.stem ≠ name.stem

/-! ## One step -/

/-- What a call can do in one step. -/
inductive Call.Moves (E : Ed25519) (call : Call) (fs : FileSystem) : FileSystem → Stage → Prop
  | opens {tmp : FileName} : call.stage = .called → call.tmpPath = some tmp →
      Moves E call fs (fs.create tmp) (.filling (fs.opened tmp) 0)
  | fills {file written : Nat} {chunk : Bytes} : call.stage = .filling file written →
      chunk <+: (call.identity.keyFile E).drop written →
      written + chunk.length < (call.identity.keyFile E).length →
      Moves E call fs (fs.writeAt file written chunk) (.filling file (written + chunk.length))
  | finishes {file written : Nat} {chunk : Bytes} : call.stage = .filling file written →
      chunk <+: (call.identity.keyFile E).drop written →
      written + chunk.length = (call.identity.keyFile E).length →
      Moves E call fs (fs.writeAt file written chunk) .filled
  | restricts {tmp : FileName} {fs' : FileSystem} : call.stage = .filled →
      call.tmpPath = some tmp → fs.restrict tmp = some fs' → Moves E call fs fs' .restricted
  | renames {tmp path : FileName} : call.stage = .restricted → call.tmpPath = some tmp →
      call.path = some path → (fs.entry tmp).isSome = true →
      Moves E call fs (fs.move tmp path) .saved
  | fails : Moves E call fs fs .failed

section

variable {E : Ed25519} {w w' : World} {e : Event} {call : Call} {fs fs' : FileSystem}
  {stage : Stage}

theorem Call.moves_of_next {n : Nat} (hopen : ¬ call.stage.Returned)
    (h : call.next E fs n = (fs', stage)) : call.Moves E fs fs' stage := by
  rw [Call.next] at h
  split at h
  · next hstage =>
      split at h
      · cases h
        exact .fails
      · next htmp =>
          cases h
          exact .opens hstage htmp
  · next file written hstage =>
      dsimp only at h
      have hfirst := List.take_prefix n ((call.identity.keyFile E).drop written)
      have hlen := hfirst.length_le
      rw [List.length_drop] at hlen
      generalize ((call.identity.keyFile E).drop written).take n = chunk at h hfirst hlen
      split at h
      · cases h
        exact .fails
      · next hchunk =>
          have hpos := List.length_pos_iff.mpr hchunk
          cases h
          split
          · next hdone => exact .finishes hstage hfirst hdone
          · next hmore => exact .fills hstage hfirst (by omega)
  · next hstage =>
      split at h
      · cases h
        exact .fails
      · next hrestrict =>
          cases h
          obtain ⟨tmp, htmp, hrestrict⟩ := Option.bind_eq_some_iff.mp hrestrict
          exact .restricts hstage htmp hrestrict
  · next hstage =>
      split at h
      · cases h
        exact .fails
      · next hrename =>
          cases h
          obtain ⟨tmp, htmp, hrename⟩ := Option.bind_eq_some_iff.mp hrename
          obtain ⟨path, hpath, hrename⟩ := Option.bind_eq_some_iff.mp hrename
          obtain ⟨hthere, rfl⟩ := Directory.rename_eq_some.mp hrename
          exact .renames hstage htmp hpath hthere
  · next hstage => exact absurd (.inl hstage) hopen
  · next hstage => exact absurd (.inr hstage) hopen

theorem update_eq_some {i : Nat} {f : Call → FileSystem × Stage} :
    w.update i f = some w' ↔ ∃ call, w.calls[i]? = some call ∧ ¬ call.stage.Returned ∧
      w' = { fs := (f call).1, calls := w.calls.set i { call with stage := (f call).2 } } := by
  simp only [World.update, Option.bind_eq_bind, Option.bind_eq_some_iff]
  refine exists_congr fun call => and_congr_right fun _ => ?_
  split
  · next h => simp [h]
  · next h => simp [h, eq_comm]

/-- Either there is a new call, or one of the calls moves. -/
theorem step_cases (h : step E w e = some w') :
    (∃ B q, e = .call B q ∧ w' = { w with calls := w.calls ++ [⟨B, q, .called⟩] }) ∨
    ∃ i call fs' stage, w.calls[i]? = some call ∧ ¬ call.stage.Returned ∧
      call.Moves E w.fs fs' stage ∧ w' = ⟨fs', w.calls.set i { call with stage }⟩ := by
  cases e with
  | call B q =>
      cases h
      exact .inl ⟨B, q, rfl, rfl⟩
  | next i n =>
      obtain ⟨call, hcall, hopen, rfl⟩ := update_eq_some.mp h
      exact .inr ⟨i, call, _, _, hcall, hopen, Call.moves_of_next hopen rfl, rfl⟩
  | refused i =>
      obtain ⟨call, hcall, hopen, rfl⟩ := update_eq_some.mp h
      exact .inr ⟨i, call, _, _, hcall, hopen, .fails, rfl⟩

/-- The files in use stay in use. -/
theorem Call.Moves.fresh_le (h : call.Moves E fs fs' stage) : fs.fresh ≤ fs'.fresh := by
  cases h with
  | opens hstage htmp => exact Nat.le_succ _
  | fills hstage hfirst hlt => exact le_rfl
  | finishes hstage hfirst hdone => exact le_rfl
  | restricts hstage htmp hrestrict =>
      obtain ⟨f, -, rfl⟩ := Directory.restrict_eq_some.mp hrestrict
      exact le_rfl
  | renames hstage htmp hpath hthere => exact le_rfl
  | fails => exact le_rfl

end

/-! ## What the other calls leave alone -/

/-- The file is in use, and neither under `p` nor under `t`. -/
structure Apart (fs : FileSystem) (p t : FileName) (file : Nat) : Prop where
  lt : file < fs.fresh
  path : fs.entry p ≠ some file
  tmp : fs.entry t ≠ some file

/-- A call that has nothing to do with `p` and `t`: neither its path nor its temporary file is
one of them, and the file it has open is under neither. -/
structure Foreign (fs : FileSystem) (p t : FileName) (call : Call) : Prop where
  path : ∀ {q}, call.path = some q → p ≠ q ∧ t ≠ q
  tmp : ∀ {q}, call.tmpPath = some q → p ≠ q ∧ t ≠ q
  file : ∀ {f k}, call.stage = .filling f k → Apart fs p t f

section

variable {E : Ed25519} {call : Call} {fs fs' : FileSystem} {stage : Stage} {p t : FileName}
  {f : Nat}

theorem Foreign.unchanged (hforeign : Foreign fs p t call) (h : call.Moves E fs fs' stage) :
    fs.Unchanged fs' p ∧ fs.Unchanged fs' t := by
  cases h with
  | opens hstage htmp =>
      obtain ⟨hp, ht⟩ := hforeign.tmp htmp
      exact ⟨Directory.unchanged_create hp, Directory.unchanged_create ht⟩
  | fills hstage hfirst hlt =>
      have hapart := hforeign.file hstage
      exact ⟨Directory.unchanged_writeAt hapart.path, Directory.unchanged_writeAt hapart.tmp⟩
  | finishes hstage hfirst hdone =>
      have hapart := hforeign.file hstage
      exact ⟨Directory.unchanged_writeAt hapart.path, Directory.unchanged_writeAt hapart.tmp⟩
  | restricts hstage htmp hrestrict =>
      obtain ⟨hp, ht⟩ := hforeign.tmp htmp
      exact ⟨Directory.unchanged_restrict hp hrestrict, Directory.unchanged_restrict ht hrestrict⟩
  | renames hstage htmp hpath hthere =>
      obtain ⟨hp, ht⟩ := hforeign.tmp htmp
      obtain ⟨hp', ht'⟩ := hforeign.path hpath
      exact ⟨Directory.unchanged_move hp hp', Directory.unchanged_move ht ht'⟩
  | fails => exact ⟨.refl, .refl⟩

theorem Apart.of_unchanged (hapart : Apart fs p t f) (hp : fs.Unchanged fs' p)
    (ht : fs.Unchanged fs' t) (hle : fs.fresh ≤ fs'.fresh) : Apart fs' p t f where
  lt := lt_of_lt_of_le hapart.lt hle
  path := by
    rw [hp.entry]
    exact hapart.path
  tmp := by
    rw [ht.entry]
    exact hapart.tmp

end

/-! ## How far the call has come -/

/-- What is under `p` and `t` while `identity` is saved to `p` by way of `t`.  `before` is what was
under `p`. -/
def Progress (E : Ed25519) (identity : KeyPair) (before : Option Bytes) (p t : FileName)
    (fs : FileSystem) : Stage → Prop
  | .called => fs.read p = before
  | .filling file written => fs.read p = before ∧ fs.entry t = some file ∧
      written ≤ (identity.keyFile E).length ∧
      fs.content file = (identity.keyFile E).take written
  | .filled => fs.read p = before ∧ fs.read t = some (identity.keyFile E)
  | .restricted => fs.read p = before ∧ fs.read t = some (identity.keyFile E) ∧
      ∀ file ∈ fs.entry t, fs.ownerOnly file = true
  | .saved => fs.read p = some (identity.keyFile E) ∧
      ∀ file ∈ fs.entry p, fs.ownerOnly file = true
  | .failed => fs.read p = before

section

variable {E : Ed25519} {identity : KeyPair} {before : Option Bytes} {call : Call}
  {fs fs' : FileSystem} {stage stage' : Stage} {p t : FileName} {f : Nat}

theorem Progress.of_unchanged (h : Progress E identity before p t fs stage)
    (hp : fs.Unchanged fs' p) (ht : fs.Unchanged fs' t) :
    Progress E identity before p t fs' stage := by
  cases stage with
  | called => exact hp.read.trans h
  | filling file written =>
      obtain ⟨hread, hentry, hle, hcontent⟩ := h
      exact ⟨hp.read.trans hread, ht.entry.trans hentry, hle, (ht.content hentry).trans hcontent⟩
  | filled => exact ⟨hp.read.trans h.1, ht.read.trans h.2⟩
  | restricted =>
      obtain ⟨hread, htmp, hrights⟩ := h
      refine ⟨hp.read.trans hread, ht.read.trans htmp, fun file hfile => ?_⟩
      rw [ht.entry] at hfile
      rw [ht.ownerOnly hfile]
      exact hrights file hfile
  | saved =>
      refine ⟨hp.read.trans h.1, fun file hfile => ?_⟩
      rw [hp.entry] at hfile
      rw [hp.ownerOnly hfile]
      exact h.2 file hfile
  | failed => exact hp.read.trans h

/-- Until it has returned `Ok`, a call leaves what was there before. -/
theorem Progress.read_before (h : Progress E identity before p t fs stage)
    (hopen : stage ≠ .saved) : fs.read p = before := by
  cases stage with
  | called => exact h
  | filling file written => exact h.1
  | filled => exact h.1
  | restricted => exact h.1
  | saved => exact absurd rfl hopen
  | failed => exact h

/-- The next bytes of the key file are in the temporary file. -/
theorem content_writeAt {written : Nat} {blob chunk : Bytes} (hle : written ≤ blob.length)
    (hcontent : fs.content f = blob.take written) (hfirst : chunk <+: blob.drop written) :
    (fs.writeAt f written chunk).content f = blob.take (written + chunk.length) := by
  have hlen : (blob.take written).length = written := List.length_take_of_le hle
  have hwrite := Directory.content_writeAt (b := chunk) hcontent
  rw [hlen] at hwrite
  rw [hwrite, List.take_add, List.prefix_iff_eq_take.mp hfirst]
  simp

/-- The call of `identity.save(p)`, as far as it has come. -/
def own (identity : KeyPair) (p : FileName) (stage : Stage) : Call := ⟨identity, some p, stage⟩

theorem Progress.moves (hne : p ≠ p.withTmp) (hopen : ¬ stage.Returned)
    (h : Progress E identity before p p.withTmp fs stage)
    (hmoves : (own identity p stage).Moves E fs fs' stage') :
    Progress E identity before p p.withTmp fs' stage' := by
  have hbefore : fs.read p = before := h.read_before fun hsaved => hopen (.inl hsaved)
  cases hmoves with
  | opens hstage htmp =>
      obtain rfl := Option.some.inj htmp
      refine ⟨(Directory.unchanged_create hne).read.trans hbefore, Directory.entry_create,
        Nat.zero_le _, ?_⟩
      rw [Directory.content_create, List.take_zero]
  | fills hstage hfirst hmore =>
      obtain rfl : stage = _ := hstage
      obtain ⟨-, hentry, hle, hcontent⟩ := h
      have hfile : fs.entry p ≠ some _ := fun hp => hne (fs.entry_inj hp hentry)
      exact ⟨(Directory.unchanged_writeAt hfile).read.trans hbefore, hentry, hmore.le,
        content_writeAt hle hcontent hfirst⟩
  | finishes hstage hfirst hdone =>
      obtain rfl : stage = _ := hstage
      obtain ⟨-, hentry, hle, hcontent⟩ := h
      have hfile : fs.entry p ≠ some _ := fun hp => hne (fs.entry_inj hp hentry)
      refine ⟨(Directory.unchanged_writeAt hfile).read.trans hbefore, ?_⟩
      rw [Directory.read_writeAt hentry, content_writeAt hle hcontent hfirst, hdone]
      exact congrArg some List.take_length
  | restricts hstage htmp hrestrict =>
      obtain rfl := Option.some.inj htmp
      obtain rfl : stage = _ := hstage
      obtain ⟨-, hread⟩ := h
      obtain ⟨file, hentry, rfl⟩ := Directory.restrict_eq_some.mp hrestrict
      refine ⟨hbefore, hread, fun file' hfile' => ?_⟩
      obtain rfl := Option.some.inj (hentry.symm.trans hfile')
      simp
  | renames hstage htmp hpath hthere =>
      obtain rfl := Option.some.inj htmp
      obtain rfl := Option.some.inj hpath
      obtain rfl : stage = _ := hstage
      obtain ⟨-, hread, hrights⟩ := h
      refine ⟨Directory.read_move.trans hread, fun file hfile => ?_⟩
      rw [Directory.entry_move] at hfile
      exact hrights file hfile
  | fails => exact hbefore

/-- The call puts no file under its two names that is in use elsewhere. -/
theorem Apart.moves (hne : p ≠ p.withTmp) (hapart : Apart fs p p.withTmp f)
    (hmoves : (own identity p stage).Moves E fs fs' stage') : Apart fs' p p.withTmp f := by
  have hlt := lt_of_lt_of_le hapart.lt hmoves.fresh_le
  suffices hnames : fs'.entry p ≠ some f ∧ fs'.entry p.withTmp ≠ some f from
    ⟨hlt, hnames.1, hnames.2⟩
  cases hmoves with
  | opens hstage htmp =>
      obtain rfl := Option.some.inj htmp
      rw [(Directory.unchanged_create hne).entry, Directory.entry_create]
      refine ⟨hapart.path, fun h => ?_⟩
      exact Directory.opened_ne_of_lt hapart.lt hapart.tmp (Option.some.inj h)
  | fills hstage hfirst hmore => exact ⟨hapart.path, hapart.tmp⟩
  | finishes hstage hfirst hdone => exact ⟨hapart.path, hapart.tmp⟩
  | restricts hstage htmp hrestrict =>
      obtain ⟨file, -, rfl⟩ := Directory.restrict_eq_some.mp hrestrict
      exact ⟨hapart.path, hapart.tmp⟩
  | renames hstage htmp hpath hthere =>
      obtain rfl := Option.some.inj htmp
      obtain rfl := Option.some.inj hpath
      rw [Directory.entry_move, Directory.entry_move_of_ne hne]
      exact ⟨hapart.tmp, by simp⟩
  | fails => exact ⟨hapart.path, hapart.tmp⟩

/-- A call that opens its own temporary file has a file apart. -/
theorem Foreign.moves (hforeign : Foreign fs p t call) (hmoves : call.Moves E fs fs' stage) :
    Foreign fs' p t { call with stage } where
  path := hforeign.path
  tmp := hforeign.tmp
  file := by
    intro f k hstage'
    obtain ⟨hp, ht⟩ := hforeign.unchanged hmoves
    cases hmoves with
    | opens hstage htmp =>
        obtain ⟨rfl, -⟩ := Stage.filling.inj hstage'
        obtain ⟨hne, hne'⟩ := hforeign.tmp htmp
        refine ⟨Directory.opened_lt_create, ?_, ?_⟩
        · intro h
          exact hne (Directory.entry_inj _ h Directory.entry_create)
        · intro h
          exact hne' (Directory.entry_inj _ h Directory.entry_create)
    | fills hstage hfirst hlt =>
        obtain ⟨rfl, -⟩ := Stage.filling.inj hstage'
        exact (hforeign.file hstage).of_unchanged hp ht le_rfl
    | finishes hstage hfirst hdone => cases hstage'
    | restricts hstage htmp hrestrict => cases hstage'
    | renames hstage htmp hpath hthere => cases hstage'
    | fails => cases hstage'

end

/-! ## A whole run -/

/-- The call and its progress, and the other calls. -/
def Inv (E : Ed25519) (identity : KeyPair) (before : Option Bytes) (p t : FileName) (w : World) :
    Prop :=
  ∃ stage rest, w.calls = own identity p stage :: rest ∧
    Progress E identity before p t w.fs stage ∧ ∀ call ∈ rest, Foreign w.fs p t call

section

variable {E : Ed25519} {identity : KeyPair} {before : Option Bytes} {others : Set Path}
  {p : FileName}

/-- A call to another path with another stem. -/
theorem foreign_called {fs : FileSystem} {B : KeyPair} {q : Path} (hown : OwnTmp others (some p))
    (hq : q ∈ others ∧ q ≠ some p) : Foreign fs p p.withTmp ⟨B, q, .called⟩ := by
  obtain ⟨hext, hstems⟩ := hown p rfl
  obtain ⟨hmem, hne⟩ := hq
  have hself : p.withTmp ≠ p := fun h => hext (FileName.withTmp_eq_self_iff.mp h)
  refine ⟨fun {n} hn => ?_, fun {n} hn => ?_, nofun⟩
  · obtain rfl : q = some n := hn
    have hne' : n ≠ p := fun h => hne (h ▸ rfl)
    refine ⟨hne'.symm, fun h => ?_⟩
    exact hstems n hmem hne' (h ▸ p.stem_withTmp)
  · obtain ⟨m, rfl, rfl⟩ : ∃ m, q = some m ∧ m.withTmp = n := Option.map_eq_some_iff.mp hn
    have hne' : m ≠ p := fun h => hne (h ▸ rfl)
    have hstem := hstems m hmem hne'
    refine ⟨fun h => ?_, fun h => ?_⟩
    · have hstem' := m.stem_withTmp
      rw [← h] at hstem'
      exact hstem hstem'.symm
    · exact hstem (FileName.withTmp_eq_iff.mp h).symm

theorem inv_step (hown : OwnTmp others (some p)) {w w' : World} {e : Event}
    (hinv : Inv E identity before p p.withTmp w)
    (hothers : ∀ B q, e = .call B q → q ∈ others ∧ q ≠ some p) (h : step E w e = some w') :
    Inv E identity before p p.withTmp w' := by
  have hne : p ≠ p.withTmp :=
    fun h => (hown p rfl).1 (FileName.withTmp_eq_self_iff.mp h.symm)
  obtain ⟨stage, rest, hcalls, hprogress, hforeign⟩ := hinv
  rcases step_cases h with ⟨B, q, rfl, rfl⟩ | ⟨i, call, fs', stage', hcall, hopen, hmoves, rfl⟩
  · refine ⟨stage, rest ++ [⟨B, q, .called⟩], by rw [hcalls]; rfl, hprogress, ?_⟩
    intro call hmem
    rcases List.mem_append.mp hmem with hmem | hmem
    · exact hforeign call hmem
    · obtain rfl := List.mem_singleton.mp hmem
      exact foreign_called hown (hothers B q rfl)
  · rw [hcalls] at hcall ⊢
    cases i with
    | zero =>
        obtain rfl := Option.some.inj hcall
        refine ⟨stage', rest, rfl, hprogress.moves hne hopen hmoves, fun call hmem => ?_⟩
        have hcall := hforeign call hmem
        exact ⟨hcall.path, hcall.tmp, fun hstage => (hcall.file hstage).moves hne hmoves⟩
    | succ i =>
        rw [List.getElem?_cons_succ] at hcall
        have hmem := List.mem_of_getElem? hcall
        obtain ⟨hp, ht⟩ := (hforeign call hmem).unchanged hmoves
        refine ⟨stage, rest.set i { call with stage := stage' }, rfl,
          hprogress.of_unchanged hp ht, fun other hother => ?_⟩
        rcases List.mem_or_eq_of_mem_set hother with hother | rfl
        · have hcall := hforeign other hother
          exact ⟨hcall.path, hcall.tmp,
            fun hstage => (hcall.file hstage).of_unchanged hp ht hmoves.fresh_le⟩
        · exact (hforeign call hmem).moves hmoves

theorem load_eq_ok_of_read {fs : FileSystem} (h : fs.read p = some (identity.keyFile E)) :
    load E fs (some p) = .ok identity := by
  rw [load, Option.bind_some, h]
  exact KeyPair.ofKeyFile_eq_ok_iff.mpr rfl

theorem inv_run {fs : FileSystem} {events : List Event} {w : World}
    (hown : OwnTmp others (some p))
    (hothers : ∀ B q, .call B q ∈ events → q ∈ others ∧ q ≠ some p)
    (hrun : run (step E) (.initial fs identity (some p)) events = some w) :
    Inv E identity (fs.read p) p p.withTmp w := by
  have hinit : Inv E identity (fs.read p) p p.withTmp (.initial fs identity (some p)) :=
    ⟨.called, [], rfl, rfl, nofun⟩
  have hguarded : Guarded (step E) (fun _ e => ∀ B q, e = .call B q → q ∈ others ∧ q ≠ some p)
      (.initial fs identity (some p)) events :=
    guarded_of_forall fun e he B q heq => hothers B q (heq ▸ he)
  exact run_invariant (Inv E identity (fs.read p) p p.withTmp)
    (fun s e s' hinv hguard => inv_step hown hinv hguard) hinit hguarded hrun

theorem saveAtomic_of_ownTmp (hown : OwnTmp others (some p)) : SaveAtomic E others (some p) := by
  intro fs identity events w hothers hrun
  obtain ⟨stage, rest, hcalls, hprogress, -⟩ := inv_run hown hothers hrun
  rw [hcalls]
  by_cases hsaved : stage = .saved
  · subst hsaved
    have hload := load_eq_ok_of_read hprogress.1
    exact ⟨.inr hload, fun _ => hload⟩
  · have hread := hprogress.read_before hsaved
    refine ⟨.inl ?_, fun h => absurd (Option.some.inj h) hsaved⟩
    rw [load, load, Option.bind_some, Option.bind_some, hread]

/-- What has been saved nobody but the owner may read. -/
theorem ownerOnly_of_saved {fs : FileSystem} {events : List Event} {w : World} {file : Nat}
    (hown : OwnTmp others (some p))
    (hothers : ∀ B q, .call B q ∈ events → q ∈ others ∧ q ≠ some p)
    (hrun : run (step E) (.initial fs identity (some p)) events = some w)
    (hsaved : w.calls.head?.map Call.stage = some .saved) (hfile : w.fs.entry p = some file) :
    w.fs.ownerOnly file = true := by
  obtain ⟨stage, rest, hcalls, hprogress, -⟩ := inv_run hown hothers hrun
  rw [hcalls] at hsaved
  obtain rfl : stage = .saved := Option.some.inj hsaved
  exact hprogress.2 file hfile

/-- A call to a path without a file name has failed when it returns. -/
def Nameless (identity : KeyPair) (w : World) : Prop :=
  ∃ stage rest, w.calls = ⟨identity, none, stage⟩ :: rest ∧ (stage = .called ∨ stage = .failed)

theorem nameless_step {w w' : World} {e : Event} (hinv : Nameless identity w)
    (h : step E w e = some w') : Nameless identity w' := by
  obtain ⟨stage, rest, hcalls, hstage⟩ := hinv
  rcases step_cases h with ⟨B, q, rfl, rfl⟩ | ⟨i, call, fs', stage', hcall, hopen, hmoves, rfl⟩
  · exact ⟨stage, rest ++ [⟨B, q, .called⟩], by rw [hcalls]; rfl, hstage⟩
  · rw [hcalls] at hcall ⊢
    cases i with
    | zero =>
        obtain rfl := Option.some.inj hcall
        refine ⟨stage', rest, rfl, .inr ?_⟩
        have hcalled : stage = .called := hstage.resolve_right fun hfailed => hopen (.inr hfailed)
        subst hcalled
        cases hmoves with
        | opens hstage' htmp => cases htmp
        | fills hstage' hfirst hmore => cases hstage'
        | finishes hstage' hfirst hdone => cases hstage'
        | restricts hstage' htmp hrestrict => cases hstage'
        | renames hstage' htmp hpath hthere => cases hstage'
        | fails => rfl
    | succ i => exact ⟨stage, rest.set i { call with stage := stage' }, rfl, hstage⟩

theorem saveAtomic_none : SaveAtomic E others none := by
  intro fs identity events w hothers hrun
  have hinit : Nameless identity (.initial fs identity none) := ⟨.called, [], rfl, .inl rfl⟩
  obtain ⟨stage, rest, hcalls, hstage⟩ :=
    run_invariant_of_step (Nameless identity) (fun s e s' => nameless_step) hinit hrun
  refine ⟨.inl rfl, fun hsaved => ?_⟩
  rw [hcalls] at hsaved
  obtain rfl := Option.some.inj hsaved
  rcases hstage with h | h <;> cases h

end

/-! ## A temporary file that is not the call's own -/

section

variable {E : Ed25519} {identity : KeyPair} {others : Set Path} {fs : FileSystem}
  {p q : FileName} {file n : Nat}

theorem next_called : (own identity p .called).next E fs n =
    (fs.create p.withTmp, .filling (fs.opened p.withTmp) 0) := rfl

/-- All of the key file is written at once. -/
theorem next_filling : (own identity p (.filling file 0)).next E fs (identity.keyFile E).length =
    (fs.writeAt file 0 (identity.keyFile E), .filled) := by
  have hblob : identity.keyFile E ≠ [] := by
    rw [KeyPair.keyFile, List.append_assoc]
    exact List.append_ne_nil_of_left_ne_nil (by decide) _
  simp [Call.next, own, hblob]

theorem next_filled (h : fs.entry p.withTmp = some file) :
    (own identity p .filled).next E fs n =
      ({ fs with ownerOnly := Function.update fs.ownerOnly file true }, .restricted) := by
  simp [Call.next, Call.tmpPath, own, Directory.restrict_of_entry h]

theorem next_restricted (h : fs.entry p.withTmp = some file) :
    (own identity p .restricted).next E fs n = (fs.move p.withTmp p, .saved) := by
  simp [Call.next, Call.tmpPath, own, Directory.rename, h]

theorem step_next {w : World} {i : Nat} {call : Call} {stage : Stage} {fs' : FileSystem}
    (hcall : w.calls[i]? = some call) (hopen : ¬ call.stage.Returned)
    (hnext : call.next E w.fs n = (fs', stage)) :
    step E w (.next i n) = some ⟨fs', w.calls.set i { call with stage }⟩ := by
  refine update_eq_some.mpr ⟨call, hcall, hopen, ?_⟩
  rw [hnext]

theorem load_empty (h : fs.read p = some []) : load E fs (some p) = .err .badKeyFile := by
  rw [load, Option.bind_some, h]
  rfl

/-- A crash after the file has been opened leaves neither what was there nor the identity. -/
theorem not_saveAtomic_of_tmp (h : p.withTmp = p) : ¬ SaveAtomic E others (some p) := by
  intro hatomic
  let identity : KeyPair := ⟨⟨List.replicate 32 0, rfl⟩⟩
  let fs : FileSystem := Directory.empty.put p (identity.keyFile E)
  have hrun : run (step E) (.initial fs identity (some p)) [.next 0 0] =
      some ⟨fs.create p.withTmp, [own identity p (.filling (fs.opened p.withTmp) 0)]⟩ :=
    run_cons.mpr ⟨_, step_next rfl (by simp [Stage.Returned]) next_called, rfl⟩
  obtain ⟨hload, -⟩ := hatomic fs identity _ _ (by simp) hrun
  rw [h, load_empty Directory.read_create, load_eq_ok_of_read Directory.read_put] at hload
  rcases hload with hload | hload <;> cases hload

/-- Another call opens the temporary file before it is renamed, and the path leads to the empty
file of the other call. -/
theorem not_saveAtomic_of_shared (hmem : some q ∈ others) (hne : q ≠ p)
    (h : q.withTmp = p.withTmp) : ¬ SaveAtomic E others (some p) := by
  intro hatomic
  let identity : KeyPair := ⟨⟨List.replicate 32 0, rfl⟩⟩
  let file := (Directory.empty : FileSystem).opened p.withTmp
  let filled : FileSystem := Directory.empty.put p.withTmp (identity.keyFile E)
  have hentry : filled.entry p.withTmp = some file := Directory.entry_create
  let restricted : FileSystem :=
    { filled with ownerOnly := Function.update filled.ownerOnly file true }
  let truncated : FileSystem := restricted.create q.withTmp
  have hentry' : truncated.entry p.withTmp = some (restricted.opened q.withTmp) := by
    rw [← h]
    exact Directory.entry_create
  let rest (stage : Stage) : List Call := [own identity q stage]
  have hcalled : step E (.initial .empty identity (some p)) (.next 0 0) =
      some ⟨Directory.empty.create p.withTmp, [own identity p (.filling file 0)]⟩ :=
    step_next rfl (by simp [own, Stage.Returned]) next_called
  have hfills : step E ⟨Directory.empty.create p.withTmp, [own identity p (.filling file 0)]⟩
      (.next 0 (identity.keyFile E).length) = some ⟨filled, [own identity p .filled]⟩ :=
    step_next rfl (by simp [own, Stage.Returned]) next_filling
  have hrestricts : step E ⟨filled, [own identity p .filled]⟩ (.next 0 0) =
      some ⟨restricted, [own identity p .restricted]⟩ :=
    step_next rfl (by simp [own, Stage.Returned]) (next_filled hentry)
  have hcall : step E ⟨restricted, [own identity p .restricted]⟩ (.call identity (some q)) =
      some ⟨restricted, own identity p .restricted :: rest .called⟩ := rfl
  have hopens : step E ⟨restricted, own identity p .restricted :: rest .called⟩ (.next 1 0) =
      some ⟨truncated, own identity p .restricted ::
        rest (.filling (restricted.opened q.withTmp) 0)⟩ :=
    step_next rfl (by simp [own, Stage.Returned]) next_called
  have hrenames : step E ⟨truncated, own identity p .restricted ::
      rest (.filling (restricted.opened q.withTmp) 0)⟩ (.next 0 0) =
        some ⟨truncated.move p.withTmp p, own identity p .saved ::
          rest (.filling (restricted.opened q.withTmp) 0)⟩ :=
    step_next rfl (by simp [own, Stage.Returned]) (next_restricted hentry')
  have hrun : run (step E) (.initial .empty identity (some p))
      [.next 0 0, .next 0 (identity.keyFile E).length, .next 0 0, .call identity (some q),
        .next 1 0, .next 0 0] =
      some ⟨truncated.move p.withTmp p, own identity p .saved ::
        rest (.filling (restricted.opened q.withTmp) 0)⟩ :=
    run_cons.mpr ⟨_, hcalled, run_cons.mpr ⟨_, hfills, run_cons.mpr ⟨_, hrestricts,
      run_cons.mpr ⟨_, hcall, run_cons.mpr ⟨_, hopens, run_cons.mpr ⟨_, hrenames, rfl⟩⟩⟩⟩⟩⟩
  have hread : (truncated.move p.withTmp p).read p = some [] := by
    rw [Directory.read_move, ← h]
    exact Directory.read_create
  obtain ⟨-, hload⟩ := hatomic .empty identity _ _ (by simp [hmem, hne]) hrun
  have hloaded := hload rfl
  rw [load_empty hread] at hloaded
  cases hloaded

end

/-- *Saving is atomic exactly when the temporary file is another file, and nobody else's.* -/
theorem saveAtomic_iff (E : Ed25519) (others : Set Path) (path : Path) :
    SaveAtomic E others path ↔ OwnTmp others path := by
  cases path with
  | none =>
      constructor
      · intro _ name hname
        cases hname
      · intro _
        exact saveAtomic_none
  | some p =>
      constructor
      · intro hatomic name hname
        obtain rfl := Option.some.inj hname
        refine ⟨fun hext => ?_, fun q hmem hne hstem => ?_⟩
        · exact not_saveAtomic_of_tmp (FileName.withTmp_eq_self_iff.mpr hext) hatomic
        · exact not_saveAtomic_of_shared hmem hne (FileName.withTmp_eq_iff.mpr hstem) hatomic
      · exact saveAtomic_of_ownTmp

def nodeKey : FileName := ⟨Utf8.bytes "node.key", by decide⟩

def nodePem : FileName := ⟨Utf8.bytes "node.pem", by decide⟩

def nodeTmp : FileName := ⟨Utf8.bytes "node.tmp", by decide⟩

/-- Beside a save to `node.pem`, a save to `node.key` can return `Ok` with the other identity in
the file.  A save to `node.tmp` empties what was there first. -/
theorem not_saveAtomic_node :
    ¬ SaveAtomic Ed25519.standIn {some nodePem} (some nodeKey) ∧
      ¬ SaveAtomic Ed25519.standIn ∅ (some nodeTmp) := by
  let A : KeyPair := ⟨⟨List.replicate 32 0, rfl⟩⟩
  let B : KeyPair := ⟨⟨List.replicate 32 1, rfl⟩⟩
  constructor
  · intro hatomic
    let events : List Event := [.next 0 0, .next 0 78, .call B (some nodePem), .next 1 0,
      .next 1 78, .next 0 0, .next 0 0]
    have hevents : ∀ C q, .call C q ∈ events → q ∈ ({some nodePem} : Set Path) ∧
        q ≠ some nodeKey := by
      intro C q hmem
      obtain ⟨rfl, rfl⟩ : C = B ∧ q = some nodePem := by simpa [events] using hmem
      exact ⟨rfl, by decide⟩
    have hreturns : (run (step Ed25519.standIn) (.initial .empty A (some nodeKey)) events).map
        (fun w => (w.calls.head?.map Call.stage, load Ed25519.standIn w.fs (some nodeKey))) =
          some (some .saved, .ok B) := by
      decide +kernel
    obtain ⟨w, hrun, hw⟩ := Option.map_eq_some_iff.mp hreturns
    have hload := (hatomic .empty A events w hevents hrun).2 (congrArg Prod.fst hw)
    have hB : load Ed25519.standIn w.fs (some nodeKey) = .ok B := congrArg Prod.snd hw
    rw [hB] at hload
    exact absurd hload (by decide)
  · intro hatomic
    let fs : FileSystem := Directory.empty.put nodeTmp (B.keyFile Ed25519.standIn)
    have hcrashes : (run (step Ed25519.standIn) (.initial fs A (some nodeTmp)) [.next 0 0]).map
        (fun w => load Ed25519.standIn w.fs (some nodeTmp)) = some (.err .badKeyFile) := by
      decide +kernel
    have hbefore : load Ed25519.standIn fs (some nodeTmp) = .ok B := by
      decide +kernel
    obtain ⟨w, hrun, hw⟩ := Option.map_eq_some_iff.mp hcrashes
    obtain ⟨hload, -⟩ := hatomic fs A [.next 0 0] w (by simp) hrun
    rw [hw, hbefore] at hload
    rcases hload with hload | hload <;> cases hload

end Macula.Save

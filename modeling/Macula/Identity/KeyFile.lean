import Macula.Identity
import Macula.Lib.Directory

/-!
# Key files

A key file is a magic header, the public key and the seed.  `load` accepts exactly the files
that have the form `save` gives them, so no two identities share a file.

`save` writes to a temporary file first.  Its name comes from the name of the key file by
`with_extension`, which puts `tmp` in the place of what follows the last dot: the key file
itself when that is `tmp` already, and one name for all key files of one stem.
-/

namespace Macula

/-! ## The format -/

def KEY_FILE_MAGIC : Bytes := Utf8.bytes "macula-v2-key\x00"

inductive LoadKeyError where
  | io
  | badKeyFile
  | pubkeyMismatch
deriving DecidableEq

section

variable (E : Ed25519)

/-- What `save` writes. -/
def KeyPair.keyFile (identity : KeyPair) : Bytes :=
  KEY_FILE_MAGIC ++ (identity.nodeId E).1 ++ identity.seed.1

/-- What `load` makes of the bytes it has read. -/
def KeyPair.ofKeyFile (blob : Bytes) : Outcome LoadKeyError KeyPair :=
  if blob.length ≠ KEY_FILE_MAGIC.length + 64 ∨ ¬ KEY_FILE_MAGIC <+: blob then .err .badKeyFile
  else do
    let rest ← slice blob KEY_FILE_MAGIC.length blob.length
    let storedPub ← .expectSome (toArr 32 (← slice rest 0 32))
    let storedPriv ← .expectSome (toArr 32 (← slice rest 32 64))
    let keypair : KeyPair := ⟨storedPriv⟩
    if keypair.nodeId E ≠ storedPub then .err .pubkeyMismatch else .ok keypair

end

section

variable {E : Ed25519} {identity : KeyPair} {blob : Bytes}

theorem KeyPair.ofKeyFile_append (pub priv : ByteArr 32) :
    KeyPair.ofKeyFile E (KEY_FILE_MAGIC ++ pub.1 ++ priv.1) =
      if E.publicKey priv ≠ pub then .err .pubkeyMismatch else .ok ⟨priv⟩ := by
  have hpub : pub.1.length = 32 := pub.2
  have hpriv : priv.1.length = 32 := priv.2
  have hlen : (KEY_FILE_MAGIC ++ pub.1 ++ priv.1).length = KEY_FILE_MAGIC.length + 64 := by
    simp [hpub, hpriv]
  have hmagic : KEY_FILE_MAGIC <+: KEY_FILE_MAGIC ++ pub.1 ++ priv.1 :=
    ⟨pub.1 ++ priv.1, (List.append_assoc _ _ _).symm⟩
  have hform : ¬ ((KEY_FILE_MAGIC ++ pub.1 ++ priv.1).length ≠ KEY_FILE_MAGIC.length + 64 ∨
      ¬ KEY_FILE_MAGIC <+: KEY_FILE_MAGIC ++ pub.1 ++ priv.1) :=
    not_or.mpr ⟨not_not.mpr hlen, not_not.mpr hmagic⟩
  have hrest : (slice (KEY_FILE_MAGIC ++ pub.1 ++ priv.1) KEY_FILE_MAGIC.length
      (KEY_FILE_MAGIC ++ pub.1 ++ priv.1).length : Outcome LoadKeyError Bytes) =
        .ok (pub.1 ++ priv.1) := by
    rw [List.append_assoc]
    exact slice_append _ _ rfl rfl
  have hfirst : (slice (pub.1 ++ priv.1) 0 32 : Outcome LoadKeyError Bytes) = .ok pub.1 := by
    rw [slice_of_le (by omega) (by simp [hpub])]
    simp [seg, hpub]
  have hsecond : (slice (pub.1 ++ priv.1) 32 64 : Outcome LoadKeyError Bytes) = .ok priv.1 :=
    slice_append _ _ hpub (by simp [hpub, hpriv])
  rw [KeyPair.ofKeyFile, if_neg hform, hrest, Outcome.ok_bind, hfirst, Outcome.ok_bind,
    toArr_val, hsecond]
  simp only [Outcome.expectSome, Outcome.ok_bind, toArr_val, KeyPair.nodeId]
  rfl

/-- A string of the length of a key file, with its header. -/
theorem exists_keys_of_form (hlen : blob.length = KEY_FILE_MAGIC.length + 64)
    (hmagic : KEY_FILE_MAGIC <+: blob) :
    ∃ pub priv : ByteArr 32, blob = KEY_FILE_MAGIC ++ pub.1 ++ priv.1 := by
  obtain ⟨rest, rfl⟩ := hmagic
  have hrest : rest.length = 64 := by simpa using hlen
  refine ⟨⟨rest.take 32, ?_⟩, ⟨rest.drop 32, ?_⟩, ?_⟩
  · simp [hrest]
  · simp [hrest]
  · simp

/-- *What `load` accepts is exactly what `save` writes.* -/
theorem KeyPair.ofKeyFile_eq_ok_iff :
    KeyPair.ofKeyFile E blob = .ok identity ↔ blob = identity.keyFile E := by
  constructor
  · intro h
    by_cases hform : blob.length ≠ KEY_FILE_MAGIC.length + 64 ∨ ¬ KEY_FILE_MAGIC <+: blob
    · rw [KeyPair.ofKeyFile, if_pos hform] at h
      cases h
    · simp only [not_or, not_not] at hform
      obtain ⟨pub, priv, rfl⟩ := exists_keys_of_form hform.1 hform.2
      rw [KeyPair.ofKeyFile_append] at h
      split at h
      · cases h
      · next hpub =>
          cases h
          rw [KeyPair.keyFile, KeyPair.nodeId, not_not.mp hpub]
  · intro h
    rw [h, KeyPair.keyFile, KeyPair.ofKeyFile_append]
    simp [KeyPair.nodeId]

theorem KeyPair.ofKeyFile_ne_panicked : KeyPair.ofKeyFile E blob ≠ .panicked := by
  intro h
  by_cases hform : blob.length ≠ KEY_FILE_MAGIC.length + 64 ∨ ¬ KEY_FILE_MAGIC <+: blob
  · rw [KeyPair.ofKeyFile, if_pos hform] at h
    cases h
  · simp only [not_or, not_not] at hform
    obtain ⟨pub, priv, rfl⟩ := exists_keys_of_form hform.1 hform.2
    rw [KeyPair.ofKeyFile_append] at h
    split at h <;> cases h

end

/-! ## Names -/

def DOT : UInt8 := 46

def SLASH : UInt8 := 47

/-- What an operating system takes as the name of a file. -/
def IsFileName (name : Bytes) : Prop :=
  name ≠ [] ∧ name ≠ [DOT] ∧ name ≠ [DOT, DOT] ∧ SLASH ∉ name ∧ 0 ∉ name

instance (name : Bytes) : Decidable (IsFileName name) :=
  inferInstanceAs (Decidable (_ ∧ _))

abbrev FileName := { name : Bytes // IsFileName name }

/-- What is before the last dot of a name and what is after it. -/
def rsplitDot (name : Bytes) : Option (Bytes × Bytes) :=
  match name.reverse.dropWhile (· ≠ DOT) with
  | [] => none
  | _ :: before => some (before.reverse, (name.reverse.takeWhile (· ≠ DOT)).reverse)

/-- `Path::file_stem` and `Path::extension`.  The dot a name begins with begins no extension. -/
def splitName (name : Bytes) : Bytes × Option Bytes :=
  match rsplitDot name with
  | none => (name, none)
  | some (before, after) => if before = [] then (name, none) else (before, some after)

def FileName.stem (name : FileName) : Bytes := (splitName name.1).1

def FileName.extension (name : FileName) : Option Bytes := (splitName name.1).2

/-- The extension of temporary files. -/
def TMP : Bytes := Utf8.bytes "tmp"

theorem rsplitDot_append {before after : Bytes} (h : DOT ∉ after) :
    rsplitDot (before ++ DOT :: after) = some (before, after) := by
  have hno : ∀ x ∈ after.reverse, decide (x ≠ DOT) = true := by
    intro x hx
    simpa using fun hdot : x = DOT => h (hdot ▸ List.mem_reverse.mp hx)
  have hrev : (before ++ DOT :: after).reverse = after.reverse ++ DOT :: before.reverse := by
    simp
  rw [rsplitDot, hrev, List.dropWhile_append_of_pos hno, List.takeWhile_append_of_pos hno]
  simp

theorem eq_of_rsplitDot {name before after : Bytes} (h : rsplitDot name = some (before, after)) :
    name = before ++ DOT :: after := by
  have hjoin := List.takeWhile_append_dropWhile (p := (· ≠ DOT)) (l := name.reverse)
  have hhead := List.head?_dropWhile_not (· ≠ DOT) name.reverse
  rw [rsplitDot] at h
  split at h
  · cases h
  · next x rest hd =>
      cases h
      rw [hd] at hjoin hhead
      obtain rfl : x = DOT := by simpa using hhead
      have hname := congrArg List.reverse hjoin
      rw [List.reverse_append, List.reverse_reverse, List.reverse_cons] at hname
      rw [List.append_assoc] at hname
      exact hname.symm

theorem splitName_append {before after : Bytes} (hbefore : before ≠ []) (hafter : DOT ∉ after) :
    splitName (before ++ DOT :: after) = (before, some after) := by
  rw [splitName, rsplitDot_append hafter]
  exact if_neg hbefore

theorem eq_of_splitName {name stem extension : Bytes}
    (h : splitName name = (stem, some extension)) : name = stem ++ DOT :: extension := by
  rw [splitName] at h
  split at h
  · cases h
  · next hsplit =>
      split at h
      · cases h
      · cases h
        exact eq_of_rsplitDot hsplit

namespace FileName

theorem stem_prefix (name : FileName) : name.stem <+: name.1 := by
  rw [stem, splitName]
  split
  · exact List.prefix_rfl
  · next hsplit =>
      split
      · exact List.prefix_rfl
      · exact ⟨_, (eq_of_rsplitDot hsplit).symm⟩

theorem stem_ne_nil (name : FileName) : name.stem ≠ [] := by
  rw [stem, splitName]
  split
  · exact name.2.1
  · split
    · exact name.2.1
    · next hbefore => exact hbefore

/-- `path.with_extension("tmp")` -/
def withTmp (name : FileName) : FileName where
  val := name.stem ++ DOT :: TMP
  property := by
    have hlen : 5 ≤ (name.stem ++ DOT :: TMP).length := by
      have hstem := List.length_pos_iff.mpr name.stem_ne_nil
      have htmp : TMP.length = 3 := by decide
      simp only [List.length_append, List.length_cons, htmp]
      omega
    have hsub : ∀ x ∈ name.stem, x ∈ name.1 := fun x hx => name.stem_prefix.subset hx
    obtain ⟨-, -, -, hslash, hzero⟩ := name.2
    refine ⟨?_, ?_, ?_, ?_, ?_⟩
    · intro h
      simp at h
    · intro h
      rw [h] at hlen
      simp at hlen
    · intro h
      rw [h] at hlen
      simp at hlen
    · intro h
      rcases List.mem_append.mp h with h | h
      · exact hslash (hsub _ h)
      · revert h
        decide
    · intro h
      rcases List.mem_append.mp h with h | h
      · exact hzero (hsub _ h)
      · revert h
        decide

theorem splitName_withTmp (name : FileName) :
    splitName name.withTmp.1 = (name.stem, some TMP) :=
  splitName_append name.stem_ne_nil (by decide)

/-- *One temporary name for all names of one stem.* -/
theorem withTmp_eq_iff {m n : FileName} : m.withTmp = n.withTmp ↔ m.stem = n.stem := by
  constructor
  · intro h
    have hsplit := n.splitName_withTmp
    rw [← h, m.splitName_withTmp] at hsplit
    exact (Prod.mk.inj hsplit).1
  · intro h
    apply Subtype.ext
    show m.stem ++ DOT :: TMP = n.stem ++ DOT :: TMP
    rw [h]

@[simp] theorem stem_withTmp (name : FileName) : name.withTmp.stem = name.stem := by
  rw [stem, splitName_withTmp]

@[simp] theorem withTmp_withTmp (name : FileName) : name.withTmp.withTmp = name.withTmp :=
  withTmp_eq_iff.mpr name.stem_withTmp

/-- *A name that is its own temporary name.* -/
theorem withTmp_eq_self_iff {name : FileName} :
    name.withTmp = name ↔ name.extension = some TMP := by
  constructor
  · intro h
    rw [← h, extension, splitName_withTmp]
  · intro h
    apply Subtype.ext
    exact (eq_of_splitName (Prod.ext rfl h)).symm

end FileName

end Macula

import Macula.Cbor.Total
import Macula.Frame.Codec

/-!
# The frames of a byte stream

`frames s` applies `decode` to `s` again and again, up to the first bytes that are no frame or
no whole frame.  A buffer that holds a whole frame, or a fault, keeps it whatever bytes follow
(`decode_append`), so what can be decoded from a part of a stream is decoded from all of it.
-/

namespace Macula.Frame

open Macula.Cbor (Value)

/-! ## How a buffer begins -/

/-- A buffer of four bytes or more starts with a length. -/
theorem exists_length {buf : Bytes} (h : 4 ≤ buf.length) :
    ∃ n rest, n < 256 ^ 4 ∧ buf = beBytes 4 n ++ rest := by
  refine ⟨ofBe (buf.take 4), buf.drop 4, ?_, ?_⟩
  · have hlt := ofBe_lt (buf.take 4)
    rwa [List.length_take_of_le h] at hlt
  · rw [beBytes_ofBe_eq (List.length_take_of_le h), List.take_append_drop]

theorem decode_of_short {buf : Bytes} (h : buf.length < 4) :
    decode buf = .ok (.more (4 - buf.length)) := by
  rw [decode, if_pos h]

theorem decode_of_tooLarge {n : Nat} (hmax : n < 256 ^ 4) (hn : MAX_FRAME_BYTES < n)
    (rest : Bytes) : decode (beBytes 4 n ++ rest) = .err (.tooLarge n) := by
  have hhead : ∃ b₀ b₁ b₂ b₃, beBytes 4 n = [b₀, b₁, b₂, b₃] := ⟨_, _, _, _, rfl⟩
  obtain ⟨b₀, b₁, b₂, b₃, hb⟩ := hhead
  have hval : ofBe [b₀, b₁, b₂, b₃] = n := by
    rw [← hb, ofBe_beBytes hmax]
  rw [decode, hb, if_neg (by simp)]
  simp only [index, Outcome.expectSome, Outcome.ok_bind, List.cons_append,
    List.getElem?_cons_zero, List.getElem?_cons_succ, hval, if_pos hn]

/-- A buffer is too short for a length, or begins with one that is too large or with one that
is not. -/
inductive Begins (buf : Bytes) : Prop where
  | short (h : buf.length < 4)
  | tooLarge (n : Nat) (rest : Bytes) (hmax : n < 256 ^ 4) (hn : MAX_FRAME_BYTES < n)
      (hbuf : buf = beBytes 4 n ++ rest)
  | length (n : Nat) (rest : Bytes) (hn : n ≤ MAX_FRAME_BYTES) (hbuf : buf = beBytes 4 n ++ rest)

theorem begins (buf : Bytes) : Begins buf := by
  rcases Nat.lt_or_ge buf.length 4 with hshort | hlong
  · exact .short hshort
  · obtain ⟨n, rest, hmax, hbuf⟩ := exists_length hlong
    rcases Nat.lt_or_ge MAX_FRAME_BYTES n with hn | hn
    · exact .tooLarge n rest hmax hn hbuf
    · exact .length n rest hn hbuf

/-! ## More bytes -/

/-- What is decoded from a buffer that needs no more bytes does not change with more of them. -/
theorem decode_append {b : Bytes} (h : ∀ k, decode b ≠ .ok (.more k)) (x : Bytes) :
    decode (b ++ x) = decode b := by
  cases begins b with
  | short hshort => exact absurd (decode_of_short hshort) (h _)
  | tooLarge n rest hmax hn hbuf =>
      rw [hbuf, List.append_assoc, decode_of_tooLarge hmax hn, decode_of_tooLarge hmax hn]
  | length n rest hn hbuf =>
      have hx : b ++ x = beBytes 4 n ++ (rest ++ x) := by rw [hbuf, List.append_assoc]
      have hrest : n ≤ rest.length := by
        by_contra hlt
        exact h _ (by rw [decode_of_length hn hbuf, if_pos (Nat.lt_of_not_le hlt)])
      rw [decode_of_length hn hx, if_neg (by rw [List.length_append]; omega),
        decode_of_length hn hbuf, if_neg (Nat.not_lt.mpr hrest),
        List.take_append_of_le_length hrest]

theorem decode_append_frame {b : Bytes} {v : Value} {n : Nat} (h : decode b = .ok (.frame v n))
    (x : Bytes) : decode (b ++ x) = .ok (.frame v n) := by
  rw [decode_append (by rw [h]; nofun), h]

theorem decode_append_err {b : Bytes} {e : DecodeFrameError} (h : decode b = .err e)
    (x : Bytes) : decode (b ++ x) = .err e := by
  rw [decode_append (by rw [h]; nofun), h]

/-- A frame that is still incomplete asks for what is still missing. -/
theorem decode_append_more {b x : Bytes} {k : Nat} (h : decode b = .ok (.more k))
    (hx : x.length < k) : decode (b ++ x) = .ok (.more (k - x.length)) := by
  cases begins b with
  | short hshort =>
      rw [decode_of_short hshort] at h
      simp only [Outcome.ok.injEq, Decoded.more.injEq] at h
      rw [decode_of_short (by rw [List.length_append]; omega), List.length_append, ← h,
        Nat.sub_sub]
  | tooLarge n rest hmax hn hbuf =>
      rw [hbuf, decode_of_tooLarge hmax hn] at h
      cases h
  | length n rest hn hbuf =>
      rw [decode_of_length hn hbuf] at h
      split at h
      · next hrest =>
          simp only [Outcome.ok.injEq, Decoded.more.injEq] at h
          have hbx : b ++ x = beBytes 4 n ++ (rest ++ x) := by rw [hbuf, List.append_assoc]
          rw [decode_of_length hn hbx, if_pos (by rw [List.length_append]; omega),
            List.length_append, ← h, Nat.sub_sub]
      · obtain ⟨v, -, hv⟩ := Outcome.bind_eq_ok.mp h
        cases hv

/-- A decoded frame takes its length and no byte beyond the buffer. -/
theorem decode_frame_le {b : Bytes} {v : Value} {n : Nat} (h : decode b = .ok (.frame v n)) :
    4 ≤ n ∧ n ≤ b.length := by
  cases begins b with
  | short hshort =>
      rw [decode_of_short hshort] at h
      cases h
  | tooLarge n rest hmax hn hbuf =>
      rw [hbuf, decode_of_tooLarge hmax hn] at h
      cases h
  | length len rest hn hbuf =>
      rw [decode_of_length hn hbuf] at h
      split at h
      · cases h
      · obtain ⟨w, -, hw⟩ := Outcome.bind_eq_ok.mp h
        cases hw
        rw [hbuf, List.length_append, length_beBytes]
        omega

/-- A decoded frame is a value of the format. -/
theorem decode_frame_fits {b : Bytes} {v : Value} {n : Nat} (h : decode b = .ok (.frame v n)) :
    Cbor.Fits 0 v := by
  cases begins b with
  | short hshort =>
      rw [decode_of_short hshort] at h
      cases h
  | tooLarge n rest hmax hn hbuf =>
      rw [hbuf, decode_of_tooLarge hmax hn] at h
      cases h
  | length len rest hn hbuf =>
      rw [decode_of_length hn hbuf] at h
      split at h
      · cases h
      · obtain ⟨w, hw, heq⟩ := Outcome.bind_eq_ok.mp h
        cases heq
        exact (Cbor.decode_eq_ok.mp (Outcome.mapErr_eq_ok.mp hw)).fits

/-- **A frame is decoded or refused**, whatever the buffer holds. -/
theorem decode_ne_panicked (b : Bytes) : decode b ≠ .panicked := by
  cases begins b with
  | short hshort =>
      rw [decode_of_short hshort]
      nofun
  | tooLarge n rest hmax hn hbuf =>
      rw [hbuf, decode_of_tooLarge hmax hn]
      nofun
  | length n rest hn hbuf =>
      rw [decode_of_length hn hbuf]
      split
      · nofun
      · refine Outcome.bind_ne_panicked ?_ fun _ _ => nofun
        rw [Ne, Outcome.mapErr_eq_panicked]
        exact Cbor.decode_ne_panicked _

/-! ## All frames -/

/-- The frames at the head of `s`, up to the first fault or the incomplete tail. -/
def frames (s : Bytes) : List Value :=
  match _ : decode s with
  | .ok (.frame v n) => v :: frames (s.drop n)
  | _ => []
termination_by s.length
decreasing_by
  rename_i h
  have hn := decode_frame_le h
  rw [List.length_drop]
  omega

theorem frames_of_frame {s : Bytes} {v : Value} {n : Nat} (h : decode s = .ok (.frame v n)) :
    frames s = v :: frames (s.drop n) := by
  rw [frames]
  split
  · next v' n' h' =>
      rw [h] at h'
      cases h'
      rfl
  · next hnot => exact absurd h (hnot v n)

theorem frames_of_not_frame {s : Bytes} (h : ∀ v n, decode s ≠ .ok (.frame v n)) :
    frames s = [] := by
  rw [frames]
  split
  · next v n h' => exact absurd h' (h v n)
  · rfl

end Macula.Frame

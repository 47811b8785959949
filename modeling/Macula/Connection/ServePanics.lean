import Macula.Connection.Answered
import Macula.Inbound

/-!
# When a provider panics

A provider answers with whatever its handler returned.  The reply is signed in the task that
serves, not in the task of the handler, so a value with an integer out of range takes the
provider down, and every later CALL with it.  `served_iff` says that nothing else does.
-/

namespace Macula.Connection

variable (E : Ed25519) (C : Ucan.TokenCodec) (identity : KeyPair)

/-- The reply that comes up to be signed has an integer out of range. -/
def Unsignable (s : Server) : ServeEvent → Prop
  | .build _ => ∃ call answer, s.pc = .replying call answer ∧ ¬ answer.InRange
  | _ => False

/-! ## One step -/

theorem Server.sent_ne_panicked (s : Server) (result : Outcome SendFrameError Unit)
    (next : Next) : (s.sent result next).pc ≠ .panicked := by
  cases next <;> nofun

/-- A frame that is signed and in range is written, or refused. -/
theorem Server.send_ne_panicked (s : Server) {frame : Cbor.Value} (h : frame.IntsInRange)
    (next : Next) : (s.send (.ok frame) next).pc ≠ .panicked := by
  simp only [Server.send, Frame.encode_of_inRange h]
  split
  · simp
  · exact s.sent_ne_panicked _ next
  · next hencode => split at hencode <;> cases hencode

theorem Server.received_ne_panicked {s : Server} {service : Service}
    (hpc : s.pc = .receiving service) (now : Int) (requestId : ByteArr 16) (frame : Cbor.Value) :
    (s.received E C service now requestId frame).pc ≠ .panicked := by
  unfold Server.received
  cases hparse : Frame.parseCall frame with
  | ok call =>
      simp only [Server.dispatch]
      cases hadmit : service.admit E C now call with
      | ok _ => simp
      | err _ => simp
      | panicked => exact absurd hadmit (service.admit_ne_panicked E C now call)
  | err _ =>
      rw [hpc]
      simp
  | panicked => exact absurd hparse (Frame.parseCall_ne_panicked frame)

theorem ne_panicked_step {s s' : Server} {e : ServeEvent} (hsign : ¬ Unsignable s e)
    (h : stepServe E C identity s e = some s') : s'.pc ≠ .panicked := by
  revert h
  fun_cases stepServe E C identity s e
  all_goals intro h; first | (obtain rfl := Option.some.inj h) | cases h
  case case3 now requestId service hpc value consumed hdecode =>
    exact Server.received_ne_panicked E C (by exact hpc) now requestId value
  case case6 now requestId service hpc hdecode =>
    exact absurd hdecode (Frame.decode_ne_panicked s.buf)
  case case12 stamp call requestId hpc =>
    obtain ⟨frame, hframe, hfact⟩ := announceRpcReceived_ok E call.realm identity requestId stamp
    rw [hframe]
    exact s.send_ne_panicked hfact.1 _
  case case13 stamp call requestId handlerErr answer hpc =>
    obtain ⟨frame, hframe, hfact⟩ :=
      announceRpcReplied_ok E call.realm identity requestId handlerErr stamp
    rw [hframe]
    exact s.send_ne_panicked hfact.1 _
  case case14 stamp call answer hpc =>
    have hrange : answer.InRange := by
      by_contra hnot
      exact hsign ⟨call, answer, hpc, hnot⟩
    obtain ⟨signed, hsigned, hsignedRange, -⟩ := Answer.sign_ok E call.callId
      (identity.nodeId E) stamp.frameId stamp.sentAtMs hrange identity
    rw [hsigned]
    exact s.send_ne_panicked hsignedRange .finish
  case case20 => exact Server.sent_ne_panicked _ _ _
  case case21 => exact Server.sent_ne_panicked _ _ _
  all_goals simp

/-- Signing what cannot be signed takes the provider down. -/
theorem panicked_of_unsignable {s : Server} {e : ServeEvent} (h : Unsignable s e) :
    ∃ s', stepServe E C identity s e = some s' ∧ s'.pc = .panicked := by
  cases e with
  | build stamp =>
      obtain ⟨call, answer, hpc, hrange⟩ := h
      refine ⟨_, by rw [stepServe, hpc], ?_⟩
      rw [Answer.sign_panicked E call.callId (identity.nodeId E) stamp.frameId stamp.sentAtMs
        hrange identity]
      rfl
  | _ => exact h.elim

/-! ## Runs -/

/-- *A provider goes down exactly when it comes to sign a reply with an integer out of range.* -/
theorem served_iff (leftover : Bytes) (events : List ServeEvent) :
    (∀ pre s, pre <+: events → run (stepServe E C identity) (.start leftover) pre = some s →
      s.pc ≠ .panicked) ↔
    Guarded (stepServe E C identity) (fun s e => ¬ Unsignable s e) (.start leftover) events := by
  let up : Server → Prop := fun s => s.pc ≠ .panicked
  refine good_iff_guarded up up ?_ (fun _ hi => hi) ?_ nofun
  · intro s e s' _ hsign hs
    exact ne_panicked_step E C identity hsign hs
  · intro s e hi hsign
    obtain ⟨s', hs', hpc⟩ := panicked_of_unsignable E C identity (not_not.mp hsign)
    exact ⟨s', hs', not_not.mpr hpc⟩

/-! ## Handlers that stay in range -/

def Next.answer : Next → Option Answer
  | .reply _ answer => some answer
  | .handle .. | .finish => none

/-- The reply that has been decided on. -/
def ServePc.answer : ServePc → Option Answer
  | .announcingReply _ _ _ answer | .replying _ answer => some answer
  | .writing _ _ next => next.answer
  | _ => none

/-- The provider is up, and what it is about to reply is in range. -/
structure Server.Sound (s : Server) : Prop where
  up : s.pc ≠ .panicked
  answer : ∀ answer ∈ s.pc.answer, answer.InRange

theorem Server.sound_start (leftover : Bytes) : (Server.start leftover).Sound where
  up := nofun
  answer _ h := by cases h

theorem Server.sent_answer {s : Server} {result : Outcome SendFrameError Unit} {next : Next}
    {answer : Answer} (h : answer ∈ (s.sent result next).pc.answer) : answer ∈ next.answer := by
  cases next with
  | handle call requestId => cases h
  | reply call answer' => exact h
  | finish => cases h

theorem Server.send_answer {s : Server} {signed : Outcome SendFrameError Cbor.Value} {next : Next}
    {answer : Answer} (h : answer ∈ (s.send signed next).pc.answer) : answer ∈ next.answer := by
  unfold Server.send at h
  split at h
  · split at h
    · exact h
    · exact Server.sent_answer h
    · cases h
  · exact Server.sent_answer h
  · cases h

/-- What a CALL is refused with has no value of anybody in it. -/
theorem Server.received_answer {s : Server} {service : Service} {now : Int}
    {requestId : ByteArr 16} {frame : Cbor.Value} {answer : Answer}
    (hpc : s.pc = .receiving service)
    (h : answer ∈ (s.received E C service now requestId frame).pc.answer) : answer.InRange := by
  unfold Server.received at h
  split at h
  · unfold Server.dispatch at h
    split at h
    · cases h
    · cases h
      trivial
    · cases h
  · rw [hpc] at h
    cases h
  · cases h

theorem sound_step {s s' : Server} {e : ServeEvent} (hi : s.Sound)
    (hend : ∀ ending, e = .handled ending → ending.answer.InRange)
    (h : stepServe E C identity s e = some s') : s'.Sound := by
  have hsign : ¬ Unsignable s e := by
    intro hbad
    cases e with
    | build stamp =>
        obtain ⟨call, answer, hpc, hrange⟩ := hbad
        exact hrange (hi.answer answer (by rw [hpc]; rfl))
    | _ => exact hbad
  refine ⟨ne_panicked_step E C identity hsign h, ?_⟩
  revert h
  fun_cases stepServe E C identity s e
  all_goals intro h answer hanswer; cases h
  case case3 now requestId service hpc value consumed hdecode =>
    exact Server.received_answer E C (by exact hpc) hanswer
  case case12 stamp call requestId hpc => cases Server.send_answer hanswer
  case case13 stamp call requestId handlerErr answer' hpc =>
    exact hi.answer answer (by rw [hpc]; exact Server.send_answer hanswer)
  case case14 stamp call answer' hpc => cases Server.send_answer hanswer
  case case16 call requestId hpc value =>
    cases hanswer
    exact hend _ rfl
  case case17 call requestId hpc reason =>
    cases hanswer
    exact hend _ rfl
  case case18 call requestId hpc =>
    cases hanswer
    exact hend _ rfl
  case case20 ending frame encoded next hpc out hwrite =>
    exact hi.answer answer (by rw [hpc]; exact Server.sent_answer hanswer)
  case case21 ending frame encoded next hpc out result hresult hwrite =>
    exact hi.answer answer (by rw [hpc]; exact Server.sent_answer hanswer)
  all_goals cases hanswer

end Macula.Connection

import Macula.Connection.Serve
import Macula.Lib.Runs

/-!
# Every consumed CALL is answered

The log of a server pairs each consumed CALL with its reply.  `Server.Ok` says what is owed at
each place of `serve_one_call_gated`, and an event that is not `Lost` keeps it.  A lost one
ends the running call with a CALL that nothing answers any more, so `answered_iff` is exact.

`stream_eq_log` ties the log to the bytes: the stream has the frames of the log.
-/

namespace Macula.Connection

open Macula.Cbor (Value canon)
open Macula.Frame (CallInfo)

/-! ## Logs -/

/-- Whether a frame answers a CALL. -/
def isReply (frame : Value) : Bool :=
  frame.get "frame_type" = some (.text "result") ∨ frame.get "frame_type" = some (.text "error")

/-- The CALLs and the replies of a log. -/
def Entry.isTraffic : Entry → Bool
  | .consumed _ => true
  | .sent frame => isReply frame

/-- Each CALL is followed by one reply, which has its `call_id`. -/
def Paired : List Entry → Prop
  | [] => True
  | .consumed call :: .sent frame :: rest =>
      Frame.frameCallId frame = some call.callId ∧ Paired rest
  | _ => False

def Answered (log : List Entry) : Prop := Paired (log.filter Entry.isTraffic)

/-- The last CALL of the log waits for its reply, and the others have theirs. -/
def Owes (log : List Entry) (call : CallInfo) : Prop :=
  ∃ paired, Paired paired ∧ log.filter Entry.isTraffic = paired ++ [.consumed call]

theorem Paired.concat {call : CallInfo} {frame : Value}
    (hid : Frame.frameCallId frame = some call.callId) : ∀ {log : List Entry}, Paired log →
      Paired (log ++ [.consumed call, .sent frame])
  | [], _ => ⟨hid, trivial⟩
  | .consumed _ :: .sent _ :: _, h => ⟨h.1, h.2.concat hid⟩
  | [.consumed _], h | .consumed _ :: .consumed _ :: _, h | .sent _ :: _, h => h.elim

theorem not_paired_concat (call : CallInfo) : ∀ {log : List Entry}, Paired log →
    ¬ Paired (log ++ [.consumed call])
  | [], _, h => h
  | .consumed _ :: .sent _ :: _, hlog, h => not_paired_concat call hlog.2 h.2
  | [.consumed _], h, _ | .consumed _ :: .consumed _ :: _, h, _ | .sent _ :: _, h, _ => h

theorem Answered.consume {log : List Entry} (h : Answered log) (call : CallInfo) :
    Owes (log ++ [.consumed call]) call :=
  ⟨_, h, by rw [List.filter_append]; rfl⟩

theorem Owes.fact {log : List Entry} {call : CallInfo} {frame : Value} (h : Owes log call)
    (hframe : isReply frame = false) : Owes (log ++ [.sent frame]) call := by
  obtain ⟨paired, hpaired, hlog⟩ := h
  refine ⟨paired, hpaired, ?_⟩
  rw [List.filter_append, hlog, List.filter_cons, Entry.isTraffic, hframe]
  simp

theorem Owes.reply {log : List Entry} {call : CallInfo} {frame : Value} (h : Owes log call)
    (hframe : isReply frame = true) (hid : Frame.frameCallId frame = some call.callId) :
    Answered (log ++ [.sent frame]) := by
  obtain ⟨paired, hpaired, hlog⟩ := h
  rw [Answered, List.filter_append, hlog, List.filter_cons, Entry.isTraffic, hframe,
    List.append_assoc]
  exact hpaired.concat hid

theorem Owes.not_answered {log : List Entry} {call : CallInfo} (h : Owes log call) :
    ¬ Answered log := by
  obtain ⟨paired, hpaired, hlog⟩ := h
  rw [Answered, hlog]
  exact not_paired_concat call hpaired

theorem not_isReply_of_isFact {frame : Value} (h : IsFact frame) : isReply frame = false := by
  simp [isReply, h.2]

/-! ## One event -/

variable (E : Ed25519) (C : Ucan.TokenCodec) (identity : KeyPair)

@[simp] theorem Server.ret_out (s : Server) (result : Outcome ServeCallError Unit) :
    (s.ret result).out = s.out := rfl

@[simp] theorem Server.ret_log (s : Server) (result : Outcome ServeCallError Unit) :
    (s.ret result).log = s.log := rfl

@[simp] theorem Server.sent_out (s : Server) (result : Outcome SendFrameError Unit) (next : Next) :
    (s.sent result next).out = s.out := by
  cases next <;> rfl

@[simp] theorem Server.sent_log (s : Server) (result : Outcome SendFrameError Unit) (next : Next) :
    (s.sent result next).log = s.log := by
  cases next <;> rfl

@[simp] theorem Server.send_out (s : Server) (signed : Outcome SendFrameError Value)
    (next : Next) : (s.send signed next).out = s.out := by
  unfold Server.send
  split
  · split
    · rfl
    · exact s.sent_out _ next
    · rfl
  · exact s.sent_out _ next
  · rfl

@[simp] theorem Server.send_log (s : Server) (signed : Outcome SendFrameError Value)
    (next : Next) : (s.send signed next).log = s.log := by
  unfold Server.send
  split
  · split
    · rfl
    · exact s.sent_log _ next
    · rfl
  · exact s.sent_log _ next
  · rfl

@[simp] theorem Server.dispatch_out (s : Server) (service : Service) (now : Int)
    (requestId : ByteArr 16) (call : CallInfo) :
    (s.dispatch E C service now requestId call).out = s.out := by
  unfold Server.dispatch
  split <;> rfl

@[simp] theorem Server.dispatch_log (s : Server) (service : Service) (now : Int)
    (requestId : ByteArr 16) (call : CallInfo) :
    (s.dispatch E C service now requestId call).log = s.log := by
  unfold Server.dispatch
  split <;> rfl

@[simp] theorem Server.received_out (s : Server) (service : Service) (now : Int)
    (requestId : ByteArr 16) (frame : Value) :
    (s.received E C service now requestId frame).out = s.out := by
  unfold Server.received
  split
  · exact (s.consume _).dispatch_out E C service now requestId _
  · rfl
  · rfl

/-- What is owed while a frame is written. -/
def Next.Owed (log : List Entry) (frame : Value) : Next → Prop
  | .handle call _ | .reply call _ => isReply frame = false ∧ Owes log call
  | .finish => ∃ call, isReply frame = true ∧ Frame.frameCallId frame = some call.callId ∧
      Owes log call

/-- Between two calls nothing is owed; from the CALL to its reply one reply is. -/
def Server.Ok (s : Server) : Prop :=
  match s.pc with
  | .idle => Answered s.log ∧ (s.returned = some (.err .timeout) → s.taken = false)
  | .receiving _ | .reading _ => Answered s.log ∧ s.taken = false
  | .panicked => Answered s.log
  | .announcing call _ | .handling call _ | .announcingReply call _ _ _ | .replying call _ =>
      Owes s.log call ∧ s.taken = true
  | .writing frame encoded next =>
      Frame.encode frame = .ok encoded ∧ next.Owed s.log frame ∧ s.taken = true

/-- An event after which a consumed CALL stays without its reply: the timeout expires when
one is owed, or the handler's value does not fit a RESULT. -/
def Lost (s : Server) : ServeEvent → Prop
  | .expire _ => s.out.failed = false ∧
      match s.pc with
      | .handling .. | .writing .. => True
      | _ => False
  | .build stamp => s.out.failed = false ∧
      match s.pc with
      | .replying _ answer => ¬ answer.Sendable stamp.sentAtMs
      | _ => False
  | _ => False

theorem Service.admit_ne_panicked (service : Service) (now : Int) (call : CallInfo) :
    service.admit E C now call ≠ .panicked := by
  refine Outcome.bind_ne_panicked ?_ (fun _ _ => ?_)
  · rw [Ne, Outcome.mapErr_eq_panicked]
    exact Ucan.Policy.check_ne_panicked E C _ now _
  · split <;> nofun

theorem ok_received {s : Server} {service : Service} (hpc : s.pc = .receiving service)
    (hlog : Answered s.log) (htaken : s.taken = false) (now : Int) (requestId : ByteArr 16)
    (frame : Value) : (s.received E C service now requestId frame).Ok := by
  unfold Server.received
  cases Frame.parseCall frame with
  | ok call =>
      simp only [Server.dispatch]
      cases hadmit : service.admit E C now call with
      | ok _ => exact ⟨hlog.consume call, rfl⟩
      | err _ => exact ⟨hlog.consume call, rfl⟩
      | panicked => exact absurd hadmit (service.admit_ne_panicked E C now call)
  | err _ =>
      simp only [Server.Ok, hpc]
      exact ⟨hlog, htaken⟩
  | panicked => exact hlog

/-- A fact leaves the reply owed, whether it is written or not. -/
theorem ok_send_fact {s : Server} {frame : Value} {next : Next} (hfact : IsFact frame)
    (hnext : next.Owed s.log frame) (htaken : s.taken = true) (hfinish : next ≠ .finish) :
    (s.send (.ok frame) next).Ok := by
  simp only [Server.send, Frame.encode_of_inRange hfact.1]
  split
  · next hencode => exact ⟨(Frame.encode_of_inRange hfact.1).trans hencode, hnext, htaken⟩
  · cases next with
    | handle call requestId => exact ⟨hnext.2, htaken⟩
    | reply call answer => exact ⟨hnext.2, htaken⟩
    | finish => exact absurd rfl hfinish
  · next hencode =>
      split at hencode <;> cases hencode

/-- A reply that can be sent is next. -/
theorem ok_send_reply {s : Server} {call : CallInfo} {answer : Answer} {stamp : Stamp}
    (howes : Owes s.log call) (htaken : s.taken = true)
    (hsendable : answer.Sendable stamp.sentAtMs) :
    (s.send (Frame.sign E (answer.frame call.callId (identity.nodeId E) stamp.frameId
      stamp.sentAtMs) identity) .finish).Ok := by
  obtain ⟨signed, hsigned, hrange, hlen, hid, htype⟩ := Answer.sign_ok E call.callId
    (identity.nodeId E) stamp.frameId stamp.sentAtMs hsendable.1 identity
  have hencode := Frame.encode_of_inRange hrange
  rw [if_neg (Nat.not_lt.mpr (hlen.trans_le hsendable.2))] at hencode
  simp only [Server.send, hsigned, hencode]
  exact ⟨hencode, ⟨call, by simpa [isReply] using htype, hid, howes⟩, htaken⟩

/-- A reply that cannot be sent leaves the call without it. -/
theorem send_lost {s : Server} {call : CallInfo} {answer : Answer} {stamp : Stamp}
    (hsendable : ¬ answer.Sendable stamp.sentAtMs) :
    let s' := s.send (Frame.sign E (answer.frame call.callId (identity.nodeId E) stamp.frameId
      stamp.sentAtMs) identity) .finish
    s'.pc = .idle ∨ s'.pc = .panicked := by
  by_cases hrange : answer.InRange
  · obtain ⟨signed, hsigned, hsignedRange, hlen, -, -⟩ := Answer.sign_ok E call.callId
      (identity.nodeId E) stamp.frameId stamp.sentAtMs hrange identity
    have hencode := Frame.encode_of_inRange hsignedRange
    rw [if_pos (Nat.lt_of_not_le fun hle => hsendable ⟨hrange, hlen.symm.trans_le hle⟩)] at hencode
    simp only [Server.send, hsigned, hencode]
    exact .inl rfl
  · rw [Answer.sign_panicked E call.callId (identity.nodeId E) stamp.frameId stamp.sentAtMs
      hrange identity]
    exact .inr rfl

theorem failed_of_step {s s' : Server} {e : ServeEvent} (h : stepServe E C identity s e = some s')
    (hok : s'.out.failed = false) : s.out.failed = false := by
  revert h
  fun_cases stepServe E C identity s e
  all_goals intro h; first | (obtain rfl := Option.some.inj h) | cases h
  case case20 ending frame encoded next hpc out hwrite =>
    exact (SendStream.writeAll_ok hwrite).1
  case case21 ending frame encoded next hpc out result hresult hwrite =>
    have hout : (s.out.writeAll encoded ending).1.failed = false := by
      rw [hwrite]
      simpa using hok
    exact SendStream.failed_of_writeAll hout
  case case26 n frame encoded next hpc =>
    exact SendStream.failed_of_writeAll hok
  all_goals simpa using hok

theorem ok_step {s s' : Server} {e : ServeEvent} (hi : s.Ok) (hlost : ¬ Lost s e)
    (h : stepServe E C identity s e = some s') (hok : s'.out.failed = false) : s'.Ok := by
  have hopen : s.out.failed = false := failed_of_step E C identity h hok
  revert h
  fun_cases stepServe E C identity s e
  all_goals intro h; first | (obtain rfl := Option.some.inj h) | cases h
  case case1 service hpc =>
    simp only [Server.Ok, hpc] at hi
    exact ⟨hi.1, rfl⟩
  case case3 now requestId service hpc frame consumed hdecode =>
    simp only [Server.Ok, hpc] at hi
    exact ok_received E C (s := { s with buf := s.buf.drop consumed }) hpc hi.1 hi.2 now
      requestId frame
  case case4 now requestId service hpc n hdecode =>
    simp only [Server.Ok, hpc] at hi
    exact hi
  case case5 now requestId service hpc error hdecode =>
    simp only [Server.Ok, hpc] at hi
    exact ⟨hi.1, nofun⟩
  case case6 now requestId service hpc hdecode =>
    simp only [Server.Ok, hpc] at hi
    exact hi.1
  case case8 service hpc b =>
    simp only [Server.Ok, hpc] at hi
    exact hi
  case case9 service hpc =>
    simp only [Server.Ok, hpc] at hi
    exact ⟨hi.1, nofun⟩
  case case10 service hpc =>
    simp only [Server.Ok, hpc] at hi
    exact ⟨hi.1, nofun⟩
  case case12 stamp call requestId hpc =>
    simp only [Server.Ok, hpc] at hi
    obtain ⟨frame, hframe, hfact⟩ := announceRpcReceived_ok E call.realm identity requestId stamp
    rw [hframe]
    exact ok_send_fact hfact ⟨not_isReply_of_isFact hfact, hi.1⟩ hi.2 nofun
  case case13 stamp call requestId handlerErr answer hpc =>
    simp only [Server.Ok, hpc] at hi
    obtain ⟨frame, hframe, hfact⟩ :=
      announceRpcReplied_ok E call.realm identity requestId handlerErr stamp
    rw [hframe]
    exact ok_send_fact hfact ⟨not_isReply_of_isFact hfact, hi.1⟩ hi.2 nofun
  case case14 stamp call answer hpc =>
    simp only [Server.Ok, hpc] at hi
    refine ok_send_reply E identity hi.1 hi.2 (not_not.mp fun hsendable => hlost ⟨hopen, ?_⟩)
    simpa only [hpc] using hsendable
  case case16 call requestId hpc value =>
    simp only [Server.Ok, hpc] at hi
    exact hi
  case case17 call requestId hpc reason =>
    simp only [Server.Ok, hpc] at hi
    exact hi
  case case18 call requestId hpc =>
    simp only [Server.Ok, hpc] at hi
    exact hi
  case case20 ending frame encoded next hpc out hwrite =>
    simp only [Server.Ok, hpc] at hi
    obtain ⟨-, howed, htaken⟩ := hi
    cases next with
    | handle call requestId => exact ⟨howed.2.fact howed.1, htaken⟩
    | reply call answer => exact ⟨howed.2.fact howed.1, htaken⟩
    | finish =>
        obtain ⟨call, hreply, hid, howes⟩ := howed
        exact ⟨howes.reply hreply hid, nofun⟩
  case case21 ending frame encoded next hpc out result hresult hwrite =>
    rw [Server.sent_out, SendStream.writeAll_err hwrite hresult] at hok
    cases hok
  case case24 n service hpc =>
    simp only [Server.Ok, hpc] at hi
    exact ⟨hi.1, fun _ => hi.2⟩
  case case25 n call requestId hpc =>
    exact absurd ⟨hopen, by simp only [hpc]⟩ hlost
  case case26 n frame encoded next hpc =>
    exact absurd ⟨hopen, by simp only [hpc]⟩ hlost

/-! ## Runs -/

/-- When nothing runs any more, every consumed CALL has its reply, and a timeout was no
CALL's. -/
def Served (s : Server) : Prop :=
  s.out.failed = false →
    match s.pc with
    | .idle => Answered s.log ∧ (s.returned = some (.err .timeout) → s.taken = false)
    | .panicked => Answered s.log
    | _ => True

theorem Server.Ok.served {s : Server} (h : s.Ok) : Served s := by
  intro _
  unfold Server.Ok at h
  split
  · next hpc => simpa only [hpc] using h
  · next hpc => simpa only [hpc] using h
  · trivial

theorem lost_step {s : Server} {e : ServeEvent} (hi : s.Ok) (hlost : Lost s e) :
    ∃ s', stepServe E C identity s e = some s' ∧ ¬ Served s' := by
  cases e with
  | build stamp =>
      obtain ⟨hopen, hlost⟩ := hlost
      cases hpc : s.pc with
      | replying call answer =>
          simp only [Server.Ok, hpc] at hi hlost
          refine ⟨_, by rw [stepServe, hpc], fun hserved => ?_⟩
          have hlog : Answered (s.send (Frame.sign E (answer.frame call.callId
              (identity.nodeId E) stamp.frameId stamp.sentAtMs) identity) .finish).log := by
            have hend := hserved (by rwa [Server.send_out])
            rcases send_lost (s := s) E identity hlost with hidle | hpanicked
            · rw [hidle] at hend
              exact hend.1
            · rw [hpanicked] at hend
              exact hend
          rw [Server.send_log] at hlog
          exact hi.1.not_answered hlog
      | _ => simp only [hpc] at hlost
  | expire n =>
      obtain ⟨hopen, hlost⟩ := hlost
      cases hpc : s.pc with
      | handling call requestId =>
          simp only [Server.Ok, hpc] at hi
          refine ⟨_, by rw [stepServe, hpc], fun hserved => ?_⟩
          exact absurd ((hserved hopen).2 rfl) (by simp [Server.ret, hi.2])
      | writing frame encoded next =>
          simp only [Server.Ok, hpc] at hi
          refine ⟨_, by rw [stepServe, hpc], fun hserved => ?_⟩
          have hopen' : (s.out.writeAll encoded (.dropped n)).1.failed = false := by
            simp [SendStream.writeAll, hopen]
          exact absurd ((hserved hopen').2 rfl) (by simp [Server.ret, hi.2.2])
      | _ => simp only [hpc] at hlost
  | _ => exact hlost.elim

/-- **Every consumed CALL is answered, exactly when none is lost.**  Over any sequence of events
on a stream that has not failed, a call that has returned has answered the CALL it consumed with
one reply, and has not returned `Timeout` after consuming one, if and only if no timeout
expires while a reply is owed and every reply can be sent. -/
theorem answered_iff (leftover : Bytes) (events : List ServeEvent) :
    (∀ pre s, pre <+: events → run (stepServe E C identity) (.start leftover) pre = some s →
      Served s) ↔
    Guarded (stepServe E C identity) (fun s e => ¬ Lost s e) (.start leftover) events := by
  refine good_iff_guarded (fun s => s.out.failed = false → s.Ok) Served ?_ ?_ ?_
    (fun _ => ⟨trivial, nofun⟩)
  · intro s e s' hi hlost hs hok
    exact ok_step E C identity (hi (failed_of_step E C identity hs hok)) hlost hs hok
  · intro s hi hok
    exact (hi hok).served hok
  · intro s e hi hlost
    rw [not_not] at hlost
    have hopen : s.out.failed = false := by
      cases e with
      | build | expire => exact hlost.1
      | _ => exact hlost.elim
    exact lost_step E C identity (hi hopen) hlost

/-- A CALL of the procedure `p`. -/
def someCall : Value :=
  Frame.call ⟨.fill 1, "p", .fill 2, .null, 0,
    .fill 3, [], 0, []⟩ (.fill 4) 0

def serveAll : Service := ⟨fun _ _ => .open, fun _ _ => true⟩

def noTokens : Ucan.TokenCodec := ⟨Unit, fun _ => none, fun _ => none⟩

def provider : KeyPair := ⟨.fill 7⟩

/-- The handler takes longer than the timeout. -/
def slowHandler : List ServeEvent :=
  [.serve serveAll, .decode 0 (.fill 5),
   .build ⟨.fill 6, 0, 0, 0⟩, .written .done, .expire 0]

def callBytes : Bytes := Frame.wire (canon someCall)

def slow : Server :=
  runFrom (stepServe .standIn noTokens provider) (.start callBytes) slowHandler

instance : (pc : ServePc) → Decidable (pc = .idle)
  | .idle => isTrue rfl
  | .receiving _ | .reading _ | .announcing .. | .handling .. | .announcingReply ..
  | .replying .. | .writing .. | .panicked => isFalse nofun

/-- The timeout expires after the CALL is consumed. -/
theorem slow_run : ∃ s, run (stepServe .standIn noTokens provider) (.start callBytes) slowHandler =
    some s ∧ s.out.failed = false ∧ s.pc = .idle ∧ s.returned = some (.err .timeout) ∧
      s.taken = true := by
  refine ⟨slow, run_eq_runFrom (by decide +kernel), ?_⟩
  decide +kernel

theorem slow_handler_loses_call :
    ¬ ∀ (E : Ed25519) (C : Ucan.TokenCodec) (identity : KeyPair) (leftover : Bytes)
      (events pre : List ServeEvent) (s : Server), pre <+: events →
        run (stepServe E C identity) (.start leftover) pre = some s → Served s := by
  intro h
  obtain ⟨s, hrun, hopen, hpc, hreturned, htaken⟩ := slow_run
  have hserved := h .standIn noTokens provider callBytes slowHandler slowHandler s
    (List.prefix_refl _) hrun hopen
  rw [hpc] at hserved
  exact absurd (hserved.2 hreturned) (by rw [htaken]; nofun)

/-! ## The log is the stream -/

/-- What an entry of the log stands for on the stream. -/
def Entry.bytes : Entry → Bytes
  | .consumed _ => []
  | .sent frame => Frame.wire (canon frame)

/-- The frames of the log are on the stream, and nothing else is. -/
def Server.Logged (s : Server) : Prop := s.out.written = s.log.flatMap Entry.bytes

theorem Server.Logged.received {s : Server} (h : s.Logged) (service : Service) (now : Int)
    (requestId : ByteArr 16) (frame : Value) :
    (s.received E C service now requestId frame).Logged := by
  unfold Server.received
  split
  · rw [Server.Logged, Server.dispatch_out, Server.dispatch_log, Server.consume,
      List.flatMap_append]
    exact h.trans (List.append_nil _).symm
  · exact h
  · exact h

theorem logged_step {s s' : Server} {e : ServeEvent} (hl : s.Logged) (hi : s.Ok)
    (hlost : ¬ Lost s e) (h : stepServe E C identity s e = some s')
    (hok : s'.out.failed = false) : s'.Logged := by
  have hopen : s.out.failed = false := failed_of_step E C identity h hok
  revert h
  fun_cases stepServe E C identity s e
  all_goals intro h; first | (obtain rfl := Option.some.inj h) | cases h
  case case3 now requestId service hpc frame consumed hdecode =>
    exact Server.Logged.received E C (s := { s with buf := s.buf.drop consumed }) hl service now
      requestId frame
  case case20 ending frame encoded next hpc out hwrite =>
    simp only [Server.Ok, hpc] at hi
    obtain ⟨-, -, hencoded⟩ := Frame.encode_eq_ok.mp hi.1
    obtain ⟨-, rfl⟩ := SendStream.writeAll_ok hwrite
    rw [Server.Logged, Server.sent_out, Server.sent_log, Server.put, List.flatMap_append, hencoded,
      hl]
    exact congrArg _ (List.append_nil _).symm
  case case21 ending frame encoded next hpc out result hresult hwrite =>
    rw [Server.sent_out, SendStream.writeAll_err hwrite hresult] at hok
    cases hok
  case case26 n frame encoded next hpc =>
    exact absurd ⟨hopen, by simp only [hpc]⟩ hlost
  all_goals simpa [Server.Logged] using hl

/-- In a run that loses no CALL the stream has the frames of the log. -/
theorem stream_eq_log {leftover : Bytes} {events : List ServeEvent} {s : Server}
    (hg : Guarded (stepServe E C identity) (fun s e => ¬ Lost s e) (.start leftover) events)
    (hrun : run (stepServe E C identity) (.start leftover) events = some s)
    (hok : s.out.failed = false) : s.out.written = s.log.flatMap Entry.bytes := by
  have hinv := run_invariant (fun s => s.out.failed = false → s.Ok ∧ s.Logged) ?_
    (fun _ => ⟨⟨trivial, nofun⟩, rfl⟩) hg hrun
  · exact (hinv hok).2
  · intro s e s' hi hlost hs hok
    obtain ⟨hiok, hl⟩ := hi (failed_of_step E C identity hs hok)
    exact ⟨ok_step E C identity hiok hlost hs hok, logged_step E C identity hl hiok hlost hs hok⟩

end Macula.Connection

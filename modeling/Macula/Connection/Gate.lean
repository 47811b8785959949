import Macula.Connection.Answered
import Macula.Lib.Base64

/-!
# The gate before a handler

One call of `serve_one_call_gated`, with what it asks of the provider's own functions: the
policy of the procedure, the lookup of its handler, and the handler.  A gated procedure is
looked up only for an authorised token, and any other CALL of it is answered with
`unauthorized`.

The token is read by nothing behind the check.  `withoutToken` forgets it, and every step
after the check looks at no more than that.
-/

namespace Macula.Connection

open Macula.Cbor (Value)
open Macula.Frame (CallInfo)

variable (E : Ed25519) (C : Ucan.TokenCodec) (identity : KeyPair)

/-- A function of the provider that runs. -/
inductive Invocation where
  | policy (realm : ByteArr 32) (procedure : String)
  | lookup (realm : ByteArr 32) (procedure : String)
  /-- What the lookup gave for the realm and the procedure runs on a payload. -/
  | handler (realm : ByteArr 32) (procedure : String) (payload : Value)
deriving DecidableEq

/-- `build_call_reply` up to its first fact, with what it invokes. -/
def Service.gate (service : Service) (now : Int) (call : CallInfo) :
    List Invocation × Outcome Bolt4.Code Unit :=
  match (service.policy call.realm call.procedure).check E C now call.ucanToken with
  | .ok () =>
      ([.policy call.realm call.procedure, .lookup call.realm call.procedure],
        if service.lookup call.realm call.procedure then .ok () else .err .unknownNextPeer)
  | .err _ => ([.policy call.realm call.procedure], .err .unauthorized)
  | .panicked => ([.policy call.realm call.procedure], .panicked)

/-- A CALL that was taken, with the frame it came in and the time its token was checked. -/
structure Taken where
  now : Int
  frame : Value
  call : CallInfo

/-- The CALL that an event takes from the receive buffer. -/
def takes (s : Server) : ServeEvent → Option (Service × Taken)
  | .decode now _ =>
      match s.pc, Frame.decode s.buf with
      | .receiving service, .ok (.frame frame _) =>
          match Frame.parseCall frame with
          | .ok call => some (service, ⟨now, frame, call⟩)
          | .err _ | .panicked => none
      | _, _ => none
  | _ => none

/-- What a step invokes: the gate for the CALL it takes, and a handler where it ends in one. -/
def invoked (s : Server) (e : ServeEvent) (s' : Server) : List Invocation :=
  ((takes s e).map fun (service, taken) => (service.gate E C taken.now taken.call).1).getD [] ++
    match s'.pc with
    | .handling call _ => [.handler call.realm call.procedure call.payload]
    | _ => []

/-- A provider with the last CALL it took and everything it has invoked. -/
structure Gated where
  server : Server
  taken : Option Taken
  invocations : List Invocation

def gatedStep (g : Gated) (e : ServeEvent) : Option Gated :=
  (stepServe E C identity g.server e).map fun s =>
    { server := s
      taken := ((takes g.server e).map Prod.snd).or g.taken
      invocations := g.invocations ++ invoked E C g.server e s }

def ServeEvent.isServe : ServeEvent → Bool
  | .serve _ => true
  | _ => false

/-- The gate decides what `admit` does. -/
theorem Service.gate_snd (service : Service) (now : Int) (call : CallInfo) :
    (service.gate E C now call).2 = service.admit E C now call := by
  simp only [Service.gate, Service.admit]
  cases (service.policy call.realm call.procedure).check E C now call.ucanToken with
  | ok passed => rfl
  | err e => rfl
  | panicked => rfl

/-- The record is of the steps, and changes none of them. -/
theorem gatedStep_server (g : Gated) (e : ServeEvent) :
    (gatedStep E C identity g e).map Gated.server = stepServe E C identity g.server e := by
  simp [gatedStep, Function.comp_def]

/-! ## Who is invoked -/

/-- What a CALL may lead to. -/
def invocationsOf (call : CallInfo) : List Invocation :=
  [.policy call.realm call.procedure, .lookup call.realm call.procedure,
    .handler call.realm call.procedure call.payload]

/-- The CALL a place is about. -/
def Next.For (call : CallInfo) : Next → Prop
  | .handle call' _ | .reply call' _ => call' = call
  | .finish => True

def ServePc.For (call : CallInfo) : ServePc → Prop
  | .announcing call' _ | .handling call' _ | .announcingReply call' _ _ _
  | .replying call' _ => call' = call
  | .writing _ _ next => next.For call
  | .idle | .panicked => True
  | .receiving _ | .reading _ => False

/-- The ERROR that refuses a CALL, signed. -/
def IsRefusal (call : CallInfo) (frame : Value) : Prop :=
  ∃ frameId sentAtMs, (Frame.sign E (Frame.callError
    { callId := call.callId, code := .unauthorized, reportedBy := identity.nodeId E }
    frameId sentAtMs) identity : Outcome SendFrameError Value) = .ok frame

/-- A CALL is refused, with what was logged before it, and the ERROR is not written. -/
def Server.Refusing (s : Server) (call : CallInfo) (before : List Entry) : Prop :=
  s.log = before ++ [.consumed call] ∧ s.returned ≠ some (.ok ()) ∧
    match s.pc with
    | .replying call' answer => call' = call ∧ answer = .error .unauthorized none
    | .writing frame _ next => IsRefusal E identity call frame ∧ next = .finish
    | .idle => True
    | _ => False

/-- The ERROR is written. -/
def Server.Refused (s : Server) (call : CallInfo) (before : List Entry) : Prop :=
  ∃ frame, IsRefusal E identity call frame ∧
    s.log = before ++ [.consumed call, .sent frame] ∧ s.pc = .idle

def Service.Passes (service : Service) (taken : Taken) : Prop :=
  (service.policy taken.call.realm taken.call.procedure).check E C taken.now
    taken.call.ucanToken = .ok ()

/-- Nothing has been taken yet. -/
def Gated.Waits (service : Service) (before : List Entry) (g : Gated) : Prop :=
  g.taken = none ∧ g.invocations = [] ∧ g.server.log = before ∧
    g.server.returned ≠ some (.ok ()) ∧
    match g.server.pc with
    | .receiving service' | .reading service' => service' = service
    | .idle | .panicked => True
    | _ => False

/-- A CALL has been taken, and its token has been checked. -/
def Gated.Decided (service : Service) (before : List Entry) (g : Gated) (taken : Taken) : Prop :=
  Frame.parseCall taken.frame = .ok taken.call ∧
    ((service.Passes E C taken ∧ (∀ i ∈ g.invocations, i ∈ invocationsOf taken.call) ∧
        g.server.pc.For taken.call) ∨
      (¬ service.Passes E C taken ∧
        g.invocations = [.policy taken.call.realm taken.call.procedure] ∧
        (g.server.Refusing E identity taken.call before ∨
          g.server.Refused E identity taken.call before)))

def Gated.Kept (service : Service) (before : List Entry) (g : Gated) : Prop :=
  g.Waits service before ∨
    ∃ taken, g.taken = some taken ∧ g.Decided E C identity service before taken

/-! ## One step -/

theorem takes_eq_none {s : Server} (h : ∀ service, s.pc ≠ .receiving service) (e : ServeEvent) :
    takes s e = none := by
  cases e with
  | decode now requestId =>
      simp only [takes]
      split
      next service _ _ hpc _ => exact absurd hpc (h service)
      next => rfl
  | _ => rfl

theorem gatedStep_eq_some {g g' : Gated} {e : ServeEvent} :
    gatedStep E C identity g e = some g' ↔
      ∃ s, stepServe E C identity g.server e = some s ∧ g' =
        { server := s
          taken := ((takes g.server e).map Prod.snd).or g.taken
          invocations := g.invocations ++ invoked E C g.server e s } := by
  simp [gatedStep, eq_comm]

theorem Server.sent_for {s : Server} {result : Outcome SendFrameError Unit} {next : Next}
    {call : CallInfo} (h : next.For call) : (s.sent result next).pc.For call := by
  cases next with
  | handle call' requestId => exact h
  | reply call' answer => exact h
  | finish => trivial

theorem Server.send_for {s : Server} {signed : Outcome SendFrameError Value} {next : Next}
    {call : CallInfo} (h : next.For call) : (s.send signed next).pc.For call := by
  cases signed with
  | ok frame =>
      simp only [Server.send]
      split
      next => exact h
      next => exact Server.sent_for h
      next => trivial
  | err e => exact Server.sent_for h
  | panicked => trivial

/-- What is behind the check stays with its CALL. -/
theorem for_step {s s' : Server} {e : ServeEvent} {call : CallInfo} (hfor : s.pc.For call)
    (hserve : e.isServe = false) (h : stepServe E C identity s e = some s') :
    s'.pc.For call := by
  revert h
  fun_cases stepServe E C identity s e
  all_goals intro h; first | (obtain rfl := Option.some.inj h) | cases h
  case case1 => cases hserve
  case case12 hpc =>
    rw [hpc] at hfor
    exact Server.send_for hfor
  case case13 hpc =>
    rw [hpc] at hfor
    exact Server.send_for hfor
  case case14 hpc => exact Server.send_for trivial
  case case20 hpc _ _ =>
    rw [hpc] at hfor
    exact Server.sent_for hfor
  case case21 hpc _ _ _ _ =>
    rw [hpc] at hfor
    exact Server.sent_for hfor
  all_goals simp_all [ServePc.For, Server.ret]

theorem IsRefusal.of_sign {call : CallInfo} {stamp : Stamp} {frame : Value}
    (h : (Frame.sign E ((Answer.error .unauthorized none).frame call.callId (identity.nodeId E)
      stamp.frameId stamp.sentAtMs) identity : Outcome SendFrameError Value) = .ok frame) :
    IsRefusal E identity call frame :=
  ⟨stamp.frameId, stamp.sentAtMs, h⟩

/-- A refusal goes on to the ERROR and to nothing else. -/
theorem refusing_step {s s' : Server} {e : ServeEvent} {call : CallInfo} {before : List Entry}
    (hrefusing : s.Refusing E identity call before) (hserve : e.isServe = false)
    (h : stepServe E C identity s e = some s') :
    s'.Refusing E identity call before ∨ s'.Refused E identity call before := by
  obtain ⟨hlog, hreturned, hpc⟩ := hrefusing
  revert h
  fun_cases stepServe E C identity s e
  all_goals intro h; first | (obtain rfl := Option.some.inj h) | cases h
  case case14 stamp call' answer hat =>
    rw [hat] at hpc
    obtain ⟨rfl, rfl⟩ := hpc
    have hinRange : (Answer.error .unauthorized none).InRange := trivial
    obtain ⟨signed, hsigned, hrange, -⟩ := Answer.sign_ok E call'.callId (identity.nodeId E)
      stamp.frameId stamp.sentAtMs hinRange identity
    have hrefusal := IsRefusal.of_sign E identity hsigned
    rw [hsigned]
    simp only [Server.send]
    split
    next => exact .inl ⟨hlog, hreturned, hrefusal, rfl⟩
    next => exact .inl ⟨hlog, by simp [Server.sent, Server.ret, Outcome.mapErr], trivial⟩
    next hencode =>
      rw [Frame.encode_of_inRange hrange] at hencode
      split at hencode <;> cases hencode
  case case20 ending frame encoded next hat out hwrite =>
    rw [hat] at hpc
    obtain ⟨hrefusal, rfl⟩ := hpc
    refine .inr ⟨frame, hrefusal, ?_, rfl⟩
    simp [Server.put, Server.sent, Server.ret, hlog]
  case case21 ending frame encoded next hat out result hresult hwrite =>
    rw [hat] at hpc
    obtain ⟨hrefusal, rfl⟩ := hpc
    refine .inl ⟨hlog, ?_, trivial⟩
    cases result with
    | ok value => exact absurd rfl hresult
    | err e => simp [Server.sent, Server.ret, Outcome.mapErr]
    | panicked => simp [Server.sent, Server.ret, Outcome.mapErr]
  case case26 => exact .inl ⟨hlog, by simp [Server.ret], trivial⟩
  all_goals simp_all [ServeEvent.isServe]

theorem step_idle {s : Server} {e : ServeEvent} (hpc : s.pc = .idle)
    (hserve : e.isServe = false) : stepServe E C identity s e = none := by
  cases e with
  | serve service => cases hserve
  | _ => simp [stepServe, hpc]

/-- What is invoked where no CALL is taken: at most the handler of the CALL at hand. -/
theorem invoked_of_for {s s' : Server} {e : ServeEvent} {call : CallInfo}
    (htakes : takes s e = none) (hfor : s'.pc.For call) :
    ∀ i ∈ invoked E C s e s', i ∈ invocationsOf call := by
  intro i hi
  simp only [invoked, htakes, Option.map_none, Option.getD_none, List.nil_append] at hi
  split at hi
  next call' requestId hpc =>
    rw [hpc] at hfor
    obtain rfl : call' = call := hfor
    simp_all [invocationsOf]
  next => cases hi

/-- The step that takes a CALL invokes the policy, and the lookup if the token passes. -/
theorem gate_fst (service : Service) (taken : Taken) :
    (service.gate E C taken.now taken.call).1 =
        [.policy taken.call.realm taken.call.procedure,
          .lookup taken.call.realm taken.call.procedure] ∧ service.Passes E C taken ∨
      (service.gate E C taken.now taken.call).1 =
        [.policy taken.call.realm taken.call.procedure] ∧ ¬ service.Passes E C taken := by
  simp only [Service.gate, Service.Passes]
  cases (service.policy taken.call.realm taken.call.procedure).check E C taken.now
      taken.call.ucanToken with
  | ok passed => exact .inl ⟨rfl, rfl⟩
  | err e => exact .inr ⟨rfl, nofun⟩
  | panicked => exact .inr ⟨rfl, nofun⟩

theorem admit_of_passes {service : Service} {taken : Taken} (h : service.Passes E C taken) :
    service.admit E C taken.now taken.call =
      if service.lookup taken.call.realm taken.call.procedure then .ok ()
      else .err .unknownNextPeer := by
  rw [← Service.gate_snd, Service.gate, h]

theorem admit_of_not_passes {service : Service} {taken : Taken}
    (h : ¬ service.Passes E C taken) :
    service.admit E C taken.now taken.call = .err .unauthorized := by
  rw [← Service.gate_snd, Service.gate]
  cases hcheck : (service.policy taken.call.realm taken.call.procedure).check E C taken.now
      taken.call.ucanToken with
  | ok passed => exact absurd hcheck h
  | err e => rfl
  | panicked => exact absurd hcheck (Ucan.Policy.check_ne_panicked E C _ _ _)

theorem takes_eq_some {s : Server} {e : ServeEvent} {service : Service} {taken : Taken} :
    takes s e = some (service, taken) ↔ ∃ requestId consumed, e = .decode taken.now requestId ∧
      s.pc = .receiving service ∧ Frame.decode s.buf = .ok (.frame taken.frame consumed) ∧
      Frame.parseCall taken.frame = .ok taken.call := by
  constructor
  · intro htakes
    cases e with
    | decode now requestId =>
        simp only [takes] at htakes
        split at htakes
        next service' frame consumed hpc hdecode =>
          split at htakes
          next call hparse =>
            cases htakes
            exact ⟨requestId, consumed, rfl, hpc, hdecode, hparse⟩
          next => cases htakes
          next => cases htakes
        next => cases htakes
    | _ => cases htakes
  · rintro ⟨requestId, consumed, rfl, hpc, hdecode, hparse⟩
    simp [takes, hpc, hdecode, hparse]

/-- The step that takes a CALL: behind the check there is no handler yet. -/
theorem taken_step {s s' : Server} {e : ServeEvent} {service : Service} {taken : Taken}
    (htakes : takes s e = some (service, taken)) (h : stepServe E C identity s e = some s') :
    s'.log = s.log ++ [.consumed taken.call] ∧ s'.returned = s.returned ∧
      ((service.Passes E C taken ∧
          ((∃ requestId, s'.pc = .announcing taken.call requestId) ∨
            s'.pc = .replying taken.call (.error .unknownNextPeer none))) ∨
        (¬ service.Passes E C taken ∧
          s'.pc = .replying taken.call (.error .unauthorized none))) := by
  obtain ⟨requestId, consumed, rfl, hpc, hdecode, hparse⟩ := takes_eq_some.mp htakes
  simp only [stepServe, hpc, hdecode, Server.received, hparse, Server.dispatch,
    Option.some.injEq] at h
  by_cases hpasses : service.Passes E C taken
  · rw [admit_of_passes E C hpasses] at h
    by_cases hlookup : service.lookup taken.call.realm taken.call.procedure = true
    · rw [if_pos hlookup] at h
      subst h
      exact ⟨rfl, rfl, .inl ⟨hpasses, .inl ⟨requestId, rfl⟩⟩⟩
    · rw [if_neg hlookup] at h
      subst h
      exact ⟨rfl, rfl, .inl ⟨hpasses, .inr rfl⟩⟩
  · rw [admit_of_not_passes E C hpasses] at h
    subst h
    exact ⟨rfl, rfl, .inr ⟨hpasses, rfl⟩⟩

/-- Taking a CALL decides it. -/
theorem decided_of_takes {g g' : Gated} {e : ServeEvent} {service : Service} {taken : Taken}
    {before : List Entry} (hwaits : g.Waits service before)
    (htakes : takes g.server e = some (service, taken))
    (h : gatedStep E C identity g e = some g') :
    g'.taken = some taken ∧ g'.Decided E C identity service before taken := by
  obtain ⟨-, hinvocations, hbefore, hreturned, -⟩ := hwaits
  obtain ⟨s', hs', rfl⟩ := (gatedStep_eq_some E C identity).mp h
  obtain ⟨-, -, -, -, -, hparse⟩ := takes_eq_some.mp htakes
  obtain ⟨hlog, hret, hpc⟩ := taken_step E C identity htakes hs'
  refine ⟨by simp [htakes], hparse, ?_⟩
  have hinvoked : (∀ call requestId, s'.pc ≠ .handling call requestId) →
      g.invocations ++ invoked E C g.server e s' = (service.gate E C taken.now taken.call).1 := by
    intro hhandler
    simp only [invoked, htakes, hinvocations, List.nil_append, Option.map_some, Option.getD_some]
    exact List.append_nil _
  rcases hpc with ⟨hpasses, hpc⟩ | ⟨hpasses, hpc⟩
  · have hfor : s'.pc.For taken.call ∧ ∀ call requestId, s'.pc ≠ .handling call requestId := by
      rcases hpc with ⟨requestId, hpc⟩ | hpc
      all_goals
        rw [hpc]
        exact ⟨rfl, nofun⟩
    refine .inl ⟨hpasses, ?_, hfor.1⟩
    intro i hi
    rw [hinvoked hfor.2] at hi
    rcases gate_fst E C service taken with ⟨hgate, -⟩ | ⟨-, hnot⟩
    · rw [hgate] at hi
      simp only [List.mem_cons, List.not_mem_nil, or_false] at hi
      rcases hi with rfl | rfl
      all_goals simp [invocationsOf]
    · exact absurd hpasses hnot
  · refine .inr ⟨hpasses, ?_, .inl ⟨by rw [hlog, hbefore], by rw [hret]; exact hreturned, ?_⟩⟩
    · rcases gate_fst E C service taken with ⟨-, hyes⟩ | ⟨hgate, -⟩
      · exact absurd hyes hpasses
      · rw [← hgate]
        exact hinvoked (by rw [hpc]; nofun)
    · rw [hpc]
      exact ⟨rfl, rfl⟩

/-- Until a CALL is taken nothing happens to the log, and nothing is invoked. -/
theorem waits_step {g g' : Gated} {e : ServeEvent} {service : Service} {before : List Entry}
    (hwaits : g.Waits service before) (hserve : e.isServe = false)
    (htakes : takes g.server e = none) (h : gatedStep E C identity g e = some g') :
    g'.Waits service before := by
  obtain ⟨htaken, hinvocations, hbefore, hreturned, hpc⟩ := hwaits
  obtain ⟨s', hs', rfl⟩ := (gatedStep_eq_some E C identity).mp h
  have hkept : s'.log = before ∧ s'.returned ≠ some (.ok ()) ∧
      (s'.pc = .receiving service ∨ s'.pc = .reading service ∨ s'.pc = .idle ∨
        s'.pc = .panicked) := by
    revert hs'
    fun_cases stepServe E C identity g.server e
    all_goals intro hs'; first | (obtain rfl := Option.some.inj hs') | cases hs'
    case case3 now requestId service' hat value consumed hdecode =>
      rw [hat] at hpc
      obtain rfl : service' = service := hpc
      simp only [takes, hat, hdecode] at htakes
      simp only [Server.received]
      cases hparse : Frame.parseCall value with
      | ok call => simp [hparse] at htakes
      | err e => exact ⟨hbefore, hreturned, .inl hat⟩
      | panicked => exact ⟨hbefore, hreturned, .inr (.inr (.inr rfl))⟩
    all_goals simp_all [ServeEvent.isServe, Server.ret]
  refine ⟨by simp [htakes, htaken], ?_, hkept.1, hkept.2.1, ?_⟩
  · simp only [invoked, htakes, hinvocations, Option.map_none, Option.getD_none, List.nil_append]
    rcases hkept.2.2 with hpc | hpc | hpc | hpc
    all_goals rw [hpc]
  · rcases hkept.2.2 with hpc | hpc | hpc | hpc
    all_goals simp [hpc]

/-- A decision stands. -/
theorem decided_step {g g' : Gated} {e : ServeEvent} {service : Service} {before : List Entry}
    {taken : Taken} (htaken : g.taken = some taken)
    (hdecided : g.Decided E C identity service before taken) (hserve : e.isServe = false)
    (h : gatedStep E C identity g e = some g') :
    g'.taken = some taken ∧ g'.Decided E C identity service before taken := by
  obtain ⟨hparse, hdecided⟩ := hdecided
  obtain ⟨s', hs', rfl⟩ := (gatedStep_eq_some E C identity).mp h
  rcases hdecided with ⟨hpasses, hinvocations, hfor⟩ | ⟨hpasses, hinvocations, hrefuses⟩
  · have htakes : takes g.server e = none := by
      refine takes_eq_none (fun service' hpc => ?_) e
      rw [hpc] at hfor
      exact hfor
    have hfor' := for_step E C identity hfor hserve hs'
    refine ⟨by simp [htakes, htaken], hparse, .inl ⟨hpasses, ?_, hfor'⟩⟩
    intro i hi
    rcases List.mem_append.mp hi with hold | hnew
    · exact hinvocations i hold
    · exact invoked_of_for E C htakes hfor' i hnew
  · rcases hrefuses with hrefusing | ⟨frame, -, -, hidle⟩
    · have htakes : takes g.server e = none := by
        refine takes_eq_none (fun service' hpc => ?_) e
        have hat := hrefusing.2.2
        rw [hpc] at hat
        exact hat
      have hnext := refusing_step E C identity hrefusing hserve hs'
      refine ⟨by simp [htakes, htaken], hparse, .inr ⟨hpasses, ?_, hnext⟩⟩
      have hhandler : ∀ call requestId, s'.pc ≠ .handling call requestId := by
        intro call requestId hpc
        rcases hnext with hnext | ⟨frame, -, -, hidle⟩
        · have hat := hnext.2.2
          rw [hpc] at hat
          exact hat
        · rw [hidle] at hpc
          cases hpc
      simp only [invoked, htakes, hinvocations, Option.map_none, Option.getD_none]
      rfl
    · rw [step_idle E C identity hidle hserve] at hs'
      cases hs'

theorem kept_step {g g' : Gated} {e : ServeEvent} {service : Service} {before : List Entry}
    (hkept : g.Kept E C identity service before) (hserve : e.isServe = false)
    (h : gatedStep E C identity g e = some g') : g'.Kept E C identity service before := by
  rcases hkept with hwaits | ⟨taken, htaken, hdecided⟩
  · cases htakes : takes g.server e with
    | none => exact .inl (waits_step E C identity hwaits hserve htakes h)
    | some found =>
        obtain ⟨service', taken⟩ := found
        have hservice : service' = service := by
          obtain ⟨-, -, -, hpc, -⟩ := takes_eq_some.mp htakes
          have hat := hwaits.2.2.2.2
          rw [hpc] at hat
          exact hat
        subst hservice
        exact .inr ⟨taken, decided_of_takes E C identity hwaits htakes h⟩
  · exact .inr ⟨taken, decided_step E C identity htaken hdecided hserve h⟩

/-- One call of `serve_one_call_gated`, up to any of its steps. -/
theorem kept_run {s : Server} {service : Service} {events : List ServeEvent} {g : Gated}
    (hserve : ∀ e ∈ events, e.isServe = false)
    (h : run (gatedStep E C identity) ⟨s, none, []⟩ (.serve service :: events) = some g) :
    g.Kept E C identity service s.log := by
  obtain ⟨g₀, hstart, hrest⟩ := run_cons.mp h
  have hkept : g₀.Kept E C identity service s.log := by
    obtain ⟨s₀, hs₀, rfl⟩ := (gatedStep_eq_some E C identity).mp hstart
    simp only [stepServe] at hs₀
    split at hs₀
    next =>
      cases hs₀
      exact .inl ⟨rfl, rfl, rfl, by simp, rfl⟩
    next => cases hs₀
  clear h hstart
  induction events generalizing g₀ with
  | nil =>
      cases hrest
      exact hkept
  | cons e events ih =>
      obtain ⟨g₁, he, hrest⟩ := run_cons.mp hrest
      refine ih (fun e' he' => hserve e' (List.mem_cons_of_mem e he')) g₁ hrest ?_
      exact kept_step E C identity hkept (hserve e List.mem_cons_self) he

/-! ## Two tokens -/

def Next.withoutToken : Next → Next
  | .handle call requestId => .handle call.withoutToken requestId
  | .reply call answer => .reply call.withoutToken answer
  | .finish => .finish

def ServePc.withoutToken : ServePc → ServePc
  | .announcing call requestId => .announcing call.withoutToken requestId
  | .handling call requestId => .handling call.withoutToken requestId
  | .announcingReply call requestId handlerErr answer =>
      .announcingReply call.withoutToken requestId handlerErr answer
  | .replying call answer => .replying call.withoutToken answer
  | .writing frame encoded next => .writing frame encoded next.withoutToken
  | pc => pc

def Entry.withoutToken : Entry → Entry
  | .consumed call => .consumed call.withoutToken
  | .sent frame => .sent frame

def Server.withoutToken (s : Server) : Server :=
  { s with pc := s.pc.withoutToken, log := s.log.map Entry.withoutToken }

@[simp] theorem Server.withoutToken_sent (s : Server) (result : Outcome SendFrameError Unit)
    (next : Next) :
    (s.sent result next).withoutToken = s.withoutToken.sent result next.withoutToken := by
  cases next <;> rfl

@[simp] theorem Server.withoutToken_send (s : Server) (signed : Outcome SendFrameError Value)
    (next : Next) :
    (s.send signed next).withoutToken = s.withoutToken.send signed next.withoutToken := by
  cases signed with
  | ok frame =>
      simp only [Server.send]
      cases Frame.encode frame with
      | ok encoded => rfl
      | err e => exact s.withoutToken_sent _ next
      | panicked => rfl
  | err e => exact s.withoutToken_sent _ next
  | panicked => rfl

@[simp] theorem Server.withoutToken_put (s : Server) (out : SendStream) (frame : Value) :
    (s.put out frame).withoutToken = s.withoutToken.put out frame := by
  simp [Server.put, Server.withoutToken, Entry.withoutToken]

@[simp] theorem Server.withoutToken_out (s : Server) : s.withoutToken.out = s.out := rfl

@[simp] theorem Server.withoutToken_buf (s : Server) : s.withoutToken.buf = s.buf := rfl

@[simp] theorem Server.withoutToken_pc (s : Server) : s.withoutToken.pc = s.pc.withoutToken := rfl

theorem Entry.withoutToken_idem (entry : Entry) :
    entry.withoutToken.withoutToken = entry.withoutToken := by
  cases entry <;> rfl

/-- A frame that is taken is dispatched by its own token, whatever came before it. -/
theorem Server.withoutToken_received (s : Server) {service : Service} (now : Int)
    (requestId : ByteArr 16) (frame : Value) (hpc : s.pc = .receiving service) :
    (s.withoutToken.received E C service now requestId frame).withoutToken =
      (s.received E C service now requestId frame).withoutToken := by
  simp only [Server.received]
  cases Frame.parseCall frame with
  | ok call =>
      simp only [Server.dispatch]
      cases service.admit E C now call <;>
        simp [Server.withoutToken, Server.consume, ServePc.withoutToken, Function.comp_def,
          Entry.withoutToken_idem]
  | err e => simp [Server.withoutToken, ServePc.withoutToken, hpc, Entry.withoutToken_idem]
  | panicked => simp [Server.withoutToken, ServePc.withoutToken, Entry.withoutToken_idem]

@[simp] theorem Server.withoutToken_idem (s : Server) :
    s.withoutToken.withoutToken = s.withoutToken := by
  obtain ⟨buf, out, pc, log, taken, returned⟩ := s
  simp only [Server.withoutToken, List.map_map, Function.comp_def, Entry.withoutToken_idem,
    Server.mk.injEq, true_and, and_true]
  cases pc with
  | writing frame encoded next => cases next <;> rfl
  | _ => rfl

@[simp] theorem Next.withoutToken_idem (next : Next) :
    next.withoutToken.withoutToken = next.withoutToken := by
  cases next <;> rfl

theorem Server.withoutToken_send_idem (s : Server) (signed : Outcome SendFrameError Value)
    (next : Next) :
    (s.withoutToken.send signed next.withoutToken).withoutToken =
      (s.send signed next).withoutToken := by
  simp

theorem Server.withoutToken_sent_idem (s : Server) (result : Outcome SendFrameError Unit)
    (next : Next) :
    (s.withoutToken.sent result next.withoutToken).withoutToken =
      (s.sent result next).withoutToken := by
  simp

theorem Server.withoutToken_put_sent_idem (s : Server) (out : SendStream) (frame : Value)
    (next : Next) :
    ((s.withoutToken.put out frame).sent (.ok ()) next.withoutToken).withoutToken =
      ((s.put out frame).sent (.ok ()) next).withoutToken := by
  simp

/-- What a log and a place show without their tokens. -/
theorem Server.withoutToken_eq {s s' : Server} (hbuf : s.buf = s'.buf) (hout : s.out = s'.out)
    (hpc : s.pc.withoutToken = s'.pc.withoutToken)
    (hlog : s.log.map Entry.withoutToken = s'.log.map Entry.withoutToken)
    (htaken : s.taken = s'.taken) (hreturned : s.returned = s'.returned) :
    s.withoutToken = s'.withoutToken := by
  simp [Server.withoutToken, hbuf, hout, hpc, hlog, htaken, hreturned]

/-- A step looks at no token but the one it checks. -/
theorem withoutToken_step (s : Server) (e : ServeEvent) :
    (stepServe E C identity s.withoutToken e).map Server.withoutToken =
      (stepServe E C identity s e).map Server.withoutToken := by
  have hlog : (s.log.map Entry.withoutToken).map Entry.withoutToken =
      s.log.map Entry.withoutToken := by
    simp [Function.comp_def, Entry.withoutToken_idem]
  obtain ⟨buf, out, pc, log, taken, returned⟩ := s
  cases e with
  | serve service =>
      cases pc <;> first | rfl | skip
      exact congrArg some (Server.withoutToken_eq rfl rfl rfl hlog rfl rfl)
  | decode now requestId =>
      cases pc with
      | receiving service =>
          simp only [stepServe, Server.withoutToken, ServePc.withoutToken]
          cases Frame.decode buf with
          | ok decoded =>
              cases decoded with
              | frame value consumed =>
                  exact congrArg some (Server.withoutToken_received E C
                    ⟨buf.drop consumed, out, .receiving service, log, taken, returned⟩ now
                    requestId value rfl)
              | more n => exact congrArg some (Server.withoutToken_eq rfl rfl rfl hlog rfl rfl)
          | err e => exact congrArg some (Server.withoutToken_eq rfl rfl rfl hlog rfl rfl)
          | panicked => exact congrArg some (Server.withoutToken_eq rfl rfl rfl hlog rfl rfl)
      | _ => rfl
  | read ending =>
      cases pc with
      | reading service =>
          cases ending with
          | _ => exact congrArg some (Server.withoutToken_eq rfl rfl rfl hlog rfl rfl)
      | _ => rfl
  | build stamp =>
      cases pc with
      | announcing call requestId =>
          have hsend := Server.withoutToken_send_idem
            ⟨buf, out, .announcing call requestId, log, taken, returned⟩
            (announceRpcReceived E call.realm identity requestId stamp) (.handle call requestId)
          exact congrArg some hsend
      | announcingReply call requestId handlerErr answer =>
          have hsend := Server.withoutToken_send_idem
            ⟨buf, out, .announcingReply call requestId handlerErr answer, log, taken, returned⟩
            (announceRpcReplied E call.realm identity requestId handlerErr stamp)
            (.reply call answer)
          exact congrArg some hsend
      | replying call answer =>
          have hsend := Server.withoutToken_send_idem
            ⟨buf, out, .replying call answer, log, taken, returned⟩
            (Frame.sign E (answer.frame call.callId (identity.nodeId E) stamp.frameId
              stamp.sentAtMs) identity) .finish
          exact congrArg some hsend
      | _ => rfl
  | handled ending =>
      cases pc with
      | handling call requestId =>
          cases ending with
          | _ => exact congrArg some (Server.withoutToken_eq rfl rfl rfl hlog rfl rfl)
      | _ => rfl
  | written ending =>
      cases pc with
      | writing frame encoded next =>
          simp only [stepServe, Server.withoutToken, ServePc.withoutToken]
          split
          next out' hwrite =>
            exact congrArg some (Server.withoutToken_put_sent_idem
              ⟨buf, out, .writing frame encoded next, log, taken, returned⟩ out' frame next)
          next out' result hresult hwrite =>
            exact congrArg some (Server.withoutToken_sent_idem
              ⟨buf, out', .writing frame encoded next, log, taken, returned⟩ result next)
          next => rfl
      | _ => rfl
  | expire n =>
      cases pc with
      | reading | handling | writing =>
          exact congrArg some (Server.withoutToken_eq rfl rfl rfl hlog rfl rfl)
      | _ => rfl

theorem takes_withoutToken (s : Server) (e : ServeEvent) : takes s.withoutToken e = takes s e := by
  obtain ⟨buf, out, pc, log, taken, returned⟩ := s
  cases e with
  | decode now requestId => cases pc <;> rfl
  | _ => rfl

theorem invoked_withoutToken (s : Server) (e : ServeEvent) (s' : Server) :
    invoked E C s.withoutToken e s'.withoutToken = invoked E C s e s' := by
  obtain ⟨buf, out, pc, log, taken, returned⟩ := s'
  simp only [invoked, takes_withoutToken]
  cases pc <;> rfl

/-- What is left of a provider and its record without the tokens. -/
def Gated.view (g : Gated) : Server × List Invocation := (g.server.withoutToken, g.invocations)

theorem view_step (g : Gated) (e : ServeEvent) :
    (gatedStep E C identity g e).map Gated.view =
      ((stepServe E C identity g.server.withoutToken e).map fun s => (s.withoutToken,
        g.invocations ++ invoked E C g.server.withoutToken e s)) := by
  have hstep := withoutToken_step E C identity g.server e
  cases hs : stepServe E C identity g.server e with
  | none =>
      have hnone : stepServe E C identity g.server.withoutToken e = none := by
        simpa [hs] using hstep
      simp [gatedStep, hs, hnone]
  | some s =>
      obtain ⟨s₁, hs₁, hview⟩ : ∃ s₁, stepServe E C identity g.server.withoutToken e = some s₁ ∧
          s₁.withoutToken = s.withoutToken := by
        simpa [hs] using hstep
      have hinvoked : invoked E C g.server.withoutToken e s₁ = invoked E C g.server e s := by
        calc invoked E C g.server.withoutToken e s₁
          _ = invoked E C g.server.withoutToken.withoutToken e s₁.withoutToken :=
            (invoked_withoutToken E C _ e s₁).symm
          _ = invoked E C g.server.withoutToken e s.withoutToken := by
            rw [hview, Server.withoutToken_idem]
          _ = invoked E C g.server e s := invoked_withoutToken E C _ e s
      simp [gatedStep, hs, hs₁, Gated.view, hview, hinvoked]

theorem view_congr (g g' : Gated) (e : ServeEvent) (h : g.view = g'.view) :
    (gatedStep E C identity g e).map Gated.view =
      (gatedStep E C identity g' e).map Gated.view := by
  obtain ⟨hserver, hinvocations⟩ := Prod.mk.inj h
  rw [view_step, view_step, hserver, hinvocations]

/-- Two CALLs at the front of the receive buffer of one provider, alike but for their tokens,
which both pass. -/
structure Alike (service : Service) (s : Server) (buf' : Bytes) (taken taken' : Taken) :
    Prop where
  pc : s.pc = .receiving service
  decodes : ∃ consumed consumed', Frame.decode s.buf = .ok (.frame taken.frame consumed) ∧
    Frame.decode buf' = .ok (.frame taken'.frame consumed') ∧
    s.buf.drop consumed = buf'.drop consumed'
  parses : Frame.parseCall taken.frame = .ok taken.call
  parses' : Frame.parseCall taken'.frame = .ok taken'.call
  call : taken.call.withoutToken = taken'.call.withoutToken
  passes : service.Passes E C taken
  passes' : service.Passes E C taken'

/-- A provider that has let a CALL pass. -/
def Server.passed (s : Server) (service : Service) (requestId : ByteArr 16) (rest : Bytes)
    (call : CallInfo) : Server :=
  { s with
    buf := rest
    pc := if service.lookup call.realm call.procedure then .announcing call requestId
      else .replying call (.error .unknownNextPeer none)
    log := s.log ++ [.consumed call]
    taken := true }

theorem step_passed {s : Server} {service : Service} {taken : Taken} {consumed : Nat}
    (hpc : s.pc = .receiving service)
    (hdecode : Frame.decode s.buf = .ok (.frame taken.frame consumed))
    (hparse : Frame.parseCall taken.frame = .ok taken.call) (hpasses : service.Passes E C taken)
    (requestId : ByteArr 16) :
    stepServe E C identity s (.decode taken.now requestId) =
      some (s.passed service requestId (s.buf.drop consumed) taken.call) := by
  simp only [stepServe, hpc, hdecode, Server.received, hparse, Server.dispatch,
    admit_of_passes E C hpasses, Server.passed, Server.consume]
  cases service.lookup taken.call.realm taken.call.procedure <;> rfl

theorem invoked_passed {s : Server} {service : Service} {taken : Taken} {consumed : Nat}
    (hpc : s.pc = .receiving service)
    (hdecode : Frame.decode s.buf = .ok (.frame taken.frame consumed))
    (hparse : Frame.parseCall taken.frame = .ok taken.call) (hpasses : service.Passes E C taken)
    (requestId : ByteArr 16) :
    invoked E C s (.decode taken.now requestId)
        (s.passed service requestId (s.buf.drop consumed) taken.call) =
      [.policy taken.call.realm taken.call.procedure,
        .lookup taken.call.realm taken.call.procedure] := by
  have htakes : takes s (.decode taken.now requestId) = some (service, taken) :=
    takes_eq_some.mpr ⟨requestId, consumed, rfl, hpc, hdecode, hparse⟩
  have hgate : (service.gate E C taken.now taken.call).1 =
      [.policy taken.call.realm taken.call.procedure,
        .lookup taken.call.realm taken.call.procedure] := by
    rcases gate_fst E C service taken with ⟨hgate, -⟩ | ⟨-, hnot⟩
    · exact hgate
    · exact absurd hpasses hnot
  simp only [invoked, htakes, Option.map_some, Option.getD_some, hgate, Server.passed]
  cases service.lookup taken.call.realm taken.call.procedure <;> rfl

/-- A CALL that passes is taken, and its handler looked up. -/
theorem gatedStep_passed {s : Server} {service : Service} {taken : Taken} {consumed : Nat}
    (hpc : s.pc = .receiving service)
    (hdecode : Frame.decode s.buf = .ok (.frame taken.frame consumed))
    (hparse : Frame.parseCall taken.frame = .ok taken.call) (hpasses : service.Passes E C taken)
    (requestId : ByteArr 16) (last : Option Taken) (invocations : List Invocation) :
    gatedStep E C identity ⟨s, last, invocations⟩ (.decode taken.now requestId) =
      some ⟨s.passed service requestId (s.buf.drop consumed) taken.call, some taken,
        invocations ++ [.policy taken.call.realm taken.call.procedure,
          .lookup taken.call.realm taken.call.procedure]⟩ := by
  have htakes : takes s (.decode taken.now requestId) = some (service, taken) :=
    takes_eq_some.mpr ⟨requestId, consumed, rfl, hpc, hdecode, hparse⟩
  simp only [gatedStep, step_passed E C identity hpc hdecode hparse hpasses, Option.map_some,
    htakes, Option.some_or, invoked_passed E C hpc hdecode hparse hpasses]

/-- Behind the check two tokens make no difference. -/
theorem alike_step {s : Server} {service : Service} {buf' : Bytes} {taken taken' : Taken}
    (h : Alike E C service s buf' taken taken') (requestId : ByteArr 16)
    (last : Option Taken) (invocations : List Invocation) :
    (gatedStep E C identity ⟨s, last, invocations⟩ (.decode taken.now requestId)).map Gated.view =
      (gatedStep E C identity ⟨{ s with buf := buf' }, last, invocations⟩
        (.decode taken'.now requestId)).map Gated.view := by
  obtain ⟨consumed, consumed', hdecode, hdecode', hrest⟩ := h.decodes
  have hstep := gatedStep_passed E C identity h.pc hdecode h.parses h.passes requestId last
    invocations
  have hstep' := gatedStep_passed E C identity (s := { s with buf := buf' }) h.pc hdecode'
    h.parses' h.passes' requestId last invocations
  have hrealm : taken.call.realm = taken'.call.realm := by
    simpa [CallInfo.withoutToken] using congrArg CallInfo.realm h.call
  have hprocedure : taken.call.procedure = taken'.call.procedure := by
    simpa [CallInfo.withoutToken] using congrArg CallInfo.procedure h.call
  have hserver : (s.passed service requestId (s.buf.drop consumed) taken.call).withoutToken =
      (Server.passed { s with buf := buf' } service requestId (buf'.drop consumed')
        taken'.call).withoutToken := by
    refine Server.withoutToken_eq hrest rfl ?_ ?_ rfl rfl
    · simp only [Server.passed, hrealm, hprocedure]
      split
      · simp [ServePc.withoutToken, h.call]
      · simp [ServePc.withoutToken, h.call]
    · simp [Server.passed, Entry.withoutToken, h.call]
  simp only [hstep, hstep', Option.map_some, Gated.view, hserver, hrealm, hprocedure]

/-! ## The gate -/

/-- The frame of a CALL carries a token that `issuer` authorised. -/
def Taken.Carries (taken : Taken) (issuer : NodeId) : Prop :=
  ∃ token, taken.frame.get "ucan_token" = some (.bytes token) ∧
    Ucan.Authorized E C issuer taken.now token

/-- What is true of a provider at any time of one call of `serve_one_call_gated`, with what
was logged before it. -/
structure Gated.Sound (service : Service) (before : List Entry) (g : Gated) : Prop where
  idle : g.taken = none → g.invocations = []
  own : ∀ taken, g.taken = some taken → Frame.parseCall taken.frame = .ok taken.call ∧
    ∀ i ∈ g.invocations, i ∈ invocationsOf taken.call
  authorized : ∀ taken issuer, g.taken = some taken →
    service.policy taken.call.realm taken.call.procedure = .required issuer →
      (∃ i ∈ g.invocations, i ≠ .policy taken.call.realm taken.call.procedure) →
        taken.Carries E C issuer
  refused : ∀ taken issuer, g.taken = some taken →
    service.policy taken.call.realm taken.call.procedure = .required issuer →
      ¬ taken.Carries E C issuer →
        g.server.Refusing E identity taken.call before ∨
          g.server.Refused E identity taken.call before

/-- A CALL passes a gated procedure exactly when it carries an authorised token. -/
theorem passes_iff_carries {service : Service} {taken : Taken} {issuer : NodeId}
    (hparse : Frame.parseCall taken.frame = .ok taken.call)
    (hpolicy : service.policy taken.call.realm taken.call.procedure = .required issuer) :
    service.Passes E C taken ↔ taken.Carries E C issuer := by
  have htoken : taken.call.ucanToken = Frame.bytesFieldOrEmpty taken.frame "ucan_token" :=
    Frame.parseCall_ucanToken hparse
  rw [Service.Passes, hpolicy, Ucan.Policy.check_required_iff, htoken]
  constructor
  · intro hauthorized
    unfold Frame.bytesFieldOrEmpty at hauthorized
    split at hauthorized
    next token hget => exact ⟨token, hget, hauthorized⟩
    next => exact absurd hauthorized (Ucan.not_authorized_nil E C)
  · rintro ⟨token, hget, hauthorized⟩
    simpa [Frame.bytesFieldOrEmpty, hget] using hauthorized

theorem Gated.Kept.sound {service : Service} {before : List Entry} {g : Gated}
    (h : g.Kept E C identity service before) : g.Sound E C identity service before := by
  rcases h with ⟨htaken, hinvocations, -⟩ | ⟨taken, htaken, hparse, hdecided⟩
  · constructor
    · intro _
      exact hinvocations
    · intro taken h
      rw [htaken] at h
      cases h
    · intro taken issuer h
      rw [htaken] at h
      cases h
    · intro taken issuer h
      rw [htaken] at h
      cases h
  · constructor
    · intro h
      rw [htaken] at h
      cases h
    · intro taken' h
      obtain rfl : taken = taken' := Option.some.inj (htaken.symm.trans h)
      refine ⟨hparse, ?_⟩
      rcases hdecided with ⟨-, hown, -⟩ | ⟨-, hpolicy, -⟩
      · exact hown
      · intro i hi
        rw [hpolicy] at hi
        simp_all [invocationsOf]
    · intro taken' issuer h hpolicy hdispatched
      obtain rfl : taken = taken' := Option.some.inj (htaken.symm.trans h)
      rcases hdecided with ⟨hpasses, -⟩ | ⟨-, honly, -⟩
      · exact (passes_iff_carries E C hparse hpolicy).mp hpasses
      · obtain ⟨i, hi, hne⟩ := hdispatched
        rw [honly, List.mem_singleton] at hi
        exact absurd hi hne
    · intro taken' issuer h hpolicy hcarries
      obtain rfl : taken = taken' := Option.some.inj (htaken.symm.trans h)
      rcases hdecided with ⟨hpasses, -⟩ | ⟨-, -, hrefusing | hrefused⟩
      · exact absurd ((passes_iff_carries E C hparse hpolicy).mp hpasses) hcarries
      · exact .inl hrefusing
      · exact .inr hrefused

/-- *The gate is sound.*  In every run of one call of `serve_one_call_gated`, a gated procedure
is looked up and its handler invoked only for a CALL that carries an authorised token, and the
answer to any other CALL of it is `unauthorized`.  Two CALLs that differ only in their tokens
and both pass lead to the same invocations. -/
theorem gate_sound (service : Service) (s : Server) :
    (∀ (events : List ServeEvent) (g : Gated), (∀ e ∈ events, e.isServe = false) →
      run (gatedStep E C identity) ⟨s, none, []⟩ (.serve service :: events) = some g →
        g.Sound E C identity service s.log) ∧
      ∀ (buf' : Bytes) (taken taken' : Taken) (last : Option Taken)
        (invocations : List Invocation) (requestId : ByteArr 16) (events : List ServeEvent),
        Alike E C service s buf' taken taken' →
          (run (gatedStep E C identity) ⟨s, last, invocations⟩
              (.decode taken.now requestId :: events)).map Gated.invocations =
            (run (gatedStep E C identity) ⟨{ s with buf := buf' }, last, invocations⟩
              (.decode taken'.now requestId :: events)).map Gated.invocations := by
  constructor
  · intro events g hserve hrun
    exact (kept_run E C identity hserve hrun).sound
  · intro buf' taken taken' last invocations requestId events halike
    have hfirst := alike_step E C identity halike requestId last invocations
    have hview : ∀ o : Option Gated,
        o.map Gated.invocations = (o.map Gated.view).map Prod.snd := by
      intro o
      cases o <;> rfl
    rw [hview, hview, run_congr_cons (view_congr E C identity) hfirst events]

/-- A service whose procedures are all gated. -/
def gatedService : Service := ⟨fun _ _ => .required (.fill 9), fun _ _ => true⟩

/-! Tokens that are accepted until their `exp`. -/

def accessClaims (exp : Int) : Ucan.WirePayload Unit :=
  ⟨"a", "b", some exp, none, none, [], none, []⟩

/-- `serde_json::to_vec` of those claims. -/
def accessJson (exp : String) : Bytes :=
  Utf8.bytes ("\x7b\"iss\":\"a\",\"aud\":\"b\",\"exp\":" ++ exp ++ ",\"cap\":[],\"prf\":[]\x7d")

def accessCodec : Ucan.TokenCodec where
  Facts := Unit
  decodeBase64 := Base64.decode
  parseWire raw :=
    if raw = accessJson "200" then some (accessClaims 200)
    else if raw = accessJson "300" then some (accessClaims 300)
    else none

def accessHeader : String :=
  Base64.encode (Utf8.bytes "\x7b\"alg\":\"EdDSA\",\"typ\":\"JWT\",\"ucv\":\"0.10.0\"\x7d")

def accessPayload (exp : String) : String := Base64.encode (accessJson exp)

/-- By the issuer that `gatedService` asks for. -/
def accessSignature (exp : String) : ByteArr 64 :=
  Ed25519.standIn.sign (.fill 9) (Utf8.bytes (accessHeader ++ "." ++ accessPayload exp))

def accessToken (exp : String) : Bytes :=
  Utf8.bytes (accessHeader ++ "." ++ accessPayload exp ++ "." ++
    Base64.encode (accessSignature exp).1)

/-- The token is authorised until it expires. -/
theorem access_authorized {now exp : Int} {text : String}
    (hclaims : accessCodec.parseWire (accessJson text) = some (accessClaims exp))
    (hnow : now ≤ exp) :
    Ucan.Authorized .standIn accessCodec (.fill 9) now (accessToken text) := by
  have hdots : ∀ b, '.' ∉ (Base64.encode b).toList := by
    intro b hdot
    exact Base64.value_ne_none_of_mem_encode hdot rfl
  have hsig : Ed25519.standIn.verify (Utf8.bytes (accessHeader ++ "." ++ accessPayload text))
      (accessSignature text) (.fill 9) = true :=
    Ed25519.standIn.verify_sign (.fill 9) _
  have hparse : accessCodec.parsePayload (accessJson text) = some (accessClaims exp).payload := by
    rw [Ucan.TokenCodec.parsePayload, hclaims]
    rfl
  have hcurrent : (accessClaims exp).payload.Current now := by
    constructor
    · intro expiry hexpiry
      obtain rfl := Option.some.inj hexpiry
      exact hnow
    · intro start hstart
      cases hstart
  exact ⟨accessHeader, accessPayload text, Base64.encode (accessSignature text).1, rfl, hdots _,
    hdots _, hdots _, ⟨_, Base64.decode_encode _, hsig⟩, _, _, Base64.decode_encode _, hparse,
    hcurrent⟩

/-- The `CALL` of `p` with that token. -/
def accessCall (exp : String) : Value :=
  Frame.call ⟨.fill 1, "p", .fill 2, .null, 0, .fill 3, [], 0, accessToken exp⟩ (.fill 4) 0

def accessBytes (exp : String) : Bytes := Frame.wire (Cbor.canon (accessCall exp))

def accessTaken (now : Int) (exp : String) : Taken :=
  ⟨now, (accessCall exp).sorted, ⟨.fill 1, "p", .fill 2, .null, 0, .fill 3, accessToken exp⟩⟩

def receivingAccess (exp : String) : Server :=
  { Server.start (accessBytes exp) with pc := .receiving gatedService }

theorem decode_access : Frame.decode (accessBytes "200") =
    .ok (.frame (accessTaken 100 "200").frame (accessBytes "200").length) := by
  decide +kernel

theorem parses_access : Frame.parseCall (accessTaken 100 "200").frame =
    .ok (accessTaken 100 "200").call := by
  decide +kernel

theorem passes_access : gatedService.Passes .standIn accessCodec (accessTaken 100 "200") := by
  have hclaims : accessCodec.parseWire (accessJson "200") = some (accessClaims 200) := by
    simp only [accessCodec, if_true]
  exact (Ucan.Policy.check_required_iff .standIn accessCodec).mpr
    (access_authorized hclaims (by decide : (100 : Int) ≤ 200))

theorem access_alike : Alike .standIn accessCodec gatedService (receivingAccess "200")
    (accessBytes "300") (accessTaken 100 "200") (accessTaken 250 "300") where
  pc := rfl
  decodes := by
    refine ⟨(accessBytes "200").length, (accessBytes "300").length, decode_access, ?_,
      List.drop_length.trans List.drop_length.symm⟩
    decide +kernel
  parses := parses_access
  parses' := by decide +kernel
  call := by simp only [accessTaken, Frame.CallInfo.withoutToken]
  passes := passes_access
  passes' := by
    have hne : accessJson "300" ≠ accessJson "200" := by decide +kernel
    have hclaims : accessCodec.parseWire (accessJson "300") = some (accessClaims 300) := by
      simp only [accessCodec, if_neg hne, if_true]
    exact (Ucan.Policy.check_required_iff .standIn accessCodec).mpr
      (access_authorized hclaims (by decide : (250 : Int) ≤ 300))

def granted : List ServeEvent := [.build ⟨.fill 6, 0, 0, 0⟩, .written .done]

/-- The handler is invoked. -/
theorem run_access : (run (gatedStep .standIn accessCodec provider)
    ⟨receivingAccess "200", none, []⟩ (.decode 100 (.fill 5) :: granted)).map Gated.invocations =
      some [.policy (.fill 2) "p", .lookup (.fill 2) "p", .handler (.fill 2) "p" .null] := by
  have hfirst : gatedStep .standIn accessCodec provider ⟨receivingAccess "200", none, []⟩
      (.decode 100 (.fill 5)) = some ⟨_, _, _⟩ :=
    @gatedStep_passed .standIn accessCodec provider (receivingAccess "200") gatedService
      (accessTaken 100 "200") _ rfl decode_access parses_access passes_access (.fill 5) none []
  rw [run, hfirst]
  decide +kernel

/-- A CALL without a token is refused.  One with a token reaches the handler, and so does the
same CALL with another token. -/
theorem gate_sound_tokens :
    (∃ g, run (gatedStep .standIn noTokens provider) ⟨.start callBytes, none, []⟩
        [.serve gatedService, .decode 0 (.fill 5)] = some g ∧
      g.invocations = [.policy (.fill 2) "p"] ∧
      g.Sound .standIn noTokens provider gatedService []) ∧
    (∃ g taken, run (gatedStep .standIn accessCodec provider)
        ⟨.start (accessBytes "200"), none, []⟩
        (.serve gatedService :: .decode 100 (.fill 5) :: granted) = some g ∧
      g.invocations =
        [.policy (.fill 2) "p", .lookup (.fill 2) "p", .handler (.fill 2) "p" .null] ∧
      g.taken = some taken ∧ taken.Carries .standIn accessCodec (.fill 9)) ∧
    (run (gatedStep .standIn accessCodec provider) ⟨receivingAccess "300", none, []⟩
        (.decode 250 (.fill 5) :: granted)).map Gated.invocations =
      some [.policy (.fill 2) "p", .lookup (.fill 2) "p", .handler (.fill 2) "p" .null] := by
  refine ⟨?_, ?_, ?_⟩
  · have hrun : (run (gatedStep .standIn noTokens provider) ⟨.start callBytes, none, []⟩
        [.serve gatedService, .decode 0 (.fill 5)]).map Gated.invocations =
          some [.policy (.fill 2) "p"] := by
      decide +kernel
    obtain ⟨g, hg, hinvocations⟩ := Option.map_eq_some_iff.mp hrun
    have hsound := (gate_sound .standIn noTokens provider gatedService (.start callBytes)).1
    exact ⟨g, hg, hinvocations, hsound [.decode 0 (.fill 5)] g (by simp [ServeEvent.isServe]) hg⟩
  · obtain ⟨g, hg, hinvocations⟩ := Option.map_eq_some_iff.mp run_access
    have hserve : gatedStep .standIn accessCodec provider ⟨.start (accessBytes "200"), none, []⟩
        (.serve gatedService) = some ⟨receivingAccess "200", none, []⟩ := rfl
    have hrun : run (gatedStep .standIn accessCodec provider)
        ⟨.start (accessBytes "200"), none, []⟩
        (.serve gatedService :: .decode 100 (.fill 5) :: granted) = some g := by
      rw [run, hserve, Option.bind_some, hg]
    have hsound := (gate_sound .standIn accessCodec provider gatedService
      (.start (accessBytes "200"))).1 (.decode 100 (.fill 5) :: granted) g
      (by simp [granted, ServeEvent.isServe]) hrun
    cases htaken : g.taken with
    | none =>
        rw [hsound.idle htaken] at hinvocations
        cases hinvocations
    | some taken =>
        have hhandler : ∃ i ∈ g.invocations,
            i ≠ .policy taken.call.realm taken.call.procedure := by
          rw [hinvocations]
          exact ⟨.handler (.fill 2) "p" .null, by simp, by simp⟩
        exact ⟨g, taken, hrun, hinvocations, htaken,
          hsound.authorized taken (.fill 9) htaken rfl hhandler⟩
  · have halike := (gate_sound .standIn accessCodec provider gatedService
      (receivingAccess "200")).2 _ _ _ none [] (.fill 5) granted access_alike
    exact halike.symm.trans run_access

end Macula.Connection

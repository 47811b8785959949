import Macula.Connection.Receive
import Macula.Frame.Call

/-!
# Calls and their responses

`await_call_response` receives frames until one carries the `call_id` of its CALL and parses as
a RESULT or an ERROR; every other frame is dropped.  A call that times out leaves its answer in
the stream, or half of it in the buffer, for a later call to meet.

`answers_correlated` follows a whole history of calls on one stream.  An answer is known by the
index of its frame among the frames of the stream.
-/

namespace Macula.Connection

open Macula.Cbor (Value)
open Macula.Frame (CallResponse frameCallId parseCallResponse)

/-- A call in `await_call_response`. -/
structure Waiting where
  callId : ByteArr 16
  /-- How many frames had been received when it began. -/
  since : Nat
deriving DecidableEq

/-- A call that has returned `Ok(response)`. -/
structure CallAnswer where
  callId : ByteArr 16
  since : Nat
  /-- The index of the frame that was its answer. -/
  index : Nat
  response : CallResponse
deriving DecidableEq

structure Caller where
  rx : Receiver
  waiting : Option Waiting
  answers : List CallAnswer
deriving DecidableEq

/-- A stream with `buf` left over from its handshake and `unread` to come. -/
def Caller.start (buf unread : Bytes) : Caller := ⟨⟨unread, buf, .idle, false, []⟩, none, []⟩

/-- What `recv_frame` has returned after a step. -/
inductive Received where
  | frame (v : Value)
  | error
  | pending

def Receiver.got (before after : Receiver) : Received :=
  match after.returned.drop before.returned.length with
  | v :: _ => .frame v
  | [] => if after.pc = .idle then .error else .pending

inductive CallEvent where
  /-- `call` or `call_with_ucan`: the CALL is sent, or it is not. -/
  | call (callId : ByteArr 16) (sent : Bool)
  /-- A step of `recv_frame`, in a call or outside of one. -/
  | rx (e : ReadEvent)
deriving DecidableEq

/-- `await_call_response` after a step of its `recv_frame`. -/
def Caller.resume (c : Caller) (rx : Receiver) : Caller :=
  match c.waiting with
  | none => { c with rx }
  | some w =>
      match c.rx.got rx with
      | .pending => { c with rx }
      | .error => { c with rx, waiting := none }
      | .frame v =>
          if frameCallId v = some w.callId then
            match parseCallResponse v with
            | .ok response =>
                { rx, waiting := none,
                  answers := c.answers ++ [⟨w.callId, w.since, c.rx.returned.length, response⟩] }
            | _ => { c with rx := { rx with pc := .decoding } }
          else { c with rx := { rx with pc := .decoding } }

def stepCall (c : Caller) : CallEvent → Option Caller
  | .call callId sent =>
      if c.waiting = none ∧ c.rx.pc = .idle then
        if sent then
          some { c with
            rx := { c.rx with pc := .decoding }
            waiting := some ⟨callId, c.rx.returned.length⟩ }
        else some c
      else none
  | .rx e => (stepReceive (fun _ => true) c.rx e).map c.resume

/-! ## Answers -/

/-- A frame that answers the CALL `callId`. -/
def IsAnswer (callId : ByteArr 16) (v : Value) : Prop :=
  frameCallId v = some callId ∧ ∃ response, parseCallResponse v = .ok response

/-- None of the frames from `since` on, up to `index`, answers `callId`. -/
def Unanswered (vs : List Value) (callId : ByteArr 16) (since index : Nat) : Prop :=
  ∀ j v, since ≤ j → j < index → vs[j]? = some v → ¬ IsAnswer callId v

/-- The call returned the parse of the first of the frames `vs` not consumed before it that
carries its `call_id` and parses as a RESULT or an ERROR. -/
structure CallAnswer.Good (vs : List Value) (a : CallAnswer) : Prop where
  since : a.since ≤ a.index
  frame : ∃ v, vs[a.index]? = some v ∧ frameCallId v = some a.callId ∧
    parseCallResponse v = .ok a.response
  first : Unanswered vs a.callId a.since a.index

theorem getElem?_of_extended {vs ws : List Value} (h : vs <+: ws) {j : Nat} (hj : j < vs.length) :
    ws[j]? = vs[j]? := by
  obtain ⟨rest, rfl⟩ := h
  exact List.getElem?_append_left hj

theorem Unanswered.mono {vs ws : List Value} {callId : ByteArr 16} {since index : Nat}
    (h : Unanswered vs callId since index) (hext : vs <+: ws) (hindex : index ≤ vs.length) :
    Unanswered ws callId since index := by
  intro j v hsince hj hv
  rw [getElem?_of_extended hext (hj.trans_le hindex)] at hv
  exact h j v hsince hj hv

theorem CallAnswer.Good.lt {vs : List Value} {a : CallAnswer} (h : a.Good vs) :
    a.index < vs.length := by
  obtain ⟨v, hv, -⟩ := h.frame
  exact (List.getElem?_eq_some_iff.mp hv).1

theorem CallAnswer.Good.mono {vs ws : List Value} {a : CallAnswer} (h : a.Good vs)
    (hext : vs <+: ws) : a.Good ws := by
  obtain ⟨v, hv, hframe⟩ := h.frame
  refine ⟨h.since, ⟨v, ?_, hframe⟩, h.first.mono hext h.lt.le⟩
  rw [getElem?_of_extended hext h.lt, hv]

/-- What holds of the calls on a stream, over the frames received so far. -/
structure Caller.Correlated (c : Caller) : Prop where
  good : ∀ a ∈ c.answers, a.Good c.rx.returned
  /-- Each call began after the answers of the calls before it. -/
  order : c.answers.Pairwise fun a b => a.index < b.since
  waiting : ∀ w ∈ c.waiting, w.since ≤ c.rx.returned.length ∧
    Unanswered c.rx.returned w.callId w.since c.rx.returned.length ∧
    ∀ a ∈ c.answers, a.index < w.since

/-! ## One step -/

/-- A step of the receiver returns at most one frame. -/
theorem returned_of_step {hello : Value → Bool} {r r' : Receiver} {e : ReadEvent}
    (h : stepReceive hello r e = some r') :
    r'.returned = r.returned ∨ ∃ v, r'.returned = r.returned ++ [v] := by
  revert h
  fun_cases stepReceive hello r e
  all_goals intro h; cases h
  case case3 hpc v consumed hdecode => exact .inr ⟨v, rfl⟩
  all_goals exact .inl rfl

theorem Unanswered.concat {vs : List Value} {callId : ByteArr 16} {since : Nat} {v : Value}
    (h : Unanswered vs callId since vs.length) (hv : ¬ IsAnswer callId v) :
    Unanswered (vs ++ [v]) callId since (vs ++ [v]).length := by
  intro j w hsince hj hw
  rw [List.length_append, List.length_singleton] at hj
  rcases Nat.lt_succ_iff_lt_or_eq.mp hj with hlt | rfl
  · rw [List.getElem?_append_left hlt] at hw
    exact h j w hsince hlt hw
  · rw [List.getElem?_concat_length] at hw
    cases hw
    exact hv

/-- A step without a frame keeps everything. -/
theorem Caller.Correlated.keep {c : Caller} (h : c.Correlated) {rx : Receiver}
    (hreturned : rx.returned = c.rx.returned) : Caller.Correlated { c with rx } := by
  refine ⟨?_, h.order, ?_⟩
  · rw [hreturned]
    exact h.good
  · rw [hreturned]
    exact h.waiting

/-- A frame that does not answer the running call is dropped. -/
theorem Caller.Correlated.skip {c : Caller} (h : c.Correlated) {rx : Receiver} {v : Value}
    (hreturned : rx.returned = c.rx.returned ++ [v])
    (hv : ∀ w ∈ c.waiting, ¬ IsAnswer w.callId v) : Caller.Correlated { c with rx } := by
  refine ⟨fun a ha => (h.good a ha).mono ⟨[v], hreturned.symm⟩, h.order, fun w hw => ?_⟩
  obtain ⟨hsince, hunanswered, hanswers⟩ := h.waiting w hw
  dsimp only
  rw [hreturned]
  refine ⟨?_, hunanswered.concat (hv w hw), hanswers⟩
  rw [List.length_append]
  exact hsince.trans (Nat.le_add_right _ _)

/-- A frame that answers the running call ends it. -/
theorem Caller.Correlated.answer {c : Caller} (h : c.Correlated) {rx : Receiver} {v : Value}
    {w : Waiting} {response : CallResponse} (hwaiting : c.waiting = some w)
    (hreturned : rx.returned = c.rx.returned ++ [v]) (hid : frameCallId v = some w.callId)
    (hparse : parseCallResponse v = .ok response) :
    Caller.Correlated ⟨rx, none,
      c.answers ++ [⟨w.callId, w.since, c.rx.returned.length, response⟩]⟩ := by
  have hext : c.rx.returned <+: rx.returned := ⟨[v], hreturned.symm⟩
  obtain ⟨hsince, hunanswered, hanswers⟩ := h.waiting w hwaiting
  refine ⟨fun a ha => ?_, ?_, nofun⟩
  · rcases List.mem_append.mp ha with hold | hnew
    · exact (h.good a hold).mono hext
    · obtain rfl := List.mem_singleton.mp hnew
      refine ⟨hsince, ⟨v, ?_, hid, hparse⟩, hunanswered.mono hext le_rfl⟩
      dsimp only
      rw [hreturned, List.getElem?_concat_length]
  · refine List.pairwise_append.mpr ⟨h.order, List.pairwise_singleton _ _, fun a ha b hb => ?_⟩
    obtain rfl := List.mem_singleton.mp hb
    exact hanswers a ha

/-- What `got` says is what the step returned. -/
theorem Receiver.got_frame {r r' : Receiver} {v : Value} (h : r.got r' = .frame v)
    (hreturned : r'.returned = r.returned ∨ ∃ v, r'.returned = r.returned ++ [v]) :
    r'.returned = r.returned ++ [v] := by
  rcases hreturned with heq | ⟨w, hw⟩
  · rw [Receiver.got, heq, List.drop_length] at h
    dsimp only at h
    split at h <;> cases h
  · rw [Receiver.got, hw, List.drop_left] at h
    cases h
    exact hw

theorem Receiver.got_ne_frame {r r' : Receiver} (h : ∀ v, r.got r' ≠ .frame v)
    (hreturned : r'.returned = r.returned ∨ ∃ v, r'.returned = r.returned ++ [v]) :
    r'.returned = r.returned := by
  rcases hreturned with heq | ⟨w, hw⟩
  · exact heq
  · exact absurd (by rw [Receiver.got, hw, List.drop_left]) (h w)

theorem Caller.Correlated.resume {c : Caller} (h : c.Correlated) {rx : Receiver}
    (hreturned : rx.returned = c.rx.returned ∨ ∃ v, rx.returned = c.rx.returned ++ [v]) :
    (c.resume rx).Correlated := by
  unfold Caller.resume
  split
  · next hwaiting =>
      rcases hreturned with heq | ⟨v, hv⟩
      · exact h.keep heq
      · exact h.skip hv (by rw [hwaiting]; nofun)
  · next w hwaiting =>
      split
      · next hgot => exact h.keep (Receiver.got_ne_frame (by rw [hgot]; nofun) hreturned)
      · next hgot =>
          have hkeep := h.keep (Receiver.got_ne_frame (by rw [hgot]; nofun) hreturned)
          exact ⟨hkeep.good, hkeep.order, nofun⟩
      · next v hgot =>
          have hv := Receiver.got_frame hgot hreturned
          have hskip : ¬ IsAnswer w.callId v →
              Caller.Correlated { c with rx := { rx with pc := .decoding } } := by
            intro hnot
            refine h.skip hv (fun w' hw' => ?_)
            obtain rfl : w = w' := Option.some.inj (hwaiting.symm.trans hw')
            exact hnot
          split
          · next hid =>
              split
              · next response hparse => exact h.answer hwaiting hv hid hparse
              · next hparse => exact hskip fun hanswer => hanswer.2.elim hparse
          · next hid => exact hskip fun hanswer => hid hanswer.1

theorem Caller.Correlated.step {c c' : Caller} {e : CallEvent} (h : c.Correlated)
    (hs : stepCall c e = some c') : c'.Correlated := by
  cases e with
  | call callId sent =>
      rw [stepCall] at hs
      split at hs
      · next hidle =>
          split at hs
          · cases hs
            refine ⟨h.good, h.order, fun w hw => ?_⟩
            cases hw
            exact ⟨le_rfl, fun j v hj hlt => absurd hlt (Nat.not_lt.mpr hj),
              fun a ha => (h.good a ha).lt⟩
          · cases hs
            exact h
      · cases hs
  | rx e =>
      obtain ⟨rx, hrx, rfl⟩ := Option.map_eq_some_iff.mp hs
      exact h.resume (returned_of_step hrx)

/-! ## Histories of calls -/

theorem correlated_start (buf unread : Bytes) : (Caller.start buf unread).Correlated := by
  refine ⟨fun a ha => ?_, .nil, fun w hw => ?_⟩
  · cases ha
  · cases hw

/-- A history is over the frames of its stream, as one of the receiver alone is. -/
theorem prefix_of_run {s : Bytes} {c c' : Caller} {events : List CallEvent}
    (h : c.rx.Inv s) (hrun : run stepCall c events = some c') : c'.rx.Inv s := by
  refine run_invariant_of_step (fun c => c.rx.Inv s) (fun c e c' hi hs => ?_) h hrun
  cases e with
  | call callId sent =>
      rw [stepCall] at hs
      split at hs
      · split at hs <;> cases hs
        · exact ⟨hi.frames, nofun⟩
        · exact hi
      · cases hs
  | rx e =>
      obtain ⟨rx, hrx, rfl⟩ := Option.map_eq_some_iff.mp hs
      have hrxInv := hi.step hrx
      have hgoOn : Receiver.Inv s { rx with pc := .decoding } := ⟨hrxInv.frames, nofun⟩
      unfold Caller.resume
      split
      · exact hrxInv
      · split
        · exact hrxInv
        · exact hrxInv
        · split
          · split
            · exact hrxInv
            · exact hgoOn
          · exact hgoOn

/-- *Responses are correlated.*  In every history of calls on one stream each answer is the
parse of the first frame of the stream, not consumed when its call began, that carries the
call's `call_id` and parses as a RESULT or an ERROR.  Answers come in the order of their calls,
each from a frame behind the answers before it, and two calls with different ids are never
answered by one frame. -/
theorem answers_correlated {buf unread : Bytes} {events : List CallEvent} {c : Caller}
    (hrun : run stepCall (.start buf unread) events = some c) :
    (∀ a ∈ c.answers, a.Good (Frame.frames (buf ++ unread))) ∧
    c.answers.Pairwise (fun a b => a.index < b.since) ∧
    (∀ a ∈ c.answers, ∀ b ∈ c.answers, a.callId ≠ b.callId → a.index ≠ b.index) := by
  have hrx : c.rx.Inv (buf ++ unread) :=
    prefix_of_run (c := .start buf unread) ⟨rfl, nofun⟩ hrun
  have hinv : c.Correlated :=
    run_invariant_of_step Caller.Correlated (fun _ _ _ hi hs => hi.step hs)
      (correlated_start buf unread) hrun
  have hgood : ∀ a ∈ c.answers, a.Good (Frame.frames (buf ++ unread)) :=
    fun a ha => (hinv.good a ha).mono ⟨_, hrx.frames⟩
  refine ⟨hgood, hinv.order, fun a ha b hb hne heq => hne ?_⟩
  obtain ⟨v, hv, hid, -⟩ := (hgood a ha).frame
  obtain ⟨w, hw, hid', -⟩ := (hgood b hb).frame
  rw [heq, hw] at hv
  cases hv
  exact Option.some.inj (hid.symm.trans hid')

/-- The RESULT of the call with id `n`. -/
def resultOf (n : UInt8) : Bytes :=
  Frame.wire (Cbor.canon (Frame.result ⟨.fill n, .int n.toNat,
    .fill 9, []⟩ (.fill 8) 0))

/-- The first call times out in the middle of its answer, which the second one meets. -/
def lateAnswer : List CallEvent :=
  [.call (.fill 1) true, .rx .decode, .rx (.read 40), .rx .decode, .rx .drop,
   .call (.fill 2) true, .rx .decode, .rx (.read 376), .rx .decode, .rx .decode]

theorem second_call_answered :
    ∃ c, run stepCall (.start [] (resultOf 1 ++ resultOf 2)) lateAnswer = some c ∧
      c.answers = [⟨⟨.replicate 16 2, rfl⟩, 0, 1, .result (.int 2) ⟨.replicate 32 9, rfl⟩⟩] ∧
      ∀ a ∈ c.answers, a.Good (Frame.frames ([] ++ (resultOf 1 ++ resultOf 2))) := by
  have hrun := run_eq_runFrom (show (run stepCall (.start [] (resultOf 1 ++ resultOf 2))
    lateAnswer).isSome = true by decide +kernel)
  exact ⟨_, hrun, by decide +kernel, (answers_correlated hrun).1⟩

end Macula.Connection

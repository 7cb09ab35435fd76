import Mathlib
import Catalyrst.Lib.Purge
import Catalyrst.Social.PrivateVoice

/-!
# Outsiders and private calls

The four requests about a private call, with what they publish. Accepting is for the
callee alone. Rejecting and ending a call is for anyone who knows its id, so an outsider
can take a call away from its parties; as long as no outsider does, the requests of
outsiders might as well not have been made.
-/

namespace Catalyrst.Social

open Catalyrst.Lib

structure VoiceEnv where
  trim : Text → Text
  lower : Text → Text
  parseUuid : Text → Option ℕ
  showUuid : ℕ → Text
  expirationMs : ℤ

def VoiceEnv.normalize (env : VoiceEnv) (address : Text) : Address := env.lower (env.trim address)

/-- What a start reads of other tables and of the gatekeeper. -/
structure StartChecks where
  friendshipBlocked : Bool
  callerInCommunity : Except String Bool
  calleeInCommunity : Except String Bool
  calleePrivacy : Option String
  callerPrivacy : Option String
  friendshipIsActive : Option Bool
  callerInVoice : Except String Bool
  calleeInVoice : Except String Bool

inductive VoiceCall where
  /-- `checkedAt` is the time of the first look, `now` that of the transaction. -/
  | start (callee : Option Text) (checks : StartChecks) (checkedAt now : ℤ) (id : ℕ)
  /-- `urls` are the credentials the gatekeeper hands out. -/
  | accept (callId : Text) (urls : Address → Option Text)
  | reject (callId : Text)
  | endCall (callId : Text)

structure VoiceRequest where
  identity : Text
  call : VoiceCall

inductive VoiceResponse where
  | ok (callId : Text) (connectionUrl : Option Text)
  | invalidRequest (message : String)
  | forbidden (message : String)
  /-- Some messages end with an address. -/
  | conflict (message : String) (address : Option Address)
  | internal (message : String)
  | notFound (message : String)

inductive PrivateVoiceChatStatus where
  | voiceChatRequested
  | voiceChatAccepted
  | voiceChatRejected
  | voiceChatEnded
  deriving DecidableEq

structure PrivateVoiceChatUpdate where
  callId : Text
  status : PrivateVoiceChatStatus
  caller : Address
  callee : Address
  credentials : Option Text
  deriving DecidableEq

/-- An event and the user it is published to. -/
structure Published where
  target : Address
  update : PrivateVoiceChatUpdate
  deriving DecidableEq

structure VoiceReply where
  chats : List PrivateVoiceChat
  response : VoiceResponse
  events : List Published

namespace StartChecks

/-- The checks before the first look at the calls. -/
def refusal (k : StartChecks) : Option VoiceResponse :=
  if k.friendshipBlocked then
    some (.forbidden "This action is not allowed because either you blocked this user or this user blocked you")
  else
    match k.callerInCommunity, k.calleeInCommunity with
    | .error e, _ => some (.internal ("community voice status: " ++ e))
    | .ok _, .error e => some (.internal ("community voice status: " ++ e))
    | .ok true, .ok _ =>
      some (.conflict "Cannot start private voice chat while in a community voice chat" none)
    | .ok false, .ok true =>
      some (.conflict "Cannot start private voice chat: the callee is in a community voice chat" none)
    | .ok false, .ok false =>
      if (k.calleePrivacy.getD "all" ≠ "all" ∨ k.callerPrivacy.getD "all" ≠ "all") ∧
          ¬ k.friendshipIsActive.getD false then
        some (.forbidden
          "The callee or the caller are not accepting voice calls from users that are not friends")
      else none

/-- The checks after it. -/
def voiceRefusal (k : StartChecks) (me callee : Address) : Option VoiceResponse :=
  match k.callerInVoice, k.calleeInVoice with
  | .error e, _ => some (.internal ("voice status: " ++ e))
  | .ok _, .error e => some (.internal ("voice status: " ++ e))
  | .ok _, .ok true => some (.conflict "One of the users is already in a voice chat: " (some callee))
  | .ok true, .ok false => some (.conflict "One of the users is already in a voice chat: " (some me))
  | .ok false, .ok false => none

end StartChecks

section Handlers

variable (env : VoiceEnv) (chats : List PrivateVoiceChat)

def busyCalling : VoiceResponse := .conflict "One of the users is busy calling someone else" none

def startPrivateVoiceChat (me : Address) (callee : Option Text) (checks : StartChecks)
    (checkedAt now : ℤ) (id : ℕ) : VoiceReply :=
  match callee.filter fun a => env.trim a ≠ [] with
  | none => ⟨chats, .invalidRequest "Callee address is missing in the request payload", []⟩
  | some raw =>
    let callee := env.normalize raw
    if callee = me then
      ⟨chats, .forbidden "Cannot start a private voice chat with yourself", []⟩
    else
      match checks.refusal with
      | some response => ⟨chats, response, []⟩
      | none =>
        let participants := [env.lower me, env.lower callee]
        if areUsersBeingCalledOrCallingSomeone chats participants env.expirationMs checkedAt then
          ⟨chats, busyCalling, []⟩
        else
          match checks.voiceRefusal me callee with
          | some response => ⟨chats, response, []⟩
          | none =>
            if areUsersBeingCalledOrCallingSomeone chats participants env.expirationMs now then
              ⟨chats, busyCalling, []⟩
            else if insertFails chats ⟨id, env.lower me, env.lower callee, now⟩ then
              ⟨chats, .internal "constraint violation", []⟩
            else
              ⟨chats ++ [⟨id, env.lower me, env.lower callee, now⟩], .ok (env.showUuid id) none,
                [⟨callee, env.showUuid id, .voiceChatRequested, me, callee, none⟩]⟩

def callNotFound : VoiceReply := ⟨chats, .notFound "call not found", []⟩

/-- The update about a call that its row describes. -/
def updateOf (callId : Text) (status : PrivateVoiceChatStatus) (chat : PrivateVoiceChat)
    (credentials : Option Text) : PrivateVoiceChatUpdate :=
  ⟨callId, status, chat.callerAddress, chat.calleeAddress, credentials⟩

def acceptPrivateVoiceChat (me : Address) (callId : Text) (urls : Address → Option Text) :
    VoiceReply :=
  match env.parseUuid callId with
  | none => ⟨chats, .invalidRequest "invalid call_id", []⟩
  | some id =>
    match getPrivateVoiceChat chats id with
    | none => callNotFound chats
    | some chat =>
      if chat.calleeAddress ≠ me then ⟨chats, .forbidden "not the callee", []⟩
      else
        ⟨chats, .ok callId (some ((urls (env.lower chat.calleeAddress)).getD [])),
          [⟨chat.callerAddress, updateOf callId .voiceChatAccepted chat
            (some ((urls (env.lower chat.callerAddress)).getD []))⟩]⟩

/-- The caller of the request is not looked at. -/
def rejectPrivateVoiceChat (callId : Text) : VoiceReply :=
  match env.parseUuid callId with
  | none => ⟨chats, .invalidRequest "invalid call_id", []⟩
  | some id =>
    match getPrivateVoiceChat chats id with
    | none => callNotFound chats
    | some chat =>
      ⟨deletePrivateVoiceChat chats id, .ok callId none,
        [⟨chat.callerAddress, updateOf callId .voiceChatRejected chat none⟩]⟩

def endPrivateVoiceChat (callId : Text) : VoiceReply :=
  match env.parseUuid callId with
  | none => ⟨chats, .notFound "invalid call_id", []⟩
  | some id =>
    match getPrivateVoiceChat chats id with
    | none => callNotFound chats
    | some chat =>
      ⟨deletePrivateVoiceChat chats id, .ok callId none,
        [chat.callerAddress, chat.calleeAddress].map fun target =>
          ⟨target, updateOf callId .voiceChatEnded chat none⟩⟩

def handle (r : VoiceRequest) : VoiceReply :=
  let me := env.normalize r.identity
  match r.call with
  | .start callee checks checkedAt now id =>
    startPrivateVoiceChat env chats me callee checks checkedAt now id
  | .accept callId urls => acceptPrivateVoiceChat env chats me callId urls
  | .reject callId => rejectPrivateVoiceChat env chats callId
  | .endCall callId => endPrivateVoiceChat env chats callId

/-- The rows after a request, and what it published. -/
def serveVoice (r : VoiceRequest) : List PrivateVoiceChat × List Published :=
  ((handle env chats r).chats, (handle env chats r).events)

end Handlers

/-! ### Outsiders -/

/-- The call a request names. -/
def VoiceRequest.names (env : VoiceEnv) (r : VoiceRequest) : Option ℕ :=
  match r.call with
  | .start _ _ _ _ _ => none
  | .accept callId _ | .reject callId | .endCall callId => env.parseUuid callId

/-- The requester starts or is called by this request, under this id. -/
def VoiceRequest.party (env : VoiceEnv) (u : Address) (id : ℕ) (r : VoiceRequest) : Bool :=
  match r.call with
  | .start callee _ _ _ id' =>
    id' = id ∧ (u = env.lower (env.normalize r.identity) ∨
      callee.any fun a => u = env.lower (env.normalize a))
  | .accept _ _ | .reject _ | .endCall _ => false

/-- A request of `u` about a call of which `u` is neither caller nor callee. -/
def VoiceRequest.outside (env : VoiceEnv) (u : Address) (requests : List VoiceRequest)
    (r : VoiceRequest) : Bool :=
  env.normalize r.identity = u ∧
    (r.names env).any fun id => !requests.any (VoiceRequest.party env u id)

/-- Rejects or ends a call that is there. -/
def VoiceRequest.removes (env : VoiceEnv) (chats : List PrivateVoiceChat) (r : VoiceRequest) : Bool :=
  match r.call with
  | .start _ _ _ _ _ | .accept _ _ => false
  | .reject callId | .endCall callId =>
    (env.parseUuid callId).any fun id => (getPrivateVoiceChat chats id).isSome

section Runs

variable {env : VoiceEnv} {u : Address} {requests : List VoiceRequest} {r : VoiceRequest}
  {chats : List PrivateVoiceChat}

/-- Every row is of a start among the requests. -/
def FromStarts (env : VoiceEnv) (requests : List VoiceRequest) (chats : List PrivateVoiceChat) : Prop :=
  ∀ c ∈ chats, ∀ u ∈ c.participants, ∃ r ∈ requests, r.party env u c.id = true

theorem FromStarts.delete (h : FromStarts env requests chats) (id : ℕ) :
    FromStarts env requests (deletePrivateVoiceChat chats id) :=
  fun c hc => h c (List.mem_filter.mp hc).1

theorem FromStarts.serve (h : FromStarts env requests chats) (hr : r ∈ requests) :
    FromStarts env requests (serveVoice env chats r).1 := by
  unfold serveVoice handle
  dsimp only
  split
  · rename_i callee checks checkedAt now id hcall
    unfold startPrivateVoiceChat
    split
    · exact h
    rename_i raw hraw
    dsimp only
    split
    · exact h
    split
    · exact h
    split
    · exact h
    split
    · exact h
    split
    · exact h
    split
    · exact h
    · intro c hc v hv
      rcases List.mem_append.mp hc with hc | hc
      · exact h c hc v hv
      · obtain rfl := List.mem_singleton.mp hc
        have hcallee : callee = some raw := (Option.filter_eq_some_iff.mp hraw).1
        refine ⟨r, hr, ?_⟩
        simp only [PrivateVoiceChat.participants, List.mem_cons, List.not_mem_nil, or_false] at hv
        simpa [VoiceRequest.party, hcall, hcallee] using hv
  · unfold acceptPrivateVoiceChat
    split
    · exact h
    split
    · exact h
    split
    · exact h
    · exact h
  · unfold rejectPrivateVoiceChat
    split
    · exact h
    split
    · exact h
    · exact h.delete _
  · unfold endPrivateVoiceChat
    split
    · exact h
    split
    · exact h
    · exact h.delete _

theorem get_some {id : ℕ} {c : PrivateVoiceChat} (h : getPrivateVoiceChat chats id = some c) :
    c ∈ chats ∧ c.id = id :=
  ⟨List.mem_of_find?_eq_some h, by simpa using List.find?_some h⟩

/-- An outsider that removes nothing does nothing. -/
theorem outside_idle (h : FromStarts env requests chats) (hout : r.outside env u requests = true)
    (hkeeps : r.removes env chats = false) : serveVoice env chats r = (chats, []) := by
  simp only [VoiceRequest.outside, decide_eq_true_eq] at hout
  obtain ⟨hme, hnames⟩ := hout
  unfold serveVoice handle
  dsimp only
  split
  · rename_i hcall
    simp [VoiceRequest.names, hcall] at hnames
  · rename_i callId urls hcall
    simp only [VoiceRequest.names, hcall] at hnames
    unfold acceptPrivateVoiceChat
    cases hid : env.parseUuid callId with
    | none => rfl
    | some id =>
      dsimp only
      cases hget : getPrivateVoiceChat chats id with
      | none => rfl
      | some chat =>
        obtain ⟨hmem, rfl⟩ := get_some hget
        have hne : chat.calleeAddress ≠ env.normalize r.identity := by
          intro heq
          obtain ⟨q, hq, hparty⟩ := h chat hmem chat.calleeAddress
            (List.mem_cons_of_mem _ List.mem_cons_self)
          rw [hid, Option.any_some, Bool.not_eq_true', List.any_eq_false] at hnames
          rw [heq, hme] at hparty
          exact hnames q hq hparty
        simp [hne]
  · rename_i callId hcall
    simp only [VoiceRequest.removes, hcall] at hkeeps
    unfold rejectPrivateVoiceChat
    cases hid : env.parseUuid callId with
    | none => rfl
    | some id =>
      rw [hid, Option.any_some, Option.isSome_eq_false_iff, Option.isNone_iff_eq_none] at hkeeps
      simp [hkeeps, callNotFound]
  · rename_i callId hcall
    simp only [VoiceRequest.removes, hcall] at hkeeps
    unfold endPrivateVoiceChat
    cases hid : env.parseUuid callId with
    | none => rfl
    | some id =>
      rw [hid, Option.any_some, Option.isSome_eq_false_iff, Option.isNone_iff_eq_none] at hkeeps
      simp [hkeeps, callNotFound]

/-- What is published to one user. -/
def publishedTo (v : Address) (events : List Published) : List PrivateVoiceChatUpdate :=
  (events.filter fun e => e.target = v).map Published.update

/-- **Outsiders cannot affect a private call** as long as they remove none. Without the requests of
`u` about calls of others, the rows after every other request and the events to every user are
the same. -/
theorem outsiders_without_effect (env : VoiceEnv) (u : Address) (requests : List VoiceRequest)
    (hkeeps : Purge.Throughout (serveVoice env)
      (fun chats r => r.outside env u requests = true → r.removes env chats = false) [] requests) :
    Purge.trace (serveVoice env) [] (requests.filter fun r => !r.outside env u requests) =
        ((Purge.answered (serveVoice env) [] requests).filter fun a =>
          !a.1.outside env u requests).map Prod.snd ∧
      ∀ v, publishedTo v ((Purge.trace (serveVoice env) []
          (requests.filter fun r => !r.outside env u requests)).flatMap Prod.snd) =
        publishedTo v ((Purge.trace (serveVoice env) [] requests).flatMap Prod.snd) := by
  have hidle : Purge.Throughout (serveVoice env)
      (fun chats r => (!r.outside env u requests) = false → serveVoice env chats r = (chats, [])) []
      requests := by
    refine Purge.throughout_of_invariant (I := FromStarts env requests)
      (fun chats r h hr => h.serve hr) (fun chats r h _ hk hout => ?_) (fun c hc => nomatch hc) hkeeps
    have hout' : r.outside env u requests = true := by simpa using hout
    exact outside_idle h hout' (hk hout')
  refine ⟨Purge.trace_filter hidle, fun v => ?_⟩
  rw [Purge.published_filter hidle]

end Runs

section Examples

/-- Call ids are single digits. -/
def plainEnv : VoiceEnv where
  trim := id
  lower := id
  parseUuid t := t.head?.map fun c => c.toNat - '0'.toNat
  showUuid id := Nat.toDigits 10 id
  expirationMs := 60000

def openLines : StartChecks where
  friendshipBlocked := false
  callerInCommunity := .ok false
  calleeInCommunity := .ok false
  calleePrivacy := none
  callerPrivacy := none
  friendshipIsActive := none
  callerInVoice := .ok false
  calleeInVoice := .ok false

/-- `a` calls `b`, `m` meddles, and `b` accepts. -/
def meddling (call : VoiceCall) : List VoiceRequest :=
  [⟨['a'], .start (some ['b']) openLines 0 0 1⟩, ⟨['m'], call⟩,
    ⟨['b'], .accept ['1'] fun _ => none⟩]

theorem outsiders_without_effect_accept :
    Purge.trace (serveVoice plainEnv) [] ((meddling (.accept ['1'] fun _ => none)).filter fun r =>
        !r.outside plainEnv ['m'] (meddling (.accept ['1'] fun _ => none))) =
      ((Purge.answered (serveVoice plainEnv) [] (meddling (.accept ['1'] fun _ => none))).filter
        fun a => !a.1.outside plainEnv ['m'] (meddling (.accept ['1'] fun _ => none))).map
        Prod.snd := by
  refine (outsiders_without_effect plainEnv ['m'] (meddling (.accept ['1'] fun _ => none)) ?_).1
  exact ⟨by decide, by decide, by decide, trivial⟩

/-- The callee finds the call gone. -/
theorem outsider_takes_call_away :
    Purge.trace (serveVoice plainEnv) [] ((meddling (.reject ['1'])).filter fun r =>
        !r.outside plainEnv ['m'] (meddling (.reject ['1']))) ≠
      ((Purge.answered (serveVoice plainEnv) [] (meddling (.reject ['1']))).filter
        fun a => !a.1.outside plainEnv ['m'] (meddling (.reject ['1']))).map Prod.snd := by
  decide

end Examples

end Catalyrst.Social

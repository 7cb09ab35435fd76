import Catalyrst.Drpc.Streams

/-!
# One item at a time

Whatever the order in which packets are handled, at most one item of a stream is on its way. The
invariant says where it is: the sending half holds it, or it lies in one of the queues between the
two halves, or its acknowledgement is on the way back, or it was lost.
-/

namespace Catalyrst.Drpc

open Catalyrst.Lib

namespace Stream

/-- Where the item or the packet of a stream that is on its way is. -/
inductive Place where
  | idle
  | held (payload : Bytes)
  | forward (payload : Bytes)
  | inbox (payload : Bytes)
  | channel (payload : Bytes)
  | acking (payload : Bytes)
  | lost (payload : Bytes)
  | back
  | oneshot
  | closing
  | closed
  /-- The error of the sending half; the item, if any, was not sent. -/
  | error (errorCode : ℕ) (payload : Option Bytes)
  | told (errorCode : ℕ) (payload : Option Bytes)

namespace Place

/-- The item that was pulled and not received. -/
def item : Place → Option Bytes
  | held x | forward x | inbox x | channel x | acking x | lost x => some x
  | idle | back | oneshot | closing | closed => none
  | error _ x | told _ x => x

def isLost : Place → Bool
  | lost _ | error _ _ | told _ _ => true
  | _ => false

/-- Where an item is that is not on its way. -/
def away : Option Bytes → Place
  | some x => lost x
  | none => idle

def forwardPackets (e : Ends) (sent : ℕ) : Place → List StreamMessage
  | forward x => [e.id.item (sequenceNumber sent) x]
  | closing => [e.id.close (sequenceNumber sent)]
  | error errorCode _ => [e.id.remoteError errorCode]
  | _ => []

def inboxPackets (e : Ends) (sent : ℕ) : Place → List (RpcMessageTypes × StreamMessage)
  | inbox x => [(.streamMessage, e.id.item (sequenceNumber sent) x)]
  | closed => [(.streamMessage, e.id.close (sequenceNumber sent))]
  | told errorCode _ => [(.remoteErrorResponse, e.id.remoteError errorCode)]
  | _ => []

def channelItems : Place → List Bytes
  | channel x => [x]
  | _ => []

def ackingItem : Place → Option Bytes
  | acking x => some x
  | _ => none

def backPackets (e : Ends) (sent : ℕ) : Place → List StreamMessage
  | back => [e.id.acknowledge (sequenceNumber sent)]
  | _ => []

def acknowledgement (e : Ends) (sent : ℕ) : Place → Option StreamMessage
  | oneshot => some (e.id.acknowledge (sequenceNumber sent))
  | _ => none

/-- What the sending half does meanwhile. -/
def phases : Place → Phase → Prop
  | idle, p => p = .pulling ∨ p = .closing ∨ p = .done false ∨ (∃ c, p = .reporting c) ∨ p = .failed
  | held x, p => p = .sending x
  | lost _, p => p = .awaiting ∨ (∃ c, p = .reporting c) ∨ p = .failed
  | forward _, p | inbox _, p | channel _, p | acking _, p | back, p | oneshot, p => p = .awaiting
  | closing, p | closed, p => p = .done false
  | error _ _, p | told _ _, p => p = .failed

theorem phases_away_failed (x : Option Bytes) : (away x).phases .failed := by
  cases x <;> simp [away, phases]

end Place

variable {e : Ends} {s t : Stream} {w : Place} {m : StreamMessage}

/-- A packet of the stream. -/
def own (e : Ends) (m : StreamMessage) : Bool := !isForeign e m

/-- The state of a stream whose packet is at `w`. -/
structure At (e : Ends) (s : Stream) (w : Place) : Prop where
  received : s.received = e.items.take s.received.length
  sent : s.sent = s.received.length + w.item.toList.length
  item : ∀ x ∈ w.item, e.items[s.received.length]? = some x
  bound : s.sent ≤ e.items.length
  phase : w.phases s.phase
  complete : s.phase = .closing ∨ s.phase = .done false → s.sent = e.items.length
  forward : s.forward.filter (own e) = w.forwardPackets e s.sent
  inbox : s.inbox = w.inboxPackets e s.sent
  channel : s.channel = w.channelItems
  acking : s.acking = w.ackingItem
  back : s.back.filter (own e) = w.backPackets e s.sent
  oneshot : s.oneshot = w.acknowledgement e s.sent
  ackListener : (s.phase = .awaiting ∨ ∃ x, s.phase = .sending x) → s.oneshot = none →
    s.ackListener = some (ackKey (e.id.item (sequenceNumber s.sent) []))
  key : ∀ k ∈ s.ackListener, ∃ n, k = ackKey (e.id.item n [])
  last : s.ended = false → s.lastReceivedSequenceId = s.received.length + s.acking.toList.length
  active : s.acking ≠ none → s.ended = false
  cancelled : s.cancelled = true →
    (s.phase = .done false ∨ s.phase = .failed) ∧ ∃ x, w = .away x

/-- Sends succeed, the procedure gives a stream and the consumer reads on. -/
def Faultless : Act → Prop
  | .procedureError _ => False
  | .abandon => False
  | .send result => result = .delivered
  | .sendClose delivered => delivered = true
  | .sendError _ => False
  | .ack delivered => delivered = true
  | _ => True

/-- A packet with an item is handled only when the listener is registered. -/
def InTime (e : Ends) (s : Stream) : Act → Prop
  | .deliver i => ∀ m ∈ s.forward[i]?, forListener e m = some .streamMessage → m.closed = false →
    s.listener = .present
  | _ => True

/-- The receiving half takes nothing in, though it has not been told that nothing more comes. -/
def Shut (s : Stream) : Prop := s.cancelled = false ∧ (s.ended = true ∨ s.inboxClosed = true)

/-! ### Packets of the stream -/

section Packets

variable {n : ℕ} {x : Bytes}

theorem forListener_item (hid : e.id.messageNumber < 2 ^ 27) :
    forListener e (e.id.item n x) = some .streamMessage := by
  simp [forListener, StreamId.item, parseHeader_build _ hid]

theorem forListener_close (hid : e.id.messageNumber < 2 ^ 27) :
    forListener e (e.id.close n) = some .streamMessage := by
  simp [forListener, StreamId.close, parseHeader_build _ hid]

/-- A server looks no listener up for an error. -/
theorem forListener_remoteError (hid : e.id.messageNumber < 2 ^ 27) (c : ℕ) :
    forListener e (e.id.remoteError c) =
      if e.toClient then some .remoteErrorResponse else none := by
  simp [forListener, StreamId.remoteError, parseHeader_build _ hid]

theorem isAcknowledgement_acknowledge (hid : e.id.messageNumber < 2 ^ 27) :
    isAcknowledgement e (e.id.acknowledge n) = true := by
  cases h : e.toClient <;>
    simp [isAcknowledgement, StreamId.acknowledge, parseHeader_build _ hid, h]

theorem number_build (t : RpcMessageTypes) (hid : e.id.messageNumber < 2 ^ 27) :
    (parseMessageIdentifier (buildMessageIdentifier t.toU32 e.id.messageNumber)).2 =
      e.id.messageNumber := by
  rw [parse_build, Nat.mod_eq_of_lt hid]

theorem ackKey_acknowledge :
    ackKey (e.id.acknowledge n) = (e.id.portId, e.id.messageNumber % 2 ^ 27, n) := by
  rw [ackKey, StreamId.acknowledge, parse_build]

theorem ackKey_item :
    ackKey (e.id.item n x) = (e.id.portId, e.id.messageNumber % 2 ^ 27, n) := by
  rw [ackKey, StreamId.item, parse_build]

theorem own_item (hid : e.id.messageNumber < 2 ^ 27) : own e (e.id.item n x) = true := by
  simp [own, isForeign, StreamId.item, number_build _ hid]

theorem own_close (hid : e.id.messageNumber < 2 ^ 27) : own e (e.id.close n) = true := by
  simp [own, isForeign, StreamId.close, number_build _ hid]

theorem own_remoteError (hid : e.id.messageNumber < 2 ^ 27) (c : ℕ) :
    own e (e.id.remoteError c) = true := by
  simp [own, isForeign, StreamId.remoteError, number_build _ hid]

theorem own_acknowledge (hid : e.id.messageNumber < 2 ^ 27) :
    own e (e.id.acknowledge n) = true := by
  simp [own, isForeign, StreamId.acknowledge, number_build _ hid]

theorem forListener_foreign (h : own e m = false) : forListener e m = none := by
  have hne : (parseMessageIdentifier m.messageIdentifier).2 ≠ e.id.messageNumber := by
    simpa [own, isForeign] using h
  unfold forListener parseHeader
  cases RpcMessageTypes.tryFrom (parseMessageIdentifier m.messageIdentifier).1 with
  | none => rfl
  | some t => simp [hne]

theorem ackKey_foreign (hid : e.id.messageNumber < 2 ^ 27) (h : own e m = false) :
    ackKey m ≠ ackKey (e.id.item n x) := by
  have hne : (parseMessageIdentifier m.messageIdentifier).2 ≠ e.id.messageNumber := by
    simpa [own, isForeign] using h
  intro heq
  rw [ackKey_item, Nat.mod_eq_of_lt hid] at heq
  exact hne (congrArg (fun k => k.2.1) heq)

/-- Handling a packet of another stream leaves the packets of this one. -/
theorem filter_eraseIdx_foreign {l : List StreamMessage} {i : ℕ} (h : l[i]? = some m)
    (hm : own e m = false) : (l.eraseIdx i).filter (own e) = l.filter (own e) := by
  obtain ⟨hi, rfl⟩ := List.getElem?_eq_some_iff.mp h
  conv_rhs => rw [← List.take_append_drop i l, List.drop_eq_getElem_cons hi]
  rw [List.eraseIdx_eq_take_drop_succ, List.filter_append, List.filter_append,
    List.filter_cons_of_neg (by simpa using hm)]

theorem filter_eraseIdx_own {l : List StreamMessage} {i : ℕ} (h : l[i]? = some m)
    (hm : own e m = true) {ms : List StreamMessage} (hl : l.filter (own e) = ms)
    (hlen : ms.length ≤ 1) : ms = [m] ∧ (l.eraseIdx i).filter (own e) = [] := by
  obtain ⟨hi, rfl⟩ := List.getElem?_eq_some_iff.mp h
  have hsplit : l.filter (own e) =
      (l.take i).filter (own e) ++ l[i] :: (l.drop (i + 1)).filter (own e) := by
    conv_lhs => rw [← List.take_append_drop i l, List.drop_eq_getElem_cons hi]
    rw [List.filter_append, List.filter_cons_of_pos hm]
  rw [hl] at hsplit
  rw [hsplit] at hlen ⊢
  simp only [List.length_append, List.length_cons] at hlen
  have h₁ : (l.take i).filter (own e) = [] := List.length_eq_zero_iff.mp (by omega)
  have h₂ : (l.drop (i + 1)).filter (own e) = [] := List.length_eq_zero_iff.mp (by omega)
  rw [List.eraseIdx_eq_take_drop_succ, List.filter_append, h₁, h₂]
  exact ⟨rfl, rfl⟩

end Packets

theorem length_forwardPackets (n : ℕ) : (w.forwardPackets e n).length ≤ 1 := by
  cases w <;> simp [Place.forwardPackets]

theorem length_backPackets (n : ℕ) : (w.backPackets e n).length ≤ 1 := by
  cases w <;> simp [Place.backPackets]

/-! ### Steps -/

theorem at_opened : At e opened .idle where
  received := by simp [opened]
  sent := rfl
  item := by simp [Place.item]
  bound := Nat.zero_le _
  phase := .inl rfl
  complete := by simp [opened]
  forward := rfl
  inbox := rfl
  channel := rfl
  acking := rfl
  back := rfl
  oneshot := rfl
  ackListener := by simp [opened]
  key := by simp [opened]
  last := by simp [opened]
  active := by simp [opened]
  cancelled := by simp [opened]

theorem At.idle_of_pulling (h : At e s w) (hp : s.phase = .pulling) : w = .idle := by
  have hw := h.phase
  rw [hp] at hw
  cases w <;> simp [Place.phases] at hw ⊢

theorem At.idle_of_closing (h : At e s w) (hp : s.phase = .closing) : w = .idle := by
  have hw := h.phase
  rw [hp] at hw
  cases w <;> simp [Place.phases] at hw ⊢

theorem At.held_of_sending (h : At e s w) {x : Bytes} (hp : s.phase = .sending x) :
    w = .held x := by
  have hw := h.phase
  rw [hp] at hw
  cases w <;> simp [Place.phases] at hw ⊢
  exact hw.symm

/-- A stream that is not through has not been cancelled. -/
theorem At.not_cancelled (h : At e s w) (hp : s.phase ≠ .done false ∧ s.phase ≠ .failed) :
    s.cancelled = false := by
  cases hc : s.cancelled with
  | false => rfl
  | true => exact ((h.cancelled hc).1.elim hp.1 hp.2).elim

/-- Nor has one whose packet is on its way. -/
theorem At.not_cancelled_of_place (h : At e s w) (hw : ∀ x, w ≠ .away x) : s.cancelled = false := by
  cases hc : s.cancelled with
  | false => rfl
  | true => exact ((h.cancelled hc).2.elim hw).elim

section Sender

theorem At.pull (h : At e s w) (hs : step e s .pull = some t) : ∃ x, At e t (.held x) := by
  simp only [step] at hs
  split at hs
  · rename_i x hp hx
    obtain rfl := h.idle_of_pulling hp
    obtain rfl := Option.some.inj hs
    have hsent : s.sent = s.received.length := by simpa [Place.item] using h.sent
    have hlt : s.sent < e.items.length := (List.getElem?_eq_some_iff.mp hx).1
    refine ⟨x, { h with
      sent := by simp [Place.item, hsent]
      item := fun y hy => ?_
      bound := hlt
      phase := rfl
      complete := by simp
      ackListener := fun _ _ => by simp [ackKey_item]
      key := fun k hk => ⟨sequenceNumber (s.sent + 1), (Option.some.inj hk).symm⟩
      cancelled := fun hc => ?_ }⟩
    · obtain rfl := Option.some.inj hy
      rw [← hsent]
      exact hx
    · have hnot := h.not_cancelled (by simp [hp])
      rw [hnot] at hc
      cases hc
  · cases hs

theorem At.endOfItems (h : At e s w) (hs : step e s .endOfItems = some t) : At e t .idle := by
  simp only [step] at hs
  split at hs
  · rename_i hp
    obtain rfl := h.idle_of_pulling hp.1
    obtain rfl := Option.some.inj hs
    refine { h with
      phase := .inr (.inl rfl)
      complete := fun _ => hp.2
      ackListener := by simp
      cancelled := fun hc => ?_ }
    have hnot := h.not_cancelled (by simp [hp.1])
    rw [hnot] at hc
    cases hc
  · cases hs

theorem failure_eq : (∃ c, failure e = .reporting c) ∨ failure e = .failed := by
  unfold failure
  split
  · exact .inl ⟨_, rfl⟩
  · exact .inr rfl

theorem At.send (hid : e.id.messageNumber < 2 ^ 27) (h : At e s w) {result : Sent}
    (hs : step e s (.send result) = some t) :
    ∃ x, At e t (if result = .delivered then .forward x else .lost x) := by
  simp only [step] at hs
  split at hs
  · rename_i x hp
    obtain rfl := h.held_of_sending hp
    have hnot := h.not_cancelled (by simp [hp])
    have hlost : ∀ p, (∃ c, p = .reporting c) ∨ p = .failed →
        At e { s with phase := p, ackListener := none } (.lost x) := by
      intro p hfailed
      exact { h with
        phase := .inr hfailed
        complete := by rcases hfailed with ⟨c, rfl⟩ | rfl <;> simp
        ackListener := by rcases hfailed with ⟨c, rfl⟩ | rfl <;> simp
        key := by simp
        cancelled := by simp [hnot] }
    cases result with
    | delivered =>
      obtain rfl := Option.some.inj hs
      refine ⟨x, { h with
        phase := rfl
        complete := by simp
        forward := ?_
        ackListener := fun _ hone => h.ackListener (.inr ⟨x, hp⟩) hone
        cancelled := by simp [hnot] }⟩
      rw [List.filter_append, h.forward]
      simp [Place.forwardPackets, own_item hid]
    | failed =>
      obtain rfl := Option.some.inj hs
      exact ⟨x, hlost _ failure_eq⟩
    | closed =>
      obtain rfl := Option.some.inj hs
      exact ⟨x, hlost _ (.inr rfl)⟩
  · cases hs

theorem At.resume (h : At e s w) (hs : step e s .resume = some t) : At e t .idle := by
  simp only [step] at hs
  split at hs
  · rename_i m hp hm
    have hnot := h.not_cancelled (by simp [hp])
    have hone := h.oneshot
    rw [hm] at hone
    have hw : w = .oneshot := by
      cases w <;> simp [Place.acknowledgement] at hone ⊢
    subst hw
    obtain rfl : m = _ := Option.some.inj hone
    rw [if_pos (show (e.id.acknowledge (sequenceNumber s.sent)).ack = true from rfl)] at hs
    obtain rfl := Option.some.inj hs
    exact { h with
      phase := .inl rfl
      complete := by simp
      oneshot := rfl
      ackListener := by simp
      cancelled := by simp [hnot] }
  · cases hs

theorem At.sendClose (hid : e.id.messageNumber < 2 ^ 27) (h : At e s w) {delivered : Bool}
    (hs : step e s (.sendClose delivered) = some t) :
    At e t (if delivered then .closing else .idle) := by
  simp only [step] at hs
  split at hs
  · rename_i hp
    obtain rfl := h.idle_of_closing hp
    have hnot := h.not_cancelled (by simp [hp])
    split at hs
    · rename_i hd
      obtain rfl := Option.some.inj hs
      rw [if_pos hd]
      refine { h with
        phase := rfl
        complete := fun _ => h.complete (.inl hp)
        forward := ?_
        ackListener := by simp
        cancelled := by simp [hnot] }
      rw [List.filter_append, h.forward]
      simp [Place.forwardPackets, own_close hid]
    · rename_i hd
      obtain rfl := Option.some.inj hs
      rw [if_neg hd]
      have hfailed := failure_eq (e := e)
      exact { h with
        phase := .inr (.inr (.inr hfailed))
        complete := by rcases hfailed with ⟨c, hf⟩ | hf <;> simp [hf]
        ackListener := by rcases hfailed with ⟨c, hf⟩ | hf <;> simp [hf]
        cancelled := by simp [hnot] }
  · cases hs

theorem At.procedureError (h : At e s w) {errorCode : ℕ}
    (hs : step e s (.procedureError errorCode) = some t) : At e t .idle := by
  simp only [step] at hs
  split at hs
  · rename_i hp
    obtain rfl := h.idle_of_pulling hp.1
    have hnot := h.not_cancelled (by simp [hp])
    obtain rfl := Option.some.inj hs
    exact { h with
      phase := .inr (.inr (.inr (.inl ⟨_, rfl⟩)))
      complete := by simp
      ackListener := by simp
      cancelled := by simp [hnot] }
  · cases hs

theorem At.away_of_reporting (h : At e s w) {c : ℕ} (hp : s.phase = .reporting c) :
    w = .away w.item := by
  have hw := h.phase
  rw [hp] at hw
  cases w <;> simp [Place.phases] at hw ⊢ <;> rfl

theorem At.sendError (hid : e.id.messageNumber < 2 ^ 27) (h : At e s w) {delivered : Bool}
    (hs : step e s (.sendError delivered) = some t) :
    ∃ c x, At e t (if delivered then .error c x else .away x) := by
  simp only [step] at hs
  split at hs
  · rename_i c hp
    have hw := h.away_of_reporting hp
    generalize w.item = x at hw
    subst hw
    have hnot := h.not_cancelled (by simp [hp])
    split at hs
    · rename_i hd
      obtain rfl := Option.some.inj hs
      refine ⟨c, x, ?_⟩
      rw [if_pos hd]
      have hforward : (s.forward ++ [e.id.remoteError c]).filter (own e) =
          [e.id.remoteError c] := by
        have hnone : s.forward.filter (own e) = [] := by
          rw [h.forward]
          cases x <;> rfl
        rw [List.filter_append, hnone]
        simp [own_remoteError hid]
      cases x with
      | none => exact { h with
          phase := rfl
          complete := by simp
          forward := hforward
          ackListener := by simp
          cancelled := by simp [hnot] }
      | some x => exact { h with
          phase := rfl
          complete := by simp
          forward := hforward
          ackListener := by simp
          cancelled := by simp [hnot] }
    · rename_i hd
      obtain rfl := Option.some.inj hs
      refine ⟨c, x, ?_⟩
      rw [if_neg hd]
      exact { h with
        phase := Place.phases_away_failed x
        complete := by simp
        ackListener := by simp
        cancelled := by simp [hnot] }
  · cases hs

theorem At.acknowledged_foreign (hid : e.id.messageNumber < 2 ^ 27) (h : At e s w) {i : ℕ}
    (hm : s.back[i]? = some m) (hown : own e m = false) :
    At e (Stream.acknowledged e { s with back := s.back.eraseIdx i } m) w := by
  have hback := (filter_eraseIdx_foreign hm hown).trans h.back
  unfold Stream.acknowledged
  split
  · rename_i hack
    obtain ⟨n, hn⟩ := h.key _ hack.2
    exact absurd hn (ackKey_foreign hid hown)
  · exact { h with back := hback }

theorem At.acknowledged (hid : e.id.messageNumber < 2 ^ 27) (h : At e s w) {i : ℕ}
    (hs : step e s (.acknowledged i) = some t) :
    ∃ w', At e t w' ∧ (w'.isLost = true → w.isLost = true) := by
  simp only [step] at hs
  obtain ⟨m, hm, rfl⟩ := Option.map_eq_some_iff.mp hs
  cases hown : own e m with
  | false => exact ⟨w, h.acknowledged_foreign hid hm hown, id⟩
  | true =>
    obtain ⟨hpackets, hrest⟩ := filter_eraseIdx_own hm hown h.back (length_backPackets _)
    have hw : w = .back := by
      cases w <;> simp [Place.backPackets] at hpackets ⊢
    subst hw
    obtain rfl : _ = m := (List.cons.inj hpackets).1
    have hp : s.phase = .awaiting := h.phase
    have hkey := h.ackListener (.inl hp) h.oneshot
    have hack : isAcknowledgement e (e.id.acknowledge (sequenceNumber s.sent)) = true ∧
        s.ackListener = some (ackKey (e.id.acknowledge (sequenceNumber s.sent))) := by
      rw [hkey, ackKey_item, ackKey_acknowledge]
      exact ⟨isAcknowledgement_acknowledge hid, rfl⟩
    refine ⟨.oneshot, ?_, by simp [Place.isLost]⟩
    unfold Stream.acknowledged
    rw [if_pos hack]
    exact { h with
      phase := hp
      back := hrest
      oneshot := rfl
      ackListener := by simp
      key := by simp
      cancelled := by simp [h.not_cancelled (by simp [hp])] }

end Sender

section Receiver

theorem At.deliver_foreign (h : At e s w) {i : ℕ} (hm : s.forward[i]? = some m)
    (hown : own e m = false) :
    At e (Stream.deliver e { s with forward := s.forward.eraseIdx i } m) w := by
  have hforward := (filter_eraseIdx_foreign hm hown).trans h.forward
  rw [Stream.deliver, forListener_foreign hown]
  exact { h with forward := hforward }

section Deliver

variable {x : Bytes} {c i : ℕ} {y : Option Bytes}

/-- The item goes on, or is lost because the listener is not there or the inbox is closed. -/
theorem At.deliver_item (hid : e.id.messageNumber < 2 ^ 27) (h : At e s (.forward x))
    (hm : s.forward[i]? = some (e.id.item (sequenceNumber s.sent) x))
    (hrest : (s.forward.eraseIdx i).filter (own e) = []) :
    ∃ w', At e (Stream.deliver e { s with forward := s.forward.eraseIdx i }
        (e.id.item (sequenceNumber s.sent) x)) w' ∧
      (w'.isLost = true → ¬ InTime e s (.deliver i) ∨ Shut s) := by
  have hp : s.phase = .awaiting := h.phase
  have hnot := h.not_cancelled (by simp [hp])
  rw [Stream.deliver, forListener_item hid]
  dsimp only
  split
  · exact ⟨.inbox x, { h with
      forward := hrest
      inbox := by rw [h.inbox]; rfl
      cancelled := by simp [hnot] }, by simp [Place.isLost]⟩
  · rename_i hout
    refine ⟨.lost x, { h with
      phase := .inl hp
      forward := hrest
      cancelled := by simp [hnot] }, fun _ => ?_⟩
    by_cases hreg : s.listener = .present
    · refine .inr ⟨hnot, .inr ?_⟩
      simpa [hreg] using hout
    · exact .inl fun hin => hreg (hin _ hm (forListener_item hid) rfl)

theorem At.deliver_close (hid : e.id.messageNumber < 2 ^ 27) (h : At e s .closing)
    (hrest : (s.forward.eraseIdx i).filter (own e) = []) :
    ∃ w', At e (Stream.deliver e { s with forward := s.forward.eraseIdx i }
        (e.id.close (sequenceNumber s.sent))) w' ∧ w'.isLost = false := by
  have hp : s.phase = .done false := h.phase
  have hnot := h.not_cancelled_of_place fun x => by cases x <;> simp [Place.away]
  rw [Stream.deliver, forListener_close hid]
  dsimp only
  split
  · exact ⟨.closed, { h with
      phase := hp
      forward := hrest
      inbox := by rw [h.inbox]; rfl
      cancelled := by simp [hnot] }, rfl⟩
  · exact ⟨.idle, { h with
      phase := .inr (.inr (.inl hp))
      forward := hrest
      cancelled := by simp [hnot] }, rfl⟩

theorem At.deliver_error (hid : e.id.messageNumber < 2 ^ 27) (h : At e s (.error c y))
    (hrest : (s.forward.eraseIdx i).filter (own e) = []) :
    ∃ w', At e (Stream.deliver e { s with forward := s.forward.eraseIdx i }
      (e.id.remoteError c)) w' := by
  have hp : s.phase = .failed := h.phase
  have hnot := h.not_cancelled_of_place fun x => by cases x <;> simp [Place.away]
  have haway : At e { s with forward := s.forward.eraseIdx i } (.away y) := by
    cases y with
    | none => exact { h with
        phase := .inr (.inr (.inr (.inr hp)))
        forward := hrest
        cancelled := by simp [hnot] }
    | some x => exact { h with
        phase := .inr (.inr hp)
        forward := hrest
        cancelled := by simp [hnot] }
  rw [Stream.deliver, forListener_remoteError hid]
  by_cases hclient : e.toClient = true
  · rw [if_pos hclient]
    dsimp only
    split
    · exact ⟨.told c y, { h with
        phase := hp
        forward := hrest
        inbox := by rw [h.inbox]; rfl
        cancelled := by simp [hnot] }⟩
    · exact ⟨.away y, haway⟩
  · rw [if_neg hclient]
    exact ⟨.away y, haway⟩

end Deliver

theorem At.deliver (hid : e.id.messageNumber < 2 ^ 27) (h : At e s w) {i : ℕ}
    (hs : step e s (.deliver i) = some t) :
    ∃ w', At e t w' ∧
      (w'.isLost = true → w.isLost = true ∨ ¬ InTime e s (.deliver i) ∨ Shut s) := by
  simp only [step] at hs
  obtain ⟨m, hm, rfl⟩ := Option.map_eq_some_iff.mp hs
  cases hown : own e m with
  | false => exact ⟨w, h.deliver_foreign hm hown, Or.inl⟩
  | true =>
    obtain ⟨hpackets, hrest⟩ := filter_eraseIdx_own hm hown h.forward (length_forwardPackets _)
    cases w with
    | forward x =>
      obtain rfl : _ = m := (List.cons.inj hpackets).1
      obtain ⟨w', hw', hlost⟩ := h.deliver_item hid hm hrest
      exact ⟨w', hw', fun hl => .inr (hlost hl)⟩
    | closing =>
      obtain rfl : _ = m := (List.cons.inj hpackets).1
      obtain ⟨w', hw', hkept⟩ := h.deliver_close hid hrest
      exact ⟨w', hw', by simp [hkept]⟩
    | error c x =>
      obtain rfl : _ = m := (List.cons.inj hpackets).1
      obtain ⟨w', hw'⟩ := h.deliver_error hid hrest
      exact ⟨w', hw', fun _ => .inl rfl⟩
    | idle => simp [Place.forwardPackets] at hpackets
    | held => simp [Place.forwardPackets] at hpackets
    | inbox => simp [Place.forwardPackets] at hpackets
    | channel => simp [Place.forwardPackets] at hpackets
    | acking => simp [Place.forwardPackets] at hpackets
    | lost => simp [Place.forwardPackets] at hpackets
    | back => simp [Place.forwardPackets] at hpackets
    | oneshot => simp [Place.forwardPackets] at hpackets
    | closed => simp [Place.forwardPackets] at hpackets
    | told => simp [Place.forwardPackets] at hpackets

theorem At.process (h : At e s w) (hs : step e s .process = some t) :
    ∃ w', At e t w' ∧ (w'.isLost = true → w.isLost = true ∨ Shut s) := by
  simp only [step] at hs
  split at hs
  · rename_i u m rest hinbox
    obtain rfl := Option.some.inj hs
    have hw := h.inbox
    rw [hinbox] at hw
    unfold processMessage
    cases w with
    | inbox x =>
      obtain ⟨hhead, hrest⟩ := List.cons.inj hw
      obtain ⟨rfl, rfl⟩ := Prod.mk.inj hhead
      have hp : s.phase = .awaiting := h.phase
      have hnot := h.not_cancelled (by simp [hp])
      rw [if_pos rfl, if_neg (by simp [StreamId.item])]
      split
      · rename_i hended
        exact ⟨.lost x, { h with
          phase := .inl hp
          inbox := hrest
          cancelled := by simp [hnot] }, fun _ => .inr ⟨hnot, .inl hended⟩⟩
      · exact ⟨.channel x, { h with
          inbox := hrest
          channel := by rw [h.channel]; rfl
          cancelled := by simp [hnot] }, by simp [Place.isLost]⟩
    | closed =>
      obtain ⟨hhead, hrest⟩ := List.cons.inj hw
      obtain ⟨rfl, rfl⟩ := Prod.mk.inj hhead
      have hp : s.phase = .done false := h.phase
      rw [if_pos rfl, if_pos (show (e.id.close (sequenceNumber s.sent)).closed = true from rfl)]
      exact ⟨.idle, { h with
        phase := .inr (.inr (.inl hp))
        inbox := hrest
        cancelled := fun _ => ⟨.inl hp, none, rfl⟩ }, by simp [Place.isLost]⟩
    | told c x =>
      obtain ⟨hhead, hrest⟩ := List.cons.inj hw
      obtain ⟨rfl, rfl⟩ := Prod.mk.inj hhead
      have hp : s.phase = .failed := h.phase
      rw [if_neg (by simp), if_pos rfl]
      refine ⟨.away x, ?_, fun _ => .inl rfl⟩
      cases x with
      | none => exact { h with
          phase := .inr (.inr (.inr (.inr hp)))
          inbox := hrest
          cancelled := fun _ => ⟨.inr hp, none, rfl⟩ }
      | some x => exact { h with
          phase := .inr (.inr hp)
          inbox := hrest
          cancelled := fun _ => ⟨.inr hp, some x, rfl⟩ }
    | idle => simp [Place.inboxPackets] at hw
    | held => simp [Place.inboxPackets] at hw
    | forward => simp [Place.inboxPackets] at hw
    | channel => simp [Place.inboxPackets] at hw
    | acking => simp [Place.inboxPackets] at hw
    | lost => simp [Place.inboxPackets] at hw
    | back => simp [Place.inboxPackets] at hw
    | oneshot => simp [Place.inboxPackets] at hw
    | closing => simp [Place.inboxPackets] at hw
    | error => simp [Place.inboxPackets] at hw
  · cases hs

theorem At.next (h : At e s w) (hs : step e s .next = some t) : ∃ x, At e t (.acking x) := by
  simp only [step] at hs
  split at hs
  · rename_i x rest hchannel
    split at hs
    · rename_i hfree
      obtain rfl := Option.some.inj hs
      have hw := h.channel
      rw [hchannel] at hw
      have hw' : w = .channel x ∧ rest = [] := by
        cases w <;> simp [Place.channelItems] at hw ⊢
        exact ⟨hw.1.symm, hw.2⟩
      obtain ⟨rfl, rfl⟩ := hw'
      have hp : s.phase = .awaiting := h.phase
      have hnot := h.not_cancelled (by simp [hp])
      have hlast := h.last hfree.1
      rw [hfree.2] at hlast
      exact ⟨x, { h with
        channel := rfl
        acking := rfl
        last := fun _ => by simpa using hlast
        active := fun _ => hfree.1
        cancelled := by simp [hnot] }⟩
    · cases hs
  · cases hs

theorem At.ack (hid : e.id.messageNumber < 2 ^ 27) (h : At e s w) {delivered : Bool}
    (hs : step e s (.ack delivered) = some t) :
    ∃ x, At e t (if delivered then .back else .lost x) := by
  simp only [step] at hs
  split at hs
  · rename_i x hacking
    have hw := h.acking
    rw [hacking] at hw
    have hw' : w = .acking x := by
      cases w <;> simp [Place.ackingItem] at hw ⊢
      exact hw.symm
    subst hw'
    have hp : s.phase = .awaiting := h.phase
    have hnot := h.not_cancelled (by simp [hp])
    have hactive : s.ended = false := h.active (by simp [hacking])
    have hlast := h.last hactive
    rw [hacking] at hlast
    have hsent : s.sent = s.received.length + 1 := h.sent
    have hlast' : s.lastReceivedSequenceId = s.sent := by simpa [hsent] using hlast
    refine ⟨x, ?_⟩
    split at hs
    · rename_i hd
      obtain rfl := Option.some.inj hs
      have hitem := h.item x rfl
      rw [if_pos hd]
      refine { h with
        received := ?_
        sent := by simp [hsent, Place.item]
        item := by simp [Place.item]
        acking := rfl
        back := ?_
        last := fun _ => by simp [hlast', hsent]
        active := by simp
        cancelled := by simp [hnot] }
      · have htake := h.received
        rw [List.length_append, List.length_singleton, List.take_add_one, hitem, ← htake]
        rfl
      · rw [List.filter_append, h.back, hlast']
        simp [Place.backPackets, own_acknowledge hid]
    · rename_i hd
      obtain rfl := Option.some.inj hs
      rw [if_neg hd]
      exact { h with
        phase := .inl hp
        acking := rfl
        last := by simp
        active := by simp
        cancelled := by simp [hnot] }
  · cases hs

theorem At.unregister (h : At e s w) (hs : step e s .unregister = some t) : At e t w := by
  simp only [step] at hs
  split at hs
  · rename_i hc
    obtain ⟨x, rfl⟩ := (h.cancelled hc.1).2
    obtain rfl := Option.some.inj hs
    cases x with
    | none => exact { h with inbox := rfl }
    | some x => exact { h with inbox := rfl }
  · cases hs

theorem At.cancelNext (h : At e s w) (hs : step e s .cancelNext = some t) : At e t w := by
  simp only [step] at hs
  split at hs
  · rename_i hfree
    obtain rfl := Option.some.inj hs
    exact { h with
      last := by simp
      active := fun hne => absurd hfree.2.2 hne }
  · cases hs

theorem At.abandon (h : At e s w) (hs : step e s .abandon = some t) : At e t w := by
  simp only [step] at hs
  split at hs
  · rename_i hfree
    obtain rfl := Option.some.inj hs
    exact { h with
      last := by simp
      active := fun hne => absurd hfree.2 hne }
  · cases hs

end Receiver

theorem At.foreign (h : At e s w) {back : Bool} (hs : step e s (.foreign back m) = some t) :
    At e t w := by
  simp only [step] at hs
  split at hs
  · rename_i hm
    have hown : own e m = false := by simp [own, hm]
    have hfilter : ∀ l : List StreamMessage, (l ++ [m]).filter (own e) = l.filter (own e) := by
      intro l
      rw [List.filter_append, List.filter_cons_of_neg (by simp [hown]), List.filter_nil,
        List.append_nil]
    split at hs
    · obtain rfl := Option.some.inj hs
      exact { h with back := (hfilter _).trans h.back }
    · obtain rfl := Option.some.inj hs
      exact { h with forward := (hfilter _).trans h.forward }
  · cases hs

/-- Every step moves the packet of the stream from one place to another. It is lost only where a
send fails, where the listener is not there yet, or where the receiving half is shut. -/
theorem At.step (hid : e.id.messageNumber < 2 ^ 27) (h : At e s w) {a : Act}
    (hs : step e s a = some t) :
    ∃ w', At e t w' ∧ (w'.isLost = true → w.isLost = true ∨ ¬ Faultless a ∨ ¬ InTime e s a ∨
      Shut s) := by
  cases a with
  | pull =>
    obtain ⟨x, hx⟩ := h.pull hs
    exact ⟨_, hx, by simp [Place.isLost]⟩
  | endOfItems => exact ⟨_, h.endOfItems hs, by simp [Place.isLost]⟩
  | send result =>
    obtain ⟨x, hx⟩ := h.send hid hs
    refine ⟨_, hx, fun hlost => .inr (.inl ?_)⟩
    cases result <;> simp [Place.isLost, Faultless] at hlost ⊢
  | resume => exact ⟨_, h.resume hs, by simp [Place.isLost]⟩
  | sendClose delivered =>
    refine ⟨_, h.sendClose hid hs, fun hlost => ?_⟩
    cases delivered <;> simp [Place.isLost] at hlost
  | procedureError errorCode => exact ⟨_, h.procedureError hs, by simp [Place.isLost]⟩
  | sendError delivered =>
    obtain ⟨c, x, hx⟩ := h.sendError hid hs
    exact ⟨_, hx, fun _ => .inr (.inl id)⟩
  | acknowledged i =>
    obtain ⟨w', hw', hlost⟩ := h.acknowledged hid hs
    exact ⟨w', hw', fun hl => .inl (hlost hl)⟩
  | register =>
    simp only [Stream.step] at hs
    split at hs
    · obtain rfl := Option.some.inj hs
      exact ⟨w, { h with }, Or.inl⟩
    · cases hs
  | deliver i =>
    obtain ⟨w', hw', hlost⟩ := h.deliver hid hs
    exact ⟨w', hw', fun hl => (hlost hl).imp_right .inr⟩
  | process =>
    obtain ⟨w', hw', hlost⟩ := h.process hs
    exact ⟨w', hw', fun hl => (hlost hl).imp_right fun hshut => .inr (.inr hshut)⟩
  | next =>
    obtain ⟨x, hx⟩ := h.next hs
    exact ⟨_, hx, by simp [Place.isLost]⟩
  | ack delivered =>
    obtain ⟨x, hx⟩ := h.ack hid hs
    refine ⟨_, hx, fun hlost => .inr (.inl ?_)⟩
    cases delivered <;> simp [Place.isLost, Faultless] at hlost ⊢
  | cancelNext => exact ⟨w, h.cancelNext hs, Or.inl⟩
  | abandon => exact ⟨w, h.abandon hs, Or.inl⟩
  | unregister => exact ⟨w, h.unregister hs, Or.inl⟩
  | foreign back m => exact ⟨w, h.foreign hs, Or.inl⟩

theorem at_of_run (hid : e.id.messageNumber < 2 ^ 27) {acts : List Act}
    (hrun : Machine.run (step e) opened acts = some s) : ∃ w, At e s w :=
  Machine.run_invariant (step e) (P := fun s => ∃ w, At e s w)
    (fun _ _ _ hp hs => hp.elim fun _ h => (h.step hid hs).imp fun _ => And.left) acts opened s hrun
    ⟨.idle, at_opened⟩

/-! ### What every run satisfies -/

theorem At.received_prefix (h : At e s w) : s.received <+: e.items := by
  rw [h.received]
  exact List.take_prefix _ _

theorem At.received_of_done (h : At e s w) (hd : s.phase = .done false) : s.received = e.items := by
  have hnone : w.item = none := by
    have hw := h.phase
    rw [hd] at hw
    cases w <;> simp [Place.phases] at hw ⊢ <;> rfl
  have hlen : e.items.length = s.received.length := by
    rw [← h.complete (.inr hd), h.sent, hnone]
    rfl
  rw [h.received, ← hlen, List.take_length]

/-- In every run, whatever the order in which packets are handled and whichever sends fail: the
receiving half has the first items of the sending half, in order and each once; the sending half
is at most one item ahead; once it is through, every item has been received; and the receiving half
is told that nothing more comes only then, or where a send of the sending half or its procedure has
failed. -/
theorem delivers_in_order (hid : e.id.messageNumber < 2 ^ 27) {acts : List Act}
    (hrun : Machine.run (Stream.step e) opened acts = some s) :
    s.received <+: e.items ∧ s.received.length ≤ s.sent ∧ s.sent ≤ s.received.length + 1 ∧
      (∀ closedByPeer, s.phase = .done closedByPeer →
        closedByPeer = false ∧ s.received = e.items) ∧
      (s.cancelled = true → s.received = e.items ∨ s.phase = .failed) := by
  obtain ⟨w, h⟩ := at_of_run hid hrun
  have hitem : w.item.toList.length ≤ 1 := by
    cases w.item <;> simp
  have hsent := h.sent
  refine ⟨h.received_prefix, by omega, by omega, fun b hb => ?_, fun hc => ?_⟩
  · have hfalse : b = false := by
      have hw := h.phase
      rw [hb] at hw
      cases w <;> simp [Place.phases] at hw <;> exact hw
    rw [hfalse] at hb
    exact ⟨hfalse, h.received_of_done hb⟩
  · exact (h.cancelled hc).1.imp_left h.received_of_done

/-! ### Streams that come to a halt -/

/-- No packet of the stream is left to handle and neither half can go on. -/
def Quiet (e : Ends) (s : Stream) : Prop :=
  ∀ a, Faultless a → (∀ back m, a ≠ .foreign back m) → step e s a = none

/-- What is lost stays lost, and the sending half goes on waiting. -/
structure Halted (e : Ends) (s : Stream) : Prop where
  lost : ∃ x, At e s (.lost x)
  awaiting : s.phase = .awaiting

theorem Halted.step (hid : e.id.messageNumber < 2 ^ 27) (h : Halted e s) {a : Act}
    (hs : Stream.step e s a = some t) : Halted e t := by
  obtain ⟨⟨x, hat⟩, hp⟩ := h
  have hnot := hat.not_cancelled (by simp [hp])
  cases a with
  | pull => simp [Stream.step, hp] at hs
  | endOfItems => simp [Stream.step, hp] at hs
  | send result => simp [Stream.step, hp] at hs
  | resume =>
    have hone : s.oneshot = none := hat.oneshot
    simp [Stream.step, hp, hone] at hs
  | sendClose delivered => simp [Stream.step, hp] at hs
  | procedureError errorCode => simp [Stream.step, hp] at hs
  | sendError delivered => simp [Stream.step, hp] at hs
  | acknowledged i =>
    simp only [Stream.step] at hs
    obtain ⟨m, hm, rfl⟩ := Option.map_eq_some_iff.mp hs
    cases hown : own e m with
    | false =>
      refine ⟨⟨x, hat.acknowledged_foreign hid hm hown⟩, ?_⟩
      unfold Stream.acknowledged
      split <;> exact hp
    | true =>
      have hpackets := filter_eraseIdx_own hm hown hat.back (length_backPackets _)
      simp [Place.backPackets] at hpackets
  | register =>
    simp only [Stream.step] at hs
    split at hs
    · obtain rfl := Option.some.inj hs
      exact ⟨⟨x, { hat with }⟩, hp⟩
    · cases hs
  | deliver i =>
    simp only [Stream.step] at hs
    obtain ⟨m, hm, rfl⟩ := Option.map_eq_some_iff.mp hs
    cases hown : own e m with
    | false =>
      refine ⟨⟨x, hat.deliver_foreign hm hown⟩, ?_⟩
      rw [Stream.deliver, forListener_foreign hown]
      exact hp
    | true =>
      have hpackets := filter_eraseIdx_own hm hown hat.forward (length_forwardPackets _)
      simp [Place.forwardPackets] at hpackets
  | process =>
    have hinbox : s.inbox = [] := hat.inbox
    simp [Stream.step, hinbox] at hs
  | next =>
    have hchannel : s.channel = [] := hat.channel
    simp [Stream.step, hchannel] at hs
  | ack delivered =>
    have hacking : s.acking = none := hat.acking
    simp [Stream.step, hacking] at hs
  | cancelNext => simp [Stream.step, hnot] at hs
  | abandon =>
    refine ⟨⟨x, hat.abandon hs⟩, ?_⟩
    simp only [Stream.step] at hs
    split at hs
    · obtain rfl := Option.some.inj hs
      exact hp
    · cases hs
  | unregister => simp [Stream.step, hnot] at hs
  | foreign back m =>
    refine ⟨⟨x, hat.foreign hs⟩, ?_⟩
    simp only [Stream.step] at hs
    split_ifs at hs
    · obtain rfl := Option.some.inj hs
      exact hp
    · obtain rfl := Option.some.inj hs
      exact hp

/-- A packet with an item that is handled before the listener is there halts the stream. -/
theorem halted_of_late (hid : e.id.messageNumber < 2 ^ 27) (h : At e s w) {a : Act}
    (hs : step e s a = some t) (hlate : ¬ InTime e s a) : Halted e t := by
  cases a with
  | deliver i =>
    simp only [Stream.step] at hs
    obtain ⟨m, hm, rfl⟩ := Option.map_eq_some_iff.mp hs
    simp only [InTime, hm, Option.mem_some_iff, forall_eq', not_forall] at hlate
    obtain ⟨hmessage, hopen, habsent⟩ := hlate
    have hown : own e m = true := by
      cases hown : own e m with
      | true => rfl
      | false =>
        rw [forListener_foreign hown] at hmessage
        cases hmessage
    obtain ⟨hpackets, hrest⟩ := filter_eraseIdx_own hm hown h.forward (length_forwardPackets _)
    have hw : ∃ x, w = .forward x := by
      cases w with
      | forward x => exact ⟨x, rfl⟩
      | closing =>
        obtain rfl : _ = m := (List.cons.inj hpackets).1
        cases hopen
      | idle => simp [Place.forwardPackets] at hpackets
      | held => simp [Place.forwardPackets] at hpackets
      | inbox => simp [Place.forwardPackets] at hpackets
      | channel => simp [Place.forwardPackets] at hpackets
      | acking => simp [Place.forwardPackets] at hpackets
      | lost => simp [Place.forwardPackets] at hpackets
      | back => simp [Place.forwardPackets] at hpackets
      | oneshot => simp [Place.forwardPackets] at hpackets
      | closed => simp [Place.forwardPackets] at hpackets
      | told => simp [Place.forwardPackets] at hpackets
      | error =>
        obtain rfl : _ = m := (List.cons.inj hpackets).1
        rw [forListener_remoteError hid] at hmessage
        split at hmessage <;> cases hmessage
    obtain ⟨x, rfl⟩ := hw
    obtain rfl : _ = m := (List.cons.inj hpackets).1
    have hp : s.phase = .awaiting := h.phase
    have hnot := h.not_cancelled (by simp [hp])
    rw [Stream.deliver, forListener_item hid]
    dsimp only
    rw [if_neg fun hreg => habsent hreg.1]
    exact ⟨⟨x, { h with
      phase := .inl hp
      forward := hrest
      cancelled := by simp [hnot] }⟩, hp⟩
  | _ => exact absurd trivial hlate

theorem halted_run (hid : e.id.messageNumber < 2 ^ 27) {acts : List Act} (h : At e s w)
    (hrun : Machine.run (step e) s acts = some t)
    (hlate : ¬ Machine.Meets (step e) (InTime e) s acts) :
    Halted e t := by
  induction acts generalizing s w with
  | nil => exact absurd trivial hlate
  | cons a acts ih =>
    obtain ⟨u, hu, hrest⟩ := Option.bind_eq_some_iff.mp hrun
    rw [Machine.meets_cons_some _ hu, not_and_or] at hlate
    rcases hlate with hlate | hlate
    · exact Machine.run_invariant (step e) (P := Halted e) (fun _ _ _ hp hs => hp.step hid hs)
        acts u t hrest (halted_of_late hid h hu hlate)
    · obtain ⟨w', hw', -⟩ := h.step hid hu
      exact ih hw' hrest hlate

/-- A stream whose sends succeed and that nothing has shut. -/
structure Sound (s : Stream) : Prop where
  phase : s.phase ≠ .failed ∧ ∀ c, s.phase ≠ .reporting c
  ended : s.ended = true → s.cancelled = true
  inboxClosed : s.inboxClosed = true → s.cancelled = true

theorem Sound.not_shut (h : Sound s) : ¬ Shut s := by
  intro hshut
  have hcancelled : s.cancelled = true := hshut.2.elim h.ended h.inboxClosed
  rw [hshut.1] at hcancelled
  cases hcancelled

theorem Sound.pull (h : Sound s) (hs : Stream.step e s .pull = some t) : Sound t := by
  simp only [Stream.step] at hs
  split at hs
  · obtain rfl := Option.some.inj hs
    exact { h with phase := by simp }
  · cases hs

theorem Sound.endOfItems (h : Sound s) (hs : Stream.step e s .endOfItems = some t) : Sound t := by
  simp only [Stream.step] at hs
  split at hs
  · obtain rfl := Option.some.inj hs
    exact { h with phase := by simp }
  · cases hs

theorem Sound.send (h : Sound s) (hs : Stream.step e s (.send .delivered) = some t) : Sound t := by
  simp only [Stream.step] at hs
  split at hs
  · obtain rfl := Option.some.inj hs
    exact { h with phase := by simp }
  · cases hs

theorem Sound.resume (h : Sound s) (hs : Stream.step e s .resume = some t) : Sound t := by
  simp only [Stream.step] at hs
  split at hs
  · split_ifs at hs
    · obtain rfl := Option.some.inj hs
      exact { h with phase := by simp }
    · obtain rfl := Option.some.inj hs
      exact { h with phase := by simp }
    · obtain rfl := Option.some.inj hs
      exact { h with phase := by simp }
  · cases hs

theorem Sound.sendClose (h : Sound s) (hs : Stream.step e s (.sendClose true) = some t) :
    Sound t := by
  simp only [Stream.step] at hs
  split at hs
  · obtain rfl := Option.some.inj hs
    exact { h with phase := by simp }
  · cases hs

theorem Sound.acknowledged (h : Sound s) {i : ℕ} (hs : Stream.step e s (.acknowledged i) = some t) :
    Sound t := by
  simp only [Stream.step] at hs
  obtain ⟨m, -, rfl⟩ := Option.map_eq_some_iff.mp hs
  unfold Stream.acknowledged
  split
  · exact { h with }
  · exact { h with }

theorem Sound.register (h : Sound s) (hs : Stream.step e s .register = some t) : Sound t := by
  simp only [Stream.step] at hs
  split at hs
  · obtain rfl := Option.some.inj hs
    exact { h with }
  · cases hs

theorem Sound.deliver (h : Sound s) {i : ℕ} (hs : Stream.step e s (.deliver i) = some t) :
    Sound t := by
  simp only [Stream.step] at hs
  obtain ⟨m, -, rfl⟩ := Option.map_eq_some_iff.mp hs
  unfold Stream.deliver
  split
  · split
    · exact { h with }
    · exact { h with }
  · exact { h with }

theorem Sound.process (h : Sound s) (hs : Stream.step e s .process = some t) : Sound t := by
  simp only [Stream.step] at hs
  split at hs
  · obtain rfl := Option.some.inj hs
    unfold processMessage
    split_ifs
    · exact { h with ended := fun _ => rfl, inboxClosed := fun _ => rfl }
    · exact { h with }
    · exact { h with }
    · exact { h with ended := fun _ => rfl, inboxClosed := fun _ => rfl }
    · exact { h with }
  · cases hs

theorem Sound.next (h : Sound s) (hs : Stream.step e s .next = some t) : Sound t := by
  simp only [Stream.step] at hs
  split at hs
  · split at hs
    · obtain rfl := Option.some.inj hs
      exact { h with }
    · cases hs
  · cases hs

theorem Sound.ack (h : Sound s) (hs : Stream.step e s (.ack true) = some t) : Sound t := by
  simp only [Stream.step] at hs
  split at hs
  · obtain rfl := Option.some.inj hs
    exact { h with }
  · cases hs

theorem Sound.cancelNext (h : Sound s) (hs : Stream.step e s .cancelNext = some t) : Sound t := by
  simp only [Stream.step] at hs
  split at hs
  · rename_i hc
    obtain rfl := Option.some.inj hs
    exact { h with ended := fun _ => hc.1 }
  · cases hs

theorem Sound.unregister (h : Sound s) (hs : Stream.step e s .unregister = some t) : Sound t := by
  simp only [Stream.step] at hs
  split at hs
  · obtain rfl := Option.some.inj hs
    exact { h with }
  · cases hs

theorem Sound.foreign (h : Sound s) {back : Bool}
    (hs : Stream.step e s (.foreign back m) = some t) : Sound t := by
  simp only [Stream.step] at hs
  split_ifs at hs
  · obtain rfl := Option.some.inj hs
    exact { h with }
  · obtain rfl := Option.some.inj hs
    exact { h with }

theorem Sound.step (h : Sound s) {a : Act} (hfault : Faultless a) (hs : step e s a = some t) :
    Sound t := by
  cases a with
  | pull => exact h.pull hs
  | endOfItems => exact h.endOfItems hs
  | send result =>
    obtain rfl : result = .delivered := hfault
    exact h.send hs
  | resume => exact h.resume hs
  | sendClose delivered =>
    obtain rfl : delivered = true := hfault
    exact h.sendClose hs
  | procedureError => exact hfault.elim
  | abandon => exact hfault.elim
  | sendError => exact hfault.elim
  | acknowledged i => exact h.acknowledged hs
  | register => exact h.register hs
  | deliver i => exact h.deliver hs
  | process => exact h.process hs
  | next => exact h.next hs
  | ack delivered =>
    obtain rfl : delivered = true := hfault
    exact h.ack hs
  | cancelNext => exact h.cancelNext hs
  | unregister => exact h.unregister hs
  | foreign => exact h.foreign hs

/-- Nothing of the stream is lost. -/
def Kept (e : Ends) (s : Stream) : Prop := Sound s ∧ ∃ w, At e s w ∧ w.isLost = false

theorem kept_run (hid : e.id.messageNumber < 2 ^ 27) {acts : List Act}
    (hrun : Machine.run (step e) opened acts = some s) (hfault : ∀ a ∈ acts, Faultless a)
    (htime : Machine.Meets (step e) (InTime e) opened acts) : Kept e s := by
  induction acts using List.reverseRecOn generalizing s with
  | nil =>
    obtain rfl := Option.some.inj hrun
    exact ⟨⟨by simp [opened], by simp [opened], by simp [opened]⟩, .idle, at_opened, rfl⟩
  | append_singleton acts a ih =>
    rw [Machine.run_snoc] at hrun
    obtain ⟨u, hu, hs⟩ := Option.bind_eq_some_iff.mp hrun
    obtain ⟨hsound, w, hat, hkept⟩ := ih hu (fun b hb => hfault b (List.mem_append_left _ hb))
      (Machine.meets_append_left _ htime)
    have ha : Faultless a := hfault a (by simp)
    have hin : InTime e u a := Machine.meets_last _ htime hu
    obtain ⟨w', hw', hlost⟩ := hat.step hid hs
    refine ⟨hsound.step ha hs, w', hw', ?_⟩
    cases hl : w'.isLost with
    | false => rfl
    | true =>
      rcases hlost hl with h | h | h | h
      · rw [hkept] at h
        cases h
      · exact absurd ha h
      · exact absurd hin h
      · exact absurd h hsound.not_shut

theorem Kept.done_of_quiet (h : Kept e s) (hquiet : Quiet e s) :
    s.phase = .done false ∧ s.received = e.items := by
  obtain ⟨hsound, w, hat, hkept⟩ := h
  have hact : ∀ a t, (Faultless a ∧ ∀ back m, a ≠ .foreign back m) → step e s a ≠ some t := by
    intro a t ha hs
    rw [hquiet a ha.1 ha.2] at hs
    cases hs
  have hopen : s.phase ≠ .done false → s.ended = false := by
    intro hp
    cases hended : s.ended with
    | false => rfl
    | true =>
      exact ((hat.cancelled (hsound.ended hended)).1.elim hp hsound.phase.1).elim
  have hdeliver : ∀ m ∈ s.forward.filter (own e), False := by
    intro m hm
    obtain ⟨i, hi⟩ := List.mem_iff_getElem?.mp (List.mem_of_mem_filter hm)
    exact hact (.deliver i) _ (by simp [Faultless]) (by simp only [Stream.step, hi]; rfl)
  have hacknowledged : ∀ m ∈ s.back.filter (own e), False := by
    intro m hm
    obtain ⟨i, hi⟩ := List.mem_iff_getElem?.mp (List.mem_of_mem_filter hm)
    exact hact (.acknowledged i) _ (by simp [Faultless]) (by simp only [Stream.step, hi]; rfl)
  have hprocess : s.inbox = [] := by
    cases hinbox : s.inbox with
    | nil => rfl
    | cons p rest =>
      exact (hact .process _ (by simp [Faultless])
        (by simp only [Stream.step, hinbox]; rfl)).elim
  cases w with
  | idle =>
    rcases hat.phase with hp | hp | hp | hp | hp
    · cases hnext : e.items[s.sent]? with
      | some x =>
        exact (hact .pull _ (by simp [Faultless])
          (by simp only [Stream.step, hp, hnext]; rfl)).elim
      | none =>
        have hlen := List.getElem?_eq_none_iff.mp hnext
        have hbound := hat.bound
        have hend : s.sent = e.items.length := by omega
        exact (hact .endOfItems _ (by simp [Faultless])
          (by simp only [Stream.step, hp, hend]; rfl)).elim
    · exact (hact (.sendClose true) _ (by simp [Faultless])
        (by simp only [Stream.step, hp]; rfl)).elim
    · exact ⟨hp, hat.received_of_done hp⟩
    · obtain ⟨c, hp⟩ := hp
      exact absurd hp (hsound.phase.2 c)
    · exact absurd hp hsound.phase.1
  | held x =>
    have hp : s.phase = .sending x := hat.phase
    exact (hact (.send .delivered) _ (by simp [Faultless])
      (by simp only [Stream.step, hp]; rfl)).elim
  | forward x => exact (hdeliver _ (by rw [hat.forward]; exact List.mem_singleton_self _)).elim
  | inbox x =>
    rw [hat.inbox] at hprocess
    cases hprocess
  | channel x =>
    have hp : s.phase = .awaiting := hat.phase
    have hended := hopen (by simp [hp])
    have hacking : s.acking = none := hat.acking
    have hchannel : s.channel = [x] := hat.channel
    exact (hact .next _ (by simp [Faultless])
      (by simp only [Stream.step, hchannel, hended, hacking]; rfl)).elim
  | acking x =>
    have hacking : s.acking = some x := hat.acking
    exact (hact (.ack true) _ (by simp [Faultless]) (by simp only [Stream.step, hacking]; rfl)).elim
  | lost x => cases hkept
  | error c x => cases hkept
  | told c x => cases hkept
  | back => exact (hacknowledged _ (by rw [hat.back]; exact List.mem_singleton_self _)).elim
  | oneshot =>
    have hp : s.phase = .awaiting := hat.phase
    have hone : s.oneshot = some _ := hat.oneshot
    exact (hact .resume _ (by simp [Faultless]) (by simp only [Stream.step, hp, hone]; rfl)).elim
  | closing => exact (hdeliver _ (by rw [hat.forward]; exact List.mem_singleton_self _)).elim
  | closed =>
    rw [hat.inbox] at hprocess
    cases hprocess

/-- A run without a fault after which nothing is left to do has brought every item to the receiving
half, and the sending half is through, if and only if no packet with an item was handled before the
listener of the stream was registered. -/
theorem quiet_done_iff (hid : e.id.messageNumber < 2 ^ 27) {acts : List Act}
    (hrun : Machine.run (step e) opened acts = some s) (hfault : ∀ a ∈ acts, Faultless a)
    (hquiet : Quiet e s) :
    (s.phase = .done false ∧ s.received = e.items) ↔
      Machine.Meets (step e) (InTime e) opened acts := by
  constructor
  · intro hdone
    by_contra hlate
    have hhalted := halted_run hid at_opened hrun hlate
    rw [hhalted.awaiting] at hdone
    cases hdone.1
  · intro htime
    exact (kept_run hid hrun hfault htime).done_of_quiet hquiet

end Stream

end Catalyrst.Drpc

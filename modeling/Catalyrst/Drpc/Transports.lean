import Catalyrst.Drpc.StopAndWait

/-!
# The streams of a server

A server keeps the listeners of all its transports in one map, under the number of the stream
alone; a client has a map of its own. The clients choose the numbers, each counts from one. A
stream whose number no other stream has in its map goes on as if it were alone. Where another one
registers under its number, its packets go there, and nothing comes in any more.
-/

namespace Catalyrst.Drpc

open Catalyrst.Lib

/-- The streams of a server and of its clients, and the transport of each. -/
structure Transports (ι τ : Type) where
  ends : ι → Ends
  transport : ι → τ
  fits : ∀ i, (ends i).id.messageNumber < 2 ^ 27
  /-- A client counts its streams, whichever end sends. -/
  counted : ∀ i j, transport i = transport j →
    (ends i).id.messageNumber = (ends j).id.messageNumber → i = j
  /-- The server counts the ports of all its transports, and a client calls on its own. -/
  ports : ∀ i j, (ends i).id.portId = (ends j).id.portId → transport i = transport j

namespace Transports

structure State (ι τ : Type) where
  streams : ι → Stream
  /-- The map of the server, and one for the client of each transport. -/
  listeners : Option τ × ℕ → Option ι

section Step

variable {ι τ : Type} [DecidableEq ι] [DecidableEq τ] (σ : Transports ι τ) (v : State ι τ) (i : ι)

def map : Option τ := if (σ.ends i).toClient then some (σ.transport i) else none

def slot : Option τ × ℕ := (σ.map i, (σ.ends i).id.messageNumber)

def opened : State ι τ := ⟨fun _ => Stream.opened, fun _ => none⟩

def State.set (s : Stream) : State ι τ := { v with streams := Function.update v.streams i s }

/-- The stream whose listener takes a packet of a transport. -/
def addressee (m : StreamMessage) : Option (RpcMessageTypes × ι) :=
  match parseHeader m.messageIdentifier with
  | some (t, n) =>
    if (σ.ends i).toClient ∨ t = .streamMessage then
      (v.listeners (σ.map i, n)).map fun j => (t, j)
    else none
  | none => none

def State.push (t : RpcMessageTypes) (m : StreamMessage) : State ι τ :=
  if (v.streams i).inboxClosed = false then
    v.set i { v.streams i with inbox := (v.streams i).inbox ++ [(t, m)] }
  else v

def hand (m : StreamMessage) : State ι τ :=
  match σ.addressee v i m with
  | some (t, j) => v.push j t m
  | none => v

def step : State ι τ → ι × Stream.Act → Option (State ι τ)
  | v, (i, .register) =>
    if (v.streams i).listener = .absent then
      some { v.set i { v.streams i with listener := .present } with
        listeners := Function.update v.listeners (σ.slot i) (some i) }
    else none
  | v, (i, .deliver k) =>
    ((v.streams i).forward[k]?).map fun m =>
      σ.hand (v.set i { v.streams i with forward := (v.streams i).forward.eraseIdx k }) i m
  -- `process_messages` also ends when another stream has taken the place of its listener, and
  -- whatever listener is under the number goes
  | v, (i, .unregister) =>
    if (v.streams i).listener = .present ∧
        ((v.streams i).cancelled ∨ v.listeners (σ.slot i) ≠ some i ∧ (v.streams i).inbox = []) then
      some { v.set i { v.streams i with listener := .removed, inbox := [] } with
        listeners := Function.update v.listeners (σ.slot i) none }
    else none
  | _, (_, .foreign _ _) => none
  | v, (i, a) => (Stream.step (σ.ends i) (v.streams i) a).map (v.set i)

end Step

/-! ### Steps of one stream -/

section Local

variable {e : Ends} {s t : Stream} {a : Stream.Act}

/-- What concerns neither the maps nor the packets of others. -/
def Local : Stream.Act → Prop
  | .register | .unregister | .deliver _ | .foreign _ _ => False
  | _ => True

/-- What such a step keeps, and what it may add. -/
structure Moved (e : Ends) (s t : Stream) : Prop where
  listener : t.listener = s.listener
  inbox : t.inbox <:+ s.inbox
  forward : ∀ m ∈ t.forward, m ∈ s.forward ∨ Stream.own e m = true
  back : ∀ m ∈ t.back, m ∈ s.back ∨ ∃ n, m = e.id.acknowledge n
  waiting : ∀ k ∈ t.ackListener, k ∈ s.ackListener ∨ ∃ n x, k = ackKey (e.id.item n x)

theorem Moved.of_eq (hlistener : t.listener = s.listener) (hinbox : t.inbox <:+ s.inbox)
    (hforward : t.forward = s.forward) (hback : t.back = s.back)
    (hwaiting : t.ackListener = s.ackListener) : Moved e s t where
  listener := hlistener
  inbox := hinbox
  forward _ hm := .inl (hforward ▸ hm)
  back _ hm := .inl (hback ▸ hm)
  waiting _ hk := .inl (hwaiting ▸ hk)

/-- A packet is sent. -/
theorem Moved.of_send {m : StreamMessage} (hm : Stream.own e m = true)
    (hlistener : t.listener = s.listener) (hinbox : t.inbox = s.inbox)
    (hforward : t.forward = s.forward ++ [m]) (hback : t.back = s.back)
    (hwaiting : t.ackListener = s.ackListener) : Moved e s t where
  listener := hlistener
  inbox := hinbox ▸ List.suffix_rfl
  forward m' hm' := by
    rw [hforward] at hm'
    rcases List.mem_append.mp hm' with hold | hnew
    · exact .inl hold
    · rw [List.mem_singleton.mp hnew]
      exact .inr hm
  back _ hm' := .inl (hback ▸ hm')
  waiting _ hk := .inl (hwaiting ▸ hk)

theorem moved (hid : e.id.messageNumber < 2 ^ 27) (hs : Stream.step e s a = some t)
    (ha : Local a) : Moved e s t := by
  cases a with
  | register => exact ha.elim
  | unregister => exact ha.elim
  | deliver => exact ha.elim
  | foreign => exact ha.elim
  | pull =>
    simp only [Stream.step] at hs
    split at hs
    · obtain rfl := Option.some.inj hs
      exact ⟨rfl, List.suffix_rfl, fun _ => .inl, fun _ => .inl,
        fun k hk => .inr ⟨_, _, (Option.some.inj hk).symm⟩⟩
    · cases hs
  | send result =>
    simp only [Stream.step] at hs
    split at hs
    · split at hs
      · obtain rfl := Option.some.inj hs
        exact .of_send (Stream.own_item hid) rfl rfl rfl rfl rfl
      all_goals
        obtain rfl := Option.some.inj hs
        exact ⟨rfl, List.suffix_rfl, fun _ => .inl, fun _ => .inl, by simp⟩
    · cases hs
  | sendClose delivered =>
    simp only [Stream.step] at hs
    split_ifs at hs
    · obtain rfl := Option.some.inj hs
      exact .of_send (Stream.own_close hid) rfl rfl rfl rfl rfl
    · obtain rfl := Option.some.inj hs
      exact .of_eq rfl List.suffix_rfl rfl rfl rfl
  | sendError delivered =>
    simp only [Stream.step] at hs
    split at hs
    · split_ifs at hs
      · obtain rfl := Option.some.inj hs
        exact .of_send (Stream.own_remoteError hid _) rfl rfl rfl rfl rfl
      · obtain rfl := Option.some.inj hs
        exact .of_eq rfl List.suffix_rfl rfl rfl rfl
    · cases hs
  | acknowledged i =>
    simp only [Stream.step] at hs
    obtain ⟨m, -, rfl⟩ := Option.map_eq_some_iff.mp hs
    have hback : ∀ m ∈ s.back.eraseIdx i, m ∈ s.back ∨ ∃ n, m = e.id.acknowledge n := fun m hm =>
      .inl (List.mem_of_mem_eraseIdx hm)
    unfold Stream.acknowledged
    split
    · exact ⟨rfl, List.suffix_rfl, fun _ => .inl, hback, by simp⟩
    · exact ⟨rfl, List.suffix_rfl, fun _ => .inl, hback, fun _ => .inl⟩
  | process =>
    simp only [Stream.step] at hs
    split at hs
    · rename_i hinbox
      obtain rfl := Option.some.inj hs
      unfold Stream.processMessage
      split_ifs <;> exact .of_eq rfl (hinbox ▸ List.suffix_cons _ _) rfl rfl rfl
    · cases hs
  | ack delivered =>
    simp only [Stream.step] at hs
    split at hs
    · split_ifs at hs
      · obtain rfl := Option.some.inj hs
        refine ⟨rfl, List.suffix_rfl, fun _ => .inl, fun m hm => ?_, fun _ => .inl⟩
        rcases List.mem_append.mp hm with hold | hnew
        · exact .inl hold
        · exact .inr ⟨_, List.mem_singleton.mp hnew⟩
      · obtain rfl := Option.some.inj hs
        exact .of_eq rfl List.suffix_rfl rfl rfl rfl
    · cases hs
  | _ =>
    simp only [Stream.step] at hs
    repeat' split at hs
    all_goals cases hs <;> exact .of_eq rfl List.suffix_rfl rfl rfl rfl

end Local

section State

variable {ι τ : Type} [DecidableEq ι] {v : State ι τ} {i j : ι}

@[simp] theorem State.set_self (s : Stream) : (v.set i s).streams i = s := if_pos rfl

theorem State.set_other (s : Stream) (h : j ≠ i) : (v.set i s).streams j = v.streams j := by
  unfold State.set
  exact Function.update_of_ne h _ _

/-- What a new state of one stream keeps is kept of all. -/
theorem State.set_keeps {α : Type} (f : Stream → α) {s : Stream} (hs : f s = f (v.streams i))
    (j : ι) : f ((v.set i s).streams j) = f (v.streams j) := by
  by_cases h : j = i
  · subst h
    rw [State.set_self, hs]
  · rw [State.set_other s h]

theorem State.push_listeners (t : RpcMessageTypes) (m : StreamMessage) :
    (v.push j t m).listeners = v.listeners := by
  unfold State.push
  split <;> rfl

theorem State.push_other (t : RpcMessageTypes) (m : StreamMessage) (h : i ≠ j) :
    (v.push j t m).streams i = v.streams i := by
  unfold State.push
  split
  · exact State.set_other _ h
  · rfl

theorem State.push_keeps {α : Type} (f : Stream → α)
    (hf : ∀ s inbox, f { s with inbox := inbox } = f s) (t : RpcMessageTypes) (m : StreamMessage)
    (i : ι) : f ((v.push j t m).streams i) = f (v.streams i) := by
  unfold State.push
  split
  · exact State.set_keeps f (hf _ _) i
  · rfl

variable {σ : Transports ι τ} {m : StreamMessage}

theorem hand_listeners : (σ.hand v j m).listeners = v.listeners := by
  unfold hand
  split
  · exact State.push_listeners _ _
  · rfl

theorem hand_keeps {α : Type} (f : Stream → α) (hf : ∀ s inbox, f { s with inbox := inbox } = f s)
    (i : ι) : f ((σ.hand v j m).streams i) = f (v.streams i) := by
  unfold hand
  split
  · exact State.push_keeps f hf _ _ i
  · rfl

end State

/-! ### A stream whose number is its own -/

section Alone

variable {ι τ : Type} {σ : Transports ι τ} {i : ι}

/-- No other stream has the number of the stream in its map. -/
def Alone (σ : Transports ι τ) (i : ι) : Prop := ∀ j, j ≠ i → σ.slot j ≠ σ.slot i

/-- A listener is found in the slot of its stream. -/
def Slotted (σ : Transports ι τ) (v : State ι τ) : Prop :=
  ∀ p j, v.listeners p = some j → σ.slot j = p

/-- The entries of the maps, as a stream that is alone finds them. -/
structure Apart (σ : Transports ι τ) (i : ι) (v : State ι τ) : Prop where
  mine : v.listeners (σ.slot i) = if (v.streams i).listener = .present then some i else none
  slots : Slotted σ v
  own : ∀ j, ∀ m ∈ (v.streams j).forward, Stream.own (σ.ends j) m = true

theorem apart_opened : Apart σ i opened where
  mine := rfl
  slots _ _ h := nomatch h
  own _ _ h := nomatch h

/-- A packet of a stream goes to whatever listener is in the slot of the stream. -/
theorem addressee_own {v : State ι τ} {m : StreamMessage}
    (hm : Stream.own (σ.ends i) m = true) :
    σ.addressee v i m = (Stream.forListener (σ.ends i) m).bind fun t =>
      (v.listeners (σ.slot i)).map fun j => (t, j) := by
  have hnumber : (parseMessageIdentifier m.messageIdentifier).2 = (σ.ends i).id.messageNumber := by
    simpa [Stream.own, Stream.isForeign] using hm
  unfold addressee Stream.forListener parseHeader
  rw [hnumber]
  cases RpcMessageTypes.tryFrom (parseMessageIdentifier m.messageIdentifier).1 with
  | none => rfl
  | some t =>
    simp only [Option.map_some, true_and]
    split <;> rfl

variable [DecidableEq ι] {v u : State ι τ} {j : ι} {a : Stream.Act} {m : StreamMessage}

theorem hand_self (hv : Apart σ i v) {s : Stream} (hs : s.listener = (v.streams i).listener)
    (hm : Stream.own (σ.ends i) m = true) :
    (σ.hand (v.set i s) i m).streams i = Stream.deliver (σ.ends i) s m := by
  have hmine : (v.set i s).listeners (σ.slot i) = if s.listener = .present then some i else none := by
    rw [hs]
    exact hv.mine
  rw [hand, addressee_own hm, Stream.deliver, hmine]
  cases Stream.forListener (σ.ends i) m with
  | none => exact State.set_self s
  | some t =>
    by_cases hp : s.listener = .present
    · rw [if_pos hp]
      dsimp only [Option.bind_some, Option.map_some]
      rw [State.push, State.set_self]
      by_cases hc : s.inboxClosed = false
      · rw [if_pos hc, if_pos ⟨hp, hc⟩, State.set_self]
      · rw [if_neg hc, if_neg fun h => hc h.2, State.set_self]
    · rw [if_neg hp]
      dsimp only [Option.bind_some, Option.map_none]
      rw [if_neg fun h => hp h.1, State.set_self]

/-- A packet reaches no stream whose listener is in none of the slots. -/
theorem hand_other (h : ∀ p, v.listeners p = some i → p ≠ (σ.map j, (parseMessageIdentifier
    m.messageIdentifier).2)) : (σ.hand v j m).streams i = v.streams i := by
  unfold hand addressee parseHeader
  cases RpcMessageTypes.tryFrom (parseMessageIdentifier m.messageIdentifier).1 with
  | none => rfl
  | some t =>
    dsimp only [Option.map_some]
    by_cases ht : (σ.ends j).toClient = true ∨ t = .streamMessage
    · rw [if_pos ht]
      cases hslot : v.listeners (σ.map j, (parseMessageIdentifier m.messageIdentifier).2) with
      | none => rfl
      | some x =>
        refine State.push_other _ _ ?_
        rintro rfl
        exact h _ hslot rfl
    · rw [if_neg ht]

variable [DecidableEq τ]

/-- The stream takes the steps of a stream of one transport. -/
theorem step_self (hv : Apart σ i v) (ha : ∀ back m, a ≠ .foreign back m) :
    (σ.step v (i, a)).map (fun u => u.streams i) = Stream.step (σ.ends i) (v.streams i) a := by
  cases a with
  | foreign back m => exact absurd rfl (ha back m)
  | register =>
    simp only [step, Stream.step]
    split
    · exact congrArg some (State.set_self _)
    · rfl
  | deliver k =>
    simp only [step, Stream.step, Option.map_map]
    refine Option.map_congr fun m hm => ?_
    exact hand_self hv (s := { v.streams i with forward := (v.streams i).forward.eraseIdx k }) rfl
      (hv.own i m (List.mem_of_getElem? hm))
  | unregister =>
    simp only [step, Stream.step]
    have hmine := hv.mine
    by_cases hp : (v.streams i).listener = .present
    · rw [if_pos hp] at hmine
      simp only [hp, hmine, ne_eq, not_true_eq_false, false_and, or_false, and_true, true_and]
      split
      · exact congrArg some (State.set_self _)
      · rfl
    · rw [if_neg fun h => hp h.1, if_neg fun h => hp h.2]
      rfl
  | _ =>
    simp only [step]
    rw [Option.map_map]
    exact (Option.map_congr fun s _ => State.set_self s).trans (congrFun Option.map_id _)

/-- What a step can do. -/
theorem step_cases (hs : σ.step v (j, a) = some u) :
    (a = .register ∧ (v.streams j).listener = .absent ∧
      u = { v.set j { v.streams j with listener := .present } with
        listeners := Function.update v.listeners (σ.slot j) (some j) }) ∨
    (a = .unregister ∧ (v.streams j).listener = .present ∧
      u = { v.set j { v.streams j with listener := .removed, inbox := [] } with
        listeners := Function.update v.listeners (σ.slot j) none }) ∨
    (∃ k m, a = .deliver k ∧ (v.streams j).forward[k]? = some m ∧
      u = σ.hand (v.set j { v.streams j with
        forward := (v.streams j).forward.eraseIdx k }) j m) ∨
    (Local a ∧ ∃ s, Stream.step (σ.ends j) (v.streams j) a = some s ∧ u = v.set j s) := by
  cases a with
  | foreign => cases hs
  | register =>
    simp only [step] at hs
    split at hs
    · rename_i habsent
      exact .inl ⟨rfl, habsent, (Option.some.inj hs).symm⟩
    · cases hs
  | unregister =>
    simp only [step] at hs
    split at hs
    · rename_i hpresent
      exact .inr (.inl ⟨rfl, hpresent.1, (Option.some.inj hs).symm⟩)
    · cases hs
  | deliver k =>
    simp only [step] at hs
    obtain ⟨m, hm, rfl⟩ := Option.map_eq_some_iff.mp hs
    exact .inr (.inr (.inl ⟨k, m, rfl, hm, rfl⟩))
  | _ =>
    simp only [step] at hs
    obtain ⟨s, hstep, rfl⟩ := Option.map_eq_some_iff.mp hs
    exact .inr (.inr (.inr ⟨trivial, s, hstep, rfl⟩))

theorem step_other (halone : σ.Alone i) (hv : Apart σ i v) (hne : j ≠ i)
    (hs : σ.step v (j, a) = some u) : u.streams i = v.streams i := by
  rcases step_cases hs with ⟨-, -, rfl⟩ | ⟨-, -, rfl⟩ | ⟨k, m, -, hm, rfl⟩ | ⟨-, s, -, rfl⟩
  · exact State.set_other _ hne.symm
  · exact State.set_other _ hne.symm
  · have hnumber : (parseMessageIdentifier m.messageIdentifier).2 =
        (σ.ends j).id.messageNumber := by
      simpa [Stream.own, Stream.isForeign] using hv.own j m (List.mem_of_getElem? hm)
    refine (hand_other fun p hp heq => ?_).trans (State.set_other _ hne.symm)
    rw [hnumber] at heq
    exact halone j hne (heq.symm.trans (hv.slots p i hp).symm)
  · exact State.set_other _ hne.symm

/-! ### The entries of the maps -/

/-- What a step does to the maps. -/
theorem step_listeners (hs : σ.step v (j, a) = some u) :
    (a = .register ∧ (v.streams j).listener = .absent ∧
      u.listeners = Function.update v.listeners (σ.slot j) (some j)) ∨
    (a = .unregister ∧ (v.streams j).listener = .present ∧
      u.listeners = Function.update v.listeners (σ.slot j) none) ∨
    (a ≠ .register ∧ a ≠ .unregister ∧ u.listeners = v.listeners) := by
  rcases step_cases hs with ⟨ha, habsent, rfl⟩ | ⟨ha, hpresent, rfl⟩ | ⟨k, m, rfl, -, rfl⟩ |
    ⟨hlocal, s, -, rfl⟩
  · exact .inl ⟨ha, habsent, rfl⟩
  · exact .inr (.inl ⟨ha, hpresent, rfl⟩)
  · exact .inr (.inr ⟨by simp, by simp, hand_listeners⟩)
  · refine .inr (.inr ⟨?_, ?_, rfl⟩)
    · rintro rfl
      exact hlocal
    · rintro rfl
      exact hlocal

theorem Slotted.step (hv : Slotted σ v) (hs : σ.step v (j, a) = some u) : Slotted σ u := by
  intro p x hx
  rcases step_listeners hs with ⟨-, -, hu⟩ | ⟨-, -, hu⟩ | ⟨-, -, hu⟩
  · rw [hu, Function.update_apply] at hx
    split at hx
    · rename_i hp
      rw [hp, Option.some.inj hx]
    · exact hv p x hx
  · rw [hu, Function.update_apply] at hx
    split at hx
    · cases hx
    · exact hv p x hx
  · rw [hu] at hx
    exact hv p x hx

omit [DecidableEq τ] in
theorem own_set (hown : ∀ x, ∀ m ∈ (v.streams x).forward, Stream.own (σ.ends x) m = true)
    {s : Stream} (hs : ∀ m ∈ s.forward, Stream.own (σ.ends j) m = true) (x : ι) :
    ∀ m ∈ ((v.set j s).streams x).forward, Stream.own (σ.ends x) m = true := by
  by_cases hx : x = j
  · subst hx
    rw [State.set_self]
    exact hs
  · rw [State.set_other _ hx]
    exact hown x

theorem step_own (hown : ∀ x, ∀ m ∈ (v.streams x).forward, Stream.own (σ.ends x) m = true)
    (hs : σ.step v (j, a) = some u) (x : ι) :
    ∀ m ∈ (u.streams x).forward, Stream.own (σ.ends x) m = true := by
  rcases step_cases hs with ⟨-, -, rfl⟩ | ⟨-, -, rfl⟩ | ⟨k, m, -, -, rfl⟩ | ⟨hlocal, s, hstep, rfl⟩
  · exact own_set hown (s := { v.streams j with listener := .present }) (hown j) x
  · exact own_set hown (s := { v.streams j with listener := .removed, inbox := [] }) (hown j) x
  · rw [hand_keeps Stream.forward fun _ _ => rfl]
    exact own_set hown (fun m hm => hown j m (List.mem_of_mem_eraseIdx hm)) x
  · exact own_set hown (fun m hm => ((moved (σ.fits j) hstep hlocal).forward m hm).elim
      (hown j m) id) x

/-- A stream's own listener goes only by its own steps. -/
theorem listener_step (hs : σ.step v (i, a) = some u) :
    (a = .register ∧ (u.streams i).listener = .present) ∨
    (a = .unregister ∧ (u.streams i).listener = .removed) ∨
    (a ≠ .register ∧ a ≠ .unregister ∧ (u.streams i).listener = (v.streams i).listener) := by
  rcases step_cases hs with ⟨ha, -, rfl⟩ | ⟨ha, -, rfl⟩ | ⟨k, m, rfl, -, rfl⟩ |
    ⟨hlocal, s, hstep, rfl⟩
  · exact .inl ⟨ha, congrArg Stream.listener (State.set_self _)⟩
  · exact .inr (.inl ⟨ha, congrArg Stream.listener (State.set_self _)⟩)
  · refine .inr (.inr ⟨by simp, by simp, ?_⟩)
    rw [hand_keeps Stream.listener fun _ _ => rfl, State.set_self]
  · refine .inr (.inr ⟨?_, ?_, ?_⟩)
    · rintro rfl
      exact hlocal
    · rintro rfl
      exact hlocal
    · rw [State.set_self]
      exact (moved (σ.fits i) hstep hlocal).listener

theorem listener_other (hne : j ≠ i) (hs : σ.step v (j, a) = some u) :
    (u.streams i).listener = (v.streams i).listener := by
  rcases step_cases hs with ⟨-, -, rfl⟩ | ⟨-, -, rfl⟩ | ⟨k, m, -, -, rfl⟩ | ⟨-, s, -, rfl⟩
  · exact congrArg Stream.listener (State.set_other _ hne.symm)
  · exact congrArg Stream.listener (State.set_other _ hne.symm)
  · rw [hand_keeps Stream.listener fun _ _ => rfl, State.set_other _ hne.symm]
  · rw [State.set_other _ hne.symm]

theorem Apart.step (halone : σ.Alone i) (hv : Apart σ i v) (hs : σ.step v (j, a) = some u) :
    Apart σ i u where
  slots := hv.slots.step hs
  own := step_own hv.own hs
  mine := by
    by_cases hij : j = i
    · subst hij
      rcases step_listeners hs with ⟨rfl, -, hu⟩ | ⟨rfl, -, hu⟩ | ⟨hr, hn, hu⟩
      · rcases listener_step hs with ⟨-, hl⟩ | ⟨h, -⟩ | ⟨h, -, -⟩
        · rw [hu, Function.update_self, hl, if_pos rfl]
        · cases h
        · exact absurd rfl h
      · rcases listener_step hs with ⟨h, -⟩ | ⟨-, hl⟩ | ⟨-, h, -⟩
        · cases h
        · rw [hu, Function.update_self, hl, if_neg (by simp)]
        · exact absurd rfl h
      · rcases listener_step hs with ⟨h, -⟩ | ⟨h, -⟩ | ⟨-, -, hl⟩
        · exact absurd h hr
        · exact absurd h hn
        · rw [hu, hl, hv.mine]
    · rw [step_other halone hv hij hs]
      rcases step_listeners hs with ⟨-, -, hu⟩ | ⟨-, -, hu⟩ | ⟨-, -, hu⟩
      · rw [hu, Function.update_of_ne (halone j hij).symm, hv.mine]
      · rw [hu, Function.update_of_ne (halone j hij).symm, hv.mine]
      · rw [hu, hv.mine]

/-- The actions of a stream. -/
def part (i : ι) (a : ι × Stream.Act) : Option Stream.Act := if a.1 = i then some a.2 else none

theorem isPart (halone : σ.Alone i) :
    Machine.IsPart σ.step (Stream.step (σ.ends i)) (fun v => v.streams i) (part i) (Apart σ i) := by
  rintro v ⟨j, a⟩ u hv hs
  refine ⟨hv.step halone hs, fun b hb => ?_, fun hnone => ?_⟩
  · unfold part at hb
    split at hb
    · rename_i hij
      obtain rfl : j = i := hij
      obtain rfl : a = b := Option.some.inj hb
      have hforeign : ∀ back m, a ≠ .foreign back m := by
        rintro back m rfl
        cases hs
      rw [← step_self hv hforeign, hs]
      rfl
    · cases hb
  · unfold part at hnone
    split at hnone
    · cases hnone
    · rename_i hij
      exact step_other halone hv hij hs

/-! ### What every run satisfies -/

theorem project (halone : σ.Alone i) {acts : List (ι × Stream.Act)}
    (hrun : Machine.run σ.step opened acts = some v) :
    Apart σ i v ∧ Machine.run (Stream.step (σ.ends i)) Stream.opened (acts.filterMap (part i)) =
      some (v.streams i) :=
  Machine.run_part _ (isPart halone) apart_opened hrun

/-- In every run of a server and its clients, for every stream whose number no other one has in its
map, whatever the order in which packets are handled and whichever sends fail: the receiving half
has the first items of the sending half, in order and each once; the sending half is at most one
item ahead; once it is through, every item has been received; and the receiving half is told that
nothing more comes only then, or where a send of the sending half or its procedure has failed. -/
theorem items_in_order (halone : σ.Alone i) {acts : List (ι × Stream.Act)}
    (hrun : Machine.run σ.step opened acts = some v) :
    (v.streams i).received <+: (σ.ends i).items ∧
      (v.streams i).received.length ≤ (v.streams i).sent ∧
      (v.streams i).sent ≤ (v.streams i).received.length + 1 ∧
      (∀ closedByPeer, (v.streams i).phase = .done closedByPeer →
        closedByPeer = false ∧ (v.streams i).received = (σ.ends i).items) ∧
      ((v.streams i).cancelled = true →
        (v.streams i).received = (σ.ends i).items ∨ (v.streams i).phase = .failed) :=
  Stream.delivers_in_order (σ.fits i) (project halone hrun).2

end Alone

/-- Two clients of a server that call with numbers of their own. -/
def twoClients : Transports Bool Bool where
  ends
    | false => ⟨⟨7, 3⟩, [[1], [2]], false⟩
    | true => ⟨⟨9, 4⟩, [[3]], false⟩
  transport := id
  fits := by decide
  counted := by decide
  ports := by decide

def item (i : Bool) : List (Bool × Stream.Act) :=
  [.pull, .send .delivered, .deliver 0, .process, .next, .ack true, .acknowledged 0, .resume].map
    fun a => (i, a)

def closing (i : Bool) : List (Bool × Stream.Act) :=
  [.endOfItems, .sendClose true, .deliver 0, .process, .cancelNext].map fun a => (i, a)

def twoClientsRun : List (Bool × Stream.Act) :=
  [(false, .register), (true, .register)] ++ item false ++ item true ++ item false ++ closing false

theorem twoClients_alone (i : Bool) : twoClients.Alone i := by
  unfold Alone
  cases i <;> decide

theorem items_in_order_clients :
    ∃ v, Machine.run twoClients.step opened twoClientsRun = some v ∧
      (v.streams false).received = [[1], [2]] := by
  have hdone : (Machine.run twoClients.step opened twoClientsRun).map
      (fun v => (v.streams false).phase) = some (.done false) := by
    decide
  obtain ⟨v, hv, hphase⟩ := Option.map_eq_some_iff.mp hdone
  have horder := items_in_order (twoClients_alone false) hv
  exact ⟨v, hv, (horder.2.2.2.1 false hphase).2⟩

section Quiet

variable {ι τ : Type} [DecidableEq ι] [DecidableEq τ] {σ : Transports ι τ} {v u : State ι τ} {i : ι}

/-- A packet with an item of the stream is handled only when its listener is registered. -/
def InTime (σ : Transports ι τ) (i : ι) (v : State ι τ) (a : ι × Stream.Act) : Prop :=
  a.1 = i → Stream.InTime (σ.ends i) (v.streams i) a.2

omit [DecidableEq τ] in
theorem inTime_iff (v : State ι τ) (a : ι × Stream.Act) : InTime σ i v a ↔
    ∀ b, part i a = some b → Stream.InTime (σ.ends i) (v.streams i) b := by
  unfold InTime part
  by_cases hi : a.1 = i
  · rw [if_pos hi]
    refine ⟨fun h b hb => ?_, fun h _ => h _ rfl⟩
    rw [← Option.some.inj hb]
    exact h hi
  · rw [if_neg hi]
    refine ⟨fun _ b hb => ?_, fun _ h => absurd h hi⟩
    cases hb

theorem quiet_of_step (hv : Apart σ i v)
    (hquiet : ∀ a, Stream.Faultless a → σ.step v (i, a) = none) :
    Stream.Quiet (σ.ends i) (v.streams i) := by
  intro a hfault ha
  rw [← step_self hv ha, hquiet a hfault]
  rfl

/-- For every stream whose number no other one has in its map: a run in which all its sends succeed,
its procedure gives it and its consumer reads on, and after which none of its halves has anything
left to do, has brought every item to the receiving half, and the sending half is through, if and
only if no packet with an item of the stream was handled before its listener was registered. -/
theorem quiet_complete_iff (halone : σ.Alone i) {acts : List (ι × Stream.Act)}
    (hrun : Machine.run σ.step opened acts = some v)
    (hfault : ∀ a, (i, a) ∈ acts → Stream.Faultless a)
    (hquiet : ∀ a, Stream.Faultless a → σ.step v (i, a) = none) :
    ((v.streams i).phase = .done false ∧ (v.streams i).received = (σ.ends i).items) ↔
      Machine.Meets σ.step (InTime σ i) opened acts := by
  obtain ⟨hv, hpart⟩ := project halone hrun
  have hfault' : ∀ b ∈ acts.filterMap (part i), Stream.Faultless b := by
    intro b hb
    obtain ⟨⟨j, a⟩, hmem, ha⟩ := List.mem_filterMap.mp hb
    unfold part at ha
    split at ha
    · rename_i hij
      obtain rfl : j = i := hij
      obtain rfl : a = b := Option.some.inj ha
      exact hfault a hmem
    · cases ha
  have htime : InTime σ i = fun v a => ∀ b, part i a = some b →
      Stream.InTime (σ.ends i) (v.streams i) b :=
    funext fun v => funext fun a => propext (inTime_iff v a)
  rw [Stream.quiet_done_iff (σ.fits i) hpart hfault' (quiet_of_step hv hquiet), htime]
  exact (Machine.meets_part _ (isPart halone) apart_opened hrun).symm

end Quiet

/-- A packet that overtakes the registration of its listener. -/
def overtakenRun : List (Bool × Stream.Act) :=
  [.pull, .send .delivered, .deliver 0, .register].map fun a => (false, a)

def overtakenEnd : Stream where
  phase := .awaiting
  sent := 1
  ackListener := some (7, 3, 1)
  oneshot := none
  forward := []
  back := []
  listener := .present
  inbox := []
  inboxClosed := false
  channel := []
  lastReceivedSequenceId := 0
  acking := none
  cancelled := false
  ended := false
  received := []

theorem overtaken_quiet (a : Stream.Act) (hfault : Stream.Faultless a)
    (ha : ∀ back m, a ≠ .foreign back m) :
    Stream.step (twoClients.ends false) overtakenEnd a = none := by
  cases a with
  | foreign back m => exact absurd rfl (ha back m)
  | abandon => exact hfault.elim
  | _ => rfl

theorem quiet_complete_iff_overtaken :
    ¬ Machine.Meets twoClients.step (InTime twoClients false) opened overtakenRun := by
  have hend : (Machine.run twoClients.step opened overtakenRun).map (fun v => v.streams false) =
      some overtakenEnd := by
    decide
  obtain ⟨v, hv, hstream⟩ := Option.map_eq_some_iff.mp hend
  have hapart := (project (twoClients_alone false) hv).1
  have hquiet : ∀ a, Stream.Faultless a → twoClients.step v (false, a) = none := by
    intro a hfault
    by_cases hforeign : ∀ back m, a ≠ .foreign back m
    · have hstep := step_self hapart hforeign
      rw [hstream, overtaken_quiet a hfault hforeign] at hstep
      exact Option.map_eq_none_iff.mp hstep
    · push Not at hforeign
      obtain ⟨back, m, rfl⟩ := hforeign
      rfl
  intro htime
  have hdone := (quiet_complete_iff (twoClients_alone false) hv
    (by simp [overtakenRun, Stream.Faultless]) hquiet).mpr htime
  rw [hstream] at hdone
  cases hdone.1

/-! ### Acknowledgements

The acknowledgements of all transports go through one map of the server too, under port, number
and sequence; a client looks for a listener of the number before it asks its own map.
-/

section Acknowledgements

variable {e : Ends} {s t : Stream}

/-- A stream waits for acknowledgements of its own, and what it acknowledges is its own. -/
structure Keyed (e : Ends) (s : Stream) : Prop where
  waiting : ∀ k ∈ s.ackListener, ∃ n x, k = ackKey (e.id.item n x)
  back : ∀ m ∈ s.back, ∃ n, m = e.id.acknowledge n

theorem keyed_opened : Keyed e Stream.opened where
  waiting _ h := nomatch h
  back _ h := nomatch h

theorem Keyed.moved (h : Keyed e s) (hmoved : Moved e s t) : Keyed e t where
  waiting k hk := (hmoved.waiting k hk).elim (h.waiting k) id
  back m hm := (hmoved.back m hm).elim (h.back m) id

variable {ι τ : Type} {σ : Transports ι τ} {i j : ι} {m : StreamMessage}

/-- Only the stream itself waits under the key of its acknowledgement. -/
theorem ackKey_injective {n k : ℕ} {x : Bytes}
    (h : ackKey ((σ.ends i).id.item n x) = ackKey ((σ.ends j).id.acknowledge k)) : i = j := by
  rw [Stream.ackKey_item, Stream.ackKey_acknowledge, Nat.mod_eq_of_lt (σ.fits i),
    Nat.mod_eq_of_lt (σ.fits j), Prod.mk.injEq, Prod.mk.injEq] at h
  exact σ.counted i j (σ.ports i j h.1) h.2.1

variable [DecidableEq ι] [DecidableEq τ] {v u : State ι τ} {b : ι × Stream.Act}

theorem keyed_step (hv : ∀ x, Keyed (σ.ends x) (v.streams x)) (hs : σ.step v b = some u) (x : ι) :
    Keyed (σ.ends x) (u.streams x) := by
  obtain ⟨j, a⟩ := b
  have hset : ∀ s, Keyed (σ.ends j) s → Keyed (σ.ends x) ((v.set j s).streams x) := by
    intro s hkeyed
    by_cases hx : x = j
    · subst hx
      rw [State.set_self]
      exact hkeyed
    · rw [State.set_other _ hx]
      exact hv x
  rcases step_cases hs with ⟨-, -, rfl⟩ | ⟨-, -, rfl⟩ | ⟨k, m, -, -, rfl⟩ | ⟨hlocal, s, hstep, rfl⟩
  · exact hset { v.streams j with listener := .present } ⟨(hv j).waiting, (hv j).back⟩
  · exact hset { v.streams j with listener := .removed, inbox := [] }
      ⟨(hv j).waiting, (hv j).back⟩
  · have hkeyed := hset { v.streams j with forward := (v.streams j).forward.eraseIdx k }
      ⟨(hv j).waiting, (hv j).back⟩
    refine ⟨?_, ?_⟩
    · rw [hand_keeps Stream.ackListener fun _ _ => rfl]
      exact hkeyed.waiting
    · rw [hand_keeps Stream.back fun _ _ => rfl]
      exact hkeyed.back
  · exact hset s ((hv j).moved (moved (σ.fits j) hstep hlocal))

/-- Where acknowledgements share a map they still find their stream: in every run no other stream
waits under the key of an acknowledgement on the way, and no listener of a client takes it. -/
theorem acknowledgement_found {acts : List (ι × Stream.Act)}
    (hrun : Machine.run σ.step opened acts = some v) (hm : m ∈ (v.streams i).back) :
    (∀ j, (v.streams j).ackListener = some (ackKey m) → j = i) ∧
      ((σ.ends i).toClient = false →
        v.listeners (some (σ.transport i), (parseMessageIdentifier m.messageIdentifier).2) =
          none) := by
  obtain ⟨hslots, hkeyed⟩ := Machine.run_invariant σ.step
    (P := fun w => Slotted σ w ∧ ∀ x, Keyed (σ.ends x) (w.streams x))
    (fun _ _ _ hw hs => ⟨hw.1.step hs, keyed_step hw.2 hs⟩) acts opened v hrun
    ⟨fun _ _ h => (nomatch h), fun _ => keyed_opened⟩
  obtain ⟨n, rfl⟩ := (hkeyed i).back m hm
  refine ⟨fun j hj => ?_, fun hserver => ?_⟩
  · obtain ⟨k, x, hk⟩ := (hkeyed j).waiting _ hj
    exact ackKey_injective hk.symm
  · have hnumber : (parseMessageIdentifier ((σ.ends i).id.acknowledge n).messageIdentifier).2 =
        (σ.ends i).id.messageNumber := by
      rw [StreamId.acknowledge, parse_build, Nat.mod_eq_of_lt (σ.fits i)]
    rw [hnumber]
    by_contra htaken
    obtain ⟨j, hj⟩ := Option.ne_none_iff_exists'.mp htaken
    have hslot := hslots _ j hj
    unfold slot map at hslot
    by_cases hclient : (σ.ends j).toClient = true
    · rw [if_pos hclient, Prod.mk.injEq, Option.some.injEq] at hslot
      rw [σ.counted j i hslot.1 hslot.2, hserver] at hclient
      cases hclient
    · rw [if_neg hclient] at hslot
      cases congrArg Prod.fst hslot

end Acknowledgements

/-! ### Two streams of one number -/

section Displaced

variable {ι τ : Type} [DecidableEq ι] [DecidableEq τ] {σ : Transports ι τ} {v u : State ι τ}
  {i j : ι} {a : Stream.Act}

/-- A listener was registered, and is not found under the number of its stream any more. -/
structure Displaced (σ : Transports ι τ) (i : ι) (v : State ι τ) : Prop where
  slots : Slotted σ v
  registered : (v.streams i).listener ≠ .absent
  gone : v.listeners (σ.slot i) ≠ some i

theorem displaced_inbox (h : Displaced σ i v) (hs : σ.step v (j, a) = some u) :
    (u.streams i).inbox <:+ (v.streams i).inbox := by
  have hset : ∀ s : Stream, s.inbox <:+ (v.streams j).inbox →
      ((v.set j s).streams i).inbox <:+ (v.streams i).inbox := by
    intro s hinbox
    by_cases hi : i = j
    · subst hi
      rw [State.set_self]
      exact hinbox
    · rw [State.set_other _ hi]
  rcases step_cases hs with ⟨-, -, rfl⟩ | ⟨-, -, rfl⟩ | ⟨k, m, -, -, rfl⟩ | ⟨hlocal, s, hstep, rfl⟩
  · exact hset { v.streams j with listener := .present } List.suffix_rfl
  · exact hset { v.streams j with listener := .removed, inbox := [] } (List.nil_suffix)
  · rw [hand_other]
    · exact hset _ List.suffix_rfl
    · rintro p hp rfl
      exact h.gone (h.slots _ i hp ▸ hp)
  · exact hset s (moved (σ.fits j) hstep hlocal).inbox

theorem Displaced.step (h : Displaced σ i v) (hs : σ.step v (j, a) = some u) : Displaced σ i u where
  slots := h.slots.step hs
  registered := by
    by_cases hij : j = i
    · subst hij
      rcases listener_step hs with ⟨-, hl⟩ | ⟨-, hl⟩ | ⟨-, -, hl⟩
      · simp [hl]
      · simp [hl]
      · rw [hl]
        exact h.registered
    · rw [listener_other hij hs]
      exact h.registered
  gone := by
    rcases step_listeners hs with ⟨-, habsent, hu⟩ | ⟨-, -, hu⟩ | ⟨-, -, hu⟩
    · rw [hu, Function.update_apply]
      split
      · intro heq
        obtain rfl := Option.some.inj heq
        exact h.registered habsent
      · exact h.gone
    · rw [hu, Function.update_apply]
      split
      · simp
      · exact h.gone
    · rw [hu]
      exact h.gone

/-- Nothing comes in any more once another stream has registered under the number. -/
theorem nothing_comes_in (h : Displaced σ i v) {acts : List (ι × Stream.Act)}
    (hrun : Machine.run σ.step v acts = some u) : (u.streams i).inbox <:+ (v.streams i).inbox :=
  (Machine.run_invariant σ.step
    (P := fun w => Displaced σ i w ∧ (w.streams i).inbox <:+ (v.streams i).inbox)
    (fun _ _ _ hw hs => ⟨hw.1.step hs, (displaced_inbox hw.1 hs).trans hw.2⟩) acts v u hrun
    ⟨h, List.suffix_rfl⟩).2

/-- Two clients that both call with the number three, as each of them counts from one. -/
def oneNumber : Transports Bool Bool where
  ends
    | false => ⟨⟨7, 3⟩, [[1]], false⟩
    | true => ⟨⟨9, 3⟩, [[2]], false⟩
  transport := id
  fits := by decide
  counted := by decide
  ports := by decide

/-- The item of the first client comes out of the stream of the second. -/
example : (Machine.run oneNumber.step opened
      [(false, .register), (false, .pull), (false, .send .delivered), (true, .register),
        (false, .deliver 0), (true, .process), (true, .next), (true, .ack true)]).map
      (fun v => (v.streams true).received) = some [[1]] := by
  decide

end Displaced

end Transports

end Catalyrst.Drpc

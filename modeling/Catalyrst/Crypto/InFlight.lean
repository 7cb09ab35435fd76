import Catalyrst.Lib.Machine
import Catalyrst.Crypto.ValidationCache

/-!
# Who waits on the validation cache

A call that waits must be owed a notification. The look-up of a `Notify` and the start of the
wait are separate steps, and a dropped call notifies nobody, so this holds only in runs where
neither gets in the way; a step that breaks the rule can always be followed by one that
strands a call. What the cache serves, on the other hand, was always confirmed.
-/

namespace Catalyrst.Crypto
open Catalyrst.Lib

/-! ### Nobody waits in vain -/

/-- The `Notify` of another call that a call holds. -/
def Phase.owner : Phase → Option ℕ
  | .found owner | .waiting owner => some owner
  | _ => none

/-- Registered, and still to notify. -/
def Phase.isRegistered : Phase → Bool
  | .calling | .insert _ | .deregister _ | .notify _ => true
  | _ => false

/-- The phases in which an entry of the map may point at the call. -/
def Phase.mayBeListed : Phase → Bool
  | .calling | .insert _ | .deregister _ | .dropped => true
  | _ => false

def Phase.notifies : Phase → Bool
  | .notify _ => true
  | _ => false

/-- The answer a call is about to return, or has returned. -/
def Phase.answer : Phase → Option Answer
  | .insert result | .deregister result | .notify result | .returned result => some result
  | _ => none

namespace ValidationCache

/-- A call waits on a `Notify` whose registering call has notified or was dropped. -/
def Stranded (s : ValidationCache) : Prop :=
  ∃ c ∈ s.calls, ∃ owner d, c.phase = .waiting owner ∧ s.calls[owner]? = some d ∧
    (d.phase = .dropped ∨ ∃ result, d.phase = .returned result)

/-- No `Notify` is notified or given up while a call holds it without waiting, none is given up
while a call waits on it, and no call finds the entry that a dropped call left in the map. -/
def Orderly (env : CacheEnv) (s : ValidationCache) : Step → Prop
  | .advance i => ∀ call ∈ s.calls[i]?,
    (call.phase.notifies = true → ∀ c ∈ s.calls, c.phase ≠ .found i) ∧
      (call.phase = .lookup → ∀ owner ∈ s.inFlight.lookup (CacheKey.new env call.args),
        ∀ d ∈ s.calls[owner]?, d.phase ≠ .dropped)
  | .drop i => ∀ call ∈ s.calls[i]?, call.phase = .calling → ∀ c ∈ s.calls, c.phase.owner ≠ some i
  | _ => True

section Awaiting

variable (env : CacheEnv)

structure Awaited (calls : List Validation) (inFlight : AList fun _ : CacheKey => ℕ) : Prop where
  owner : ∀ c ∈ calls, ∀ o ∈ c.phase.owner, ∃ d, calls[o]? = some d ∧ d.phase.isRegistered = true
  listed : ∀ k o, inFlight.lookup k = some o →
    ∃ d, calls[o]? = some d ∧ d.phase.mayBeListed = true ∧ CacheKey.new env d.args = k

variable {env} {calls : List Validation} {inFlight inFlight' : AList fun _ : CacheKey => ℕ} {i : ℕ}
  {call : Validation}

theorem get_set (h : calls[i]? = some call) (new : Validation) (j : ℕ) :
    (calls.set i new)[j]? = if i = j then some new else calls[j]? := by
  have hi : i < calls.length := (List.getElem?_eq_some_iff.mp h).1
  rw [List.getElem?_set]
  simp only [hi, if_true]

theorem mem_set {new c : Validation} (h : calls[i]? = some call) (hc : c ∈ calls.set i new) :
    c = new ∨ c ∈ calls := by
  obtain ⟨j, hj⟩ := List.mem_iff_getElem?.mp hc
  rw [get_set h] at hj
  split at hj
  · exact Or.inl (Option.some.inj hj).symm
  · exact Or.inr (List.mem_iff_getElem?.mpr ⟨j, hj⟩)

/-- A call moves on: it goes on owing its notification or nobody holds its `Notify`, it holds
only that of one who owes, and an entry that points at it is one its new phase may have. -/
theorem Awaited.moveTo (h : Awaited env calls inFlight) (hcall : calls[i]? = some call) {q : Phase}
    (howes : call.phase.isRegistered = true →
      q.isRegistered = true ∨ ∀ c ∈ calls, c.phase.owner ≠ some i)
    (hholds : ∀ o ∈ q.owner, i ≠ o ∧ ∃ d, calls[o]? = some d ∧ d.phase.isRegistered = true)
    (hlisted : ∀ k o, inFlight'.lookup k = some o → if i = o then
      q.mayBeListed = true ∧ CacheKey.new env call.args = k else inFlight.lookup k = some o) :
    Awaited env (calls.set i { call with phase := q }) inFlight' := by
  constructor
  · intro c hc o ho
    obtain rfl | hmem := mem_set hcall hc
    · obtain ⟨hne, d, hd, hreg⟩ := hholds o ho
      exact ⟨d, by rw [get_set hcall, if_neg hne, hd], hreg⟩
    · obtain ⟨d, hd, hreg⟩ := h.owner c hmem o ho
      by_cases hio : i = o
      · subst hio
        rw [hcall] at hd
        obtain rfl := Option.some.inj hd
        obtain hq | hnone := howes hreg
        · exact ⟨_, by rw [get_set hcall, if_pos rfl], hq⟩
        · exact absurd ho (hnone c hmem)
      · exact ⟨d, by rw [get_set hcall, if_neg hio, hd], hreg⟩
  · intro k o hk
    have hentry := hlisted k o hk
    split at hentry
    · rename_i hio
      subst hio
      exact ⟨_, by rw [get_set hcall, if_pos rfl], hentry⟩
    · rename_i hio
      obtain ⟨d, hd, hmay⟩ := h.listed k o hentry
      exact ⟨d, by rw [get_set hcall, if_neg hio, hd], hmay⟩

/-- A call that no entry points at stays so. -/
theorem Awaited.unlisted (h : Awaited env calls inFlight) (hcall : calls[i]? = some call)
    (hnot : call.phase.mayBeListed = false) {q : Phase} (k : CacheKey) (o : ℕ)
    (hk : inFlight.lookup k = some o) : if i = o then
      q.mayBeListed = true ∧ CacheKey.new env call.args = k else inFlight.lookup k = some o := by
  split
  · rename_i hio
    subst hio
    obtain ⟨d, hd, hmay, _⟩ := h.listed k i hk
    rw [hcall] at hd
    obtain rfl := Option.some.inj hd
    rw [hnot] at hmay
    cases hmay
  · exact hk

theorem Awaited.stillListed (h : Awaited env calls inFlight) (hcall : calls[i]? = some call)
    {q : Phase} (hq : q.mayBeListed = true) (k : CacheKey) (o : ℕ)
    (hk : inFlight.lookup k = some o) : if i = o then
      q.mayBeListed = true ∧ CacheKey.new env call.args = k else inFlight.lookup k = some o := by
  split
  · rename_i hio
    subst hio
    obtain ⟨d, hd, _, hkey⟩ := h.listed k i hk
    rw [hcall] at hd
    obtain rfl := Option.some.inj hd
    exact ⟨hq, hkey⟩
  · exact hk

/-- A call that neither is registered nor holds a `Notify` takes its place. -/
theorem Awaited.moveFree (h : Awaited env calls inFlight) (hcall : calls[i]? = some call)
    {q : Phase} (hreg : call.phase.isRegistered = false) (hnot : call.phase.mayBeListed = false)
    (hq : q.owner = none) : Awaited env (calls.set i { call with phase := q }) inFlight := by
  refine h.moveTo hcall (fun hr => ?_) (fun o ho => ?_) (h.unlisted hcall hnot)
  · rw [hreg] at hr
    cases hr
  · rw [hq] at ho
    cases ho

theorem Awaited.moveRegistered (h : Awaited env calls inFlight) (hcall : calls[i]? = some call)
    {q : Phase} (hreg : q.isRegistered = true) (hq : q.owner = none)
    (hmay : q.mayBeListed = true) : Awaited env (calls.set i { call with phase := q }) inFlight := by
  refine h.moveTo hcall (fun _ => Or.inl hreg) (fun o ho => ?_) (h.stillListed hcall hmay)
  rw [hq] at ho
  cases ho

theorem Awaited.register (h : Awaited env calls inFlight) (hcall : calls[i]? = some call)
    (hphase : call.phase = .register) :
    Awaited env (calls.set i { call with phase := .calling })
      (inFlight.insert (CacheKey.new env call.args) i) := by
  refine h.moveTo hcall (fun _ => Or.inl rfl) (fun o ho => by cases ho) fun k o hk => ?_
  by_cases hkey : k = CacheKey.new env call.args
  · subst hkey
    rw [AList.lookup_insert] at hk
    rw [if_pos (Option.some.inj hk)]
    exact ⟨rfl, rfl⟩
  · rw [AList.lookup_insert_ne hkey] at hk
    exact h.unlisted hcall (by rw [hphase]; rfl) k o hk

theorem Awaited.deregister (h : Awaited env calls inFlight) (hcall : calls[i]? = some call)
    (result : Answer) :
    Awaited env (calls.set i { call with phase := .notify result })
      (inFlight.erase (CacheKey.new env call.args)) := by
  refine h.moveTo hcall (fun _ => Or.inl rfl) (fun o ho => by cases ho) fun k o hk => ?_
  by_cases hkey : k = CacheKey.new env call.args
  · subst hkey
    rw [AList.lookup_erase] at hk
    cases hk
  · rw [AList.lookup_erase_ne hkey] at hk
    split
    · -- an entry that points at the call stands under its own key
      rename_i hio
      subst hio
      obtain ⟨d, hd, _, hd'⟩ := h.listed k i hk
      rw [hcall] at hd
      obtain rfl := Option.some.inj hd
      exact absurd hd'.symm hkey
    · exact hk

theorem get_notifyWaiters {s : ValidationCache} {j : ℕ} {d : Validation} (hd : s.calls[j]? = some d)
    (hw : ∀ o, d.phase ≠ .waiting o) : (s.notifyWaiters i).calls[j]? = some d := by
  show (s.calls.map _)[j]? = _
  rw [List.getElem?_map, hd, Option.map_some, if_neg (hw i)]

/-- `notify_waiters` takes the `Notify` from every call that waits on it. -/
theorem Awaited.notify {s : ValidationCache} (h : Awaited env s.calls s.inFlight)
    (hcall : s.calls[i]? = some call) {result : Answer} (hphase : call.phase = .notify result)
    (hnone : ∀ c ∈ s.calls, c.phase ≠ .found i) :
    Awaited env ((s.notifyWaiters i).calls.set i { call with phase := .returned result })
      s.inFlight := by
  have hself : (s.notifyWaiters i).calls[i]? = some call :=
    get_notifyWaiters hcall fun o ho => by
      rw [hphase] at ho
      cases ho
  have hwoken : Awaited env (s.notifyWaiters i).calls s.inFlight := by
    constructor
    · intro c hc o ho
      obtain ⟨c', hc', rfl⟩ := List.mem_map.mp hc
      split at ho
      · cases ho
      · obtain ⟨d, hd, hreg⟩ := h.owner c' hc' o ho
        refine ⟨d, get_notifyWaiters hd fun w hw => ?_, hreg⟩
        rw [hw] at hreg
        cases hreg
    · intro k o hk
      obtain ⟨d, hd, hmay, hkey⟩ := h.listed k o hk
      refine ⟨d, get_notifyWaiters hd fun w hw => ?_, hmay, hkey⟩
      rw [hw] at hmay
      cases hmay
  refine hwoken.moveTo hself (fun _ => Or.inr fun c hc ho => ?_) (fun o ho => by cases ho) ?_
  · obtain ⟨c', hc', rfl⟩ := List.mem_map.mp hc
    split at ho
    · cases ho
    · rename_i hw
      cases hp : c'.phase with
      | found o =>
        rw [hp] at ho
        obtain rfl := Option.some.inj ho
        exact hnone c' hc' hp
      | waiting o =>
        rw [hp] at ho hw
        obtain rfl := Option.some.inj ho
        exact hw rfl
      | cacheRead | lookup | woken | register | calling | insert | deregister | notify
      | returned | dropped =>
        rw [hp] at ho
        cases ho
  · exact hwoken.unlisted hself (by rw [hphase]; rfl)

end Awaiting

section Run

variable {env : CacheEnv} {config : CacheConfig} {s t : ValidationCache} {i : ℕ}

theorem evictOldest_frame (config : CacheConfig) (s : ValidationCache) :
    (s.evictOldest config).calls = s.calls ∧ (s.evictOldest config).inFlight = s.inFlight ∧
      (s.evictOldest config).now = s.now ∧ (s.evictOldest config).answers = s.answers := by
  unfold evictOldest
  split
  split
  · split
    · exact ⟨rfl, rfl, rfl, rfl⟩
    · exact ⟨rfl, rfl, rfl, rfl⟩
  · exact ⟨rfl, rfl, rfl, rfl⟩

theorem insert_frame (config : CacheConfig) (s : ValidationCache) (key : CacheKey) (result : Bool) :
    (s.insert config key result).calls = s.calls ∧
      (s.insert config key result).inFlight = s.inFlight ∧
      (s.insert config key result).answers = s.answers := by
  have h := evictOldest_frame config s
  unfold insert
  split
  · exact ⟨h.1, h.2.1, h.2.2.2⟩
  · exact ⟨rfl, rfl, rfl⟩

theorem keep_frame (config : CacheConfig) (s : ValidationCache) (key : CacheKey) (result : Answer) :
    (s.keep config key result).calls = s.calls ∧
      (s.keep config key result).inFlight = s.inFlight ∧
      (s.keep config key result).answers = s.answers := by
  cases result with
  | error e => exact ⟨rfl, rfl, rfl⟩
  | ok valid =>
    cases valid with
    | true => exact insert_frame config s key true
    | false => exact ⟨rfl, rfl, rfl⟩

theorem Awaited.validateSignature (h : Awaited env s.calls s.inFlight) {call : Validation}
    (hcall : s.calls[i]? = some call) (hok : Orderly env s (.advance i))
    (hstep : s.validateSignature env config i call = some t) : Awaited env t.calls t.inFlight := by
  obtain ⟨hnotify, hlookup⟩ := hok call hcall
  unfold ValidationCache.validateSignature at hstep
  cases hphase : call.phase with
  | cacheRead =>
    simp only [hphase] at hstep
    split at hstep <;> obtain rfl := Option.some.inj hstep <;>
      exact h.moveFree hcall (by rw [hphase]; rfl) (by rw [hphase]; rfl) rfl
  | lookup =>
    simp only [hphase] at hstep
    split at hstep
    · rename_i owner howner
      obtain rfl := Option.some.inj hstep
      refine h.moveTo hcall (fun hr => ?_) (fun o ho => ?_)
        (h.unlisted hcall (by rw [hphase]; rfl))
      · rw [hphase] at hr
        cases hr
      · obtain rfl := Option.some.inj ho
        obtain ⟨d, hd, hmay, _⟩ := h.listed _ _ howner
        have hlive := hlookup hphase owner howner d hd
        refine ⟨?_, d, hd, ?_⟩
        · rintro rfl
          rw [hcall] at hd
          obtain rfl := Option.some.inj hd
          rw [hphase] at hmay
          cases hmay
        · cases hp : d.phase with
          | dropped => exact absurd hp hlive
          | calling | insert | deregister => rfl
          | cacheRead | lookup | found | waiting | woken | register | notify | returned =>
            rw [hp] at hmay
            cases hmay
    · obtain rfl := Option.some.inj hstep
      exact h.moveFree hcall (by rw [hphase]; rfl) (by rw [hphase]; rfl) rfl
  | found owner =>
    simp only [hphase] at hstep
    obtain rfl := Option.some.inj hstep
    refine h.moveTo hcall (fun hr => ?_) (fun o ho => ?_) (h.unlisted hcall (by rw [hphase]; rfl))
    · rw [hphase] at hr
      cases hr
    · have hmem : call ∈ s.calls := List.mem_iff_getElem?.mpr ⟨i, hcall⟩
      obtain ⟨d, hd, hreg⟩ := h.owner call hmem o (by rw [hphase]; exact ho)
      refine ⟨?_, d, hd, hreg⟩
      rintro rfl
      rw [hcall] at hd
      obtain rfl := Option.some.inj hd
      rw [hphase] at hreg
      cases hreg
  | waiting owner =>
    simp only [hphase] at hstep
    cases hstep
  | woken =>
    simp only [hphase] at hstep
    split at hstep <;> obtain rfl := Option.some.inj hstep <;>
      exact h.moveFree hcall (by rw [hphase]; rfl) (by rw [hphase]; rfl) rfl
  | register =>
    simp only [hphase] at hstep
    obtain rfl := Option.some.inj hstep
    exact h.register hcall hphase
  | calling =>
    simp only [hphase] at hstep
    cases hstep
  | insert result =>
    simp only [hphase] at hstep
    obtain rfl := Option.some.inj hstep
    obtain ⟨hcalls, hflight, _⟩ := keep_frame config s (CacheKey.new env call.args) result
    show Awaited env ((s.keep config _ result).calls.set i _) (s.keep config _ result).inFlight
    rw [hcalls, hflight]
    exact h.moveRegistered hcall rfl rfl rfl
  | deregister result =>
    simp only [hphase] at hstep
    obtain rfl := Option.some.inj hstep
    exact h.deregister hcall result
  | notify result =>
    simp only [hphase] at hstep
    obtain rfl := Option.some.inj hstep
    exact h.notify hcall hphase (hnotify (by rw [hphase]; rfl))
  | returned result =>
    simp only [hphase] at hstep
    cases hstep
  | dropped =>
    simp only [hphase] at hstep
    cases hstep

theorem Awaited.spawn (h : Awaited env s.calls s.inFlight) (args : ValidationArgs) :
    Awaited env (s.calls ++ [⟨args, .cacheRead⟩]) s.inFlight := by
  have hold : ∀ {o : ℕ} {d : Validation}, s.calls[o]? = some d →
      (s.calls ++ [⟨args, .cacheRead⟩])[o]? = some d := by
    intro o d hd
    rw [List.getElem?_append_left (List.getElem?_eq_some_iff.mp hd).1]
    exact hd
  constructor
  · intro c hc o ho
    obtain hmem | hnew := List.mem_append.mp hc
    · obtain ⟨d, hd, hreg⟩ := h.owner c hmem o ho
      exact ⟨d, hold hd, hreg⟩
    · rw [List.mem_singleton.mp hnew] at ho
      cases ho
  · intro k o hk
    obtain ⟨d, hd, hmay⟩ := h.listed k o hk
    exact ⟨d, hold hd, hmay⟩

theorem drop_cases {call : Validation} (h : (match call.phase with
      | .waiting _ | .woken | .calling => some (s.moveTo i call .dropped)
      | _ => none) = some t) :
    t = s.moveTo i call .dropped ∧
      ((∃ o, call.phase = .waiting o) ∨ call.phase = .woken ∨ call.phase = .calling) := by
  split at h
  · rename_i o hphase
    exact ⟨(Option.some.inj h).symm, Or.inl ⟨o, hphase⟩⟩
  · rename_i hphase
    exact ⟨(Option.some.inj h).symm, Or.inr (Or.inl hphase)⟩
  · rename_i hphase
    exact ⟨(Option.some.inj h).symm, Or.inr (Or.inr hphase)⟩
  · cases h

theorem Awaited.step {a : Step} (h : Awaited env s.calls s.inFlight) (hok : Orderly env s a)
    (hstep : step env config s a = some t) : Awaited env t.calls t.inFlight := by
  cases a with
  | spawn args =>
    obtain rfl := Option.some.inj hstep
    exact h.spawn args
  | advance i =>
    obtain ⟨call, hcall, hmove⟩ := Option.bind_eq_some_iff.mp hstep
    exact h.validateSignature hcall hok hmove
  | inner i answer =>
    obtain ⟨call, hcall, hmove⟩ := Option.bind_eq_some_iff.mp hstep
    split at hmove
    · obtain rfl := Option.some.inj hmove
      exact h.moveRegistered hcall rfl rfl rfl
    · cases hmove
  | drop i =>
    obtain ⟨call, hcall, hmove⟩ := Option.bind_eq_some_iff.mp hstep
    obtain ⟨rfl, hawaits⟩ := drop_cases hmove
    refine h.moveTo hcall (fun hr => Or.inr ?_) (fun o ho => by cases ho) (h.stillListed hcall rfl)
    obtain ⟨o, hphase⟩ | hphase | hphase := hawaits
    · rw [hphase] at hr
      cases hr
    · rw [hphase] at hr
      cases hr
    · exact hok call hcall hphase
  | clear =>
    obtain rfl := Option.some.inj hstep
    refine ⟨h.owner, fun k o hk => ?_⟩
    cases hk
  | elapse duration =>
    obtain rfl := Option.some.inj hstep
    exact h

theorem awaited_new : Awaited env new.calls new.inFlight := by
  constructor
  · intro c hc
    cases hc
  · intro k o hk
    cases hk

theorem Awaited.not_stranded (h : Awaited env s.calls s.inFlight) : ¬ s.Stranded := by
  rintro ⟨c, hc, o, d, hwaits, hd, hover⟩
  obtain ⟨d', hd', hreg⟩ := h.owner c hc o (by rw [hwaits]; rfl)
  rw [hd] at hd'
  obtain rfl := Option.some.inj hd'
  obtain hdropped | ⟨result, hreturned⟩ := hover
  · rw [hdropped] at hreg
    cases hreg
  · rw [hreturned] at hreg
    cases hreg

/-- A call that holds the `Notify` of one that is over needs one step to be stranded. -/
theorem stranded_of_found {j : ℕ} {c d : Validation} (hj : s.calls[j]? = some c)
    (hphase : c.phase = .found i) (hd : s.calls[i]? = some d)
    (hover : d.phase = .dropped ∨ ∃ result, d.phase = .returned result) :
    ∃ u, Machine.run (step env config) s [.advance j] = some u ∧ u.Stranded := by
  have hne : j ≠ i := by
    rintro rfl
    rw [hj] at hd
    obtain rfl := Option.some.inj hd
    obtain hdropped | ⟨result, hreturned⟩ := hover
    · rw [hphase] at hdropped
      cases hdropped
    · rw [hphase] at hreturned
      cases hreturned
  refine ⟨s.moveTo j c (.waiting i), ?_, { c with phase := .waiting i }, ?_, i, d, rfl, ?_, hover⟩
  · simp only [Machine.run, step, hj, Option.bind_some, validateSignature, hphase]
  · exact List.mem_iff_getElem?.mpr ⟨j, by rw [moveTo, get_set hj, if_pos rfl]⟩
  · rw [moveTo, get_set hj, if_neg hne, hd]

theorem notifies_iff {phase : Phase} : phase.notifies = true ↔ ∃ result, phase = .notify result := by
  cases phase <;> simp [Phase.notifies]

/-- Every step that is not orderly leads to a stranded call. -/
theorem stranded_of_disorder {a : Step} (hstep : step env config s a = some t)
    (hbad : ¬ Orderly env s a) :
    ∃ rest u, Machine.run (step env config) t rest = some u ∧ u.Stranded := by
  cases a with
  | spawn | inner | clear | elapse => exact absurd trivial hbad
  | advance i =>
    obtain ⟨call, hcall, hmove⟩ := Option.bind_eq_some_iff.mp hstep
    unfold validateSignature at hmove
    simp only [Orderly, Option.mem_def, hcall, Option.some.injEq, forall_eq', not_and_or] at hbad
    obtain hnotify | hlookup := hbad
    · push Not at hnotify
      obtain ⟨hnotifies, c, hc, hfound⟩ := hnotify
      obtain ⟨result, hphase⟩ := notifies_iff.mp hnotifies
      simp only [hphase] at hmove
      obtain ⟨j, hj⟩ := List.mem_iff_getElem?.mp hc
      obtain rfl := Option.some.inj hmove
      have hself : (s.notifyWaiters i).calls[i]? = some call :=
        get_notifyWaiters hcall fun o ho => by
          rw [hphase] at ho
          cases ho
      have hother : (s.notifyWaiters i).calls[j]? = some c :=
        get_notifyWaiters hj fun o ho => by
          rw [hfound] at ho
          cases ho
      have hne : i ≠ j := by
        rintro rfl
        rw [hcall] at hj
        obtain rfl := Option.some.inj hj
        rw [hphase] at hfound
        cases hfound
      have hholder : ((s.notifyWaiters i).moveTo i call (.returned result)).calls[j]? = some c := by
        rw [moveTo, get_set hself, if_neg hne, hother]
      have howned : ((s.notifyWaiters i).moveTo i call (.returned result)).calls[i]? =
          some { call with phase := .returned result } := by
        rw [moveTo, get_set hself, if_pos rfl]
      exact ⟨_, stranded_of_found hholder hfound howned (Or.inr ⟨result, rfl⟩)⟩
    · push Not at hlookup
      obtain ⟨hphase, owner, howner, d, hd, hdropped⟩ := hlookup
      simp only [hphase, howner] at hmove
      obtain rfl := Option.some.inj hmove
      have hne : i ≠ owner := by
        rintro rfl
        rw [hcall] at hd
        obtain rfl := Option.some.inj hd
        rw [hphase] at hdropped
        cases hdropped
      have hholder : (s.moveTo i call (.found owner)).calls[i]? =
          some { call with phase := .found owner } := by
        rw [moveTo, get_set hcall, if_pos rfl]
      have howned : (s.moveTo i call (.found owner)).calls[owner]? = some d := by
        rw [moveTo, get_set hcall, if_neg hne, hd]
      exact ⟨_, stranded_of_found hholder rfl howned (Or.inl hdropped)⟩
  | drop i =>
    obtain ⟨call, hcall, hmove⟩ := Option.bind_eq_some_iff.mp hstep
    obtain ⟨rfl, _⟩ := drop_cases hmove
    simp only [Orderly, not_forall, not_not] at hbad
    obtain ⟨call', hcall', hphase, c, hc, howner⟩ := hbad
    rw [Option.mem_def, hcall] at hcall'
    obtain rfl := Option.some.inj hcall'
    obtain ⟨j, hj⟩ := List.mem_iff_getElem?.mp hc
    have hne : i ≠ j := by
      rintro rfl
      rw [hcall] at hj
      obtain rfl := Option.some.inj hj
      rw [hphase] at howner
      cases howner
    have hholder : (s.moveTo i call .dropped).calls[j]? = some c := by
      rw [moveTo, get_set hcall, if_neg hne, hj]
    have howned : (s.moveTo i call .dropped).calls[i]? = some { call with phase := .dropped } := by
      rw [moveTo, get_set hcall, if_pos rfl]
    cases hp : c.phase with
    | found o =>
      rw [hp] at howner
      obtain rfl := Option.some.inj howner
      exact ⟨_, stranded_of_found hholder hp howned (Or.inl rfl)⟩
    | waiting o =>
      rw [hp] at howner
      obtain rfl := Option.some.inj howner
      exact ⟨[], _, rfl, c, List.mem_iff_getElem?.mpr ⟨j, hholder⟩, o, _, hp, howned, Or.inl rfl⟩
    | cacheRead | lookup | woken | register | calling | insert | deregister | notify | returned
    | dropped =>
      rw [hp] at howner
      cases howner


/-! ### Only a confirmed signature is valid -/

def Confirmed (env : CacheEnv) (answers : List (ValidationArgs × Answer)) (key : CacheKey) : Prop :=
  ∃ args, (args, .ok true) ∈ answers ∧ CacheKey.new env args = key

structure Honest (env : CacheEnv) (s : ValidationCache) : Prop where
  cached : ∀ k entry, s.cache.lookup k = some entry → entry.result = true → Confirmed env s.answers k
  answer : ∀ c ∈ s.calls, c.phase.answer = some (.ok true) →
    Confirmed env s.answers (CacheKey.new env c.args)
  asked : ∀ p ∈ s.answers, ∃ c ∈ s.calls, c.args = p.1

theorem Confirmed.mono {answers answers' : List (ValidationArgs × Answer)} {key : CacheKey}
    (h : Confirmed env answers key) (hsub : answers ⊆ answers') : Confirmed env answers' key := by
  obtain ⟨args, hmem, hkey⟩ := h
  exact ⟨args, hsub hmem, hkey⟩

theorem lookup_of_erase {α : Type*} {map : AList fun _ : CacheKey => α} {key k : CacheKey} {a : α}
    (h : (map.erase key).lookup k = some a) : map.lookup k = some a := by
  by_cases hk : k = key
  · subst hk
    rw [AList.lookup_erase] at h
    cases h
  · rwa [AList.lookup_erase_ne hk] at h

theorem lookup_evictExpired (now : ℕ) (order : List CacheKey) (map : Cache) {k : CacheKey}
    {entry : CacheEntry} (h : (evictExpired now order map).2.lookup k = some entry) :
    map.lookup k = some entry := by
  induction order generalizing map with
  | nil => exact h
  | cons key order ih =>
    unfold evictExpired at h
    split at h
    · split at h
      · exact lookup_of_erase (ih _ h)
      · exact h
    · exact ih _ h

theorem lookup_evictOldest {k : CacheKey} {entry : CacheEntry}
    (h : (s.evictOldest config).cache.lookup k = some entry) : s.cache.lookup k = some entry := by
  have hevicted : _ → s.cache.lookup k = some entry :=
    lookup_evictExpired s.now s.insertionOrder s.cache
  unfold evictOldest at h
  split at h
  rename_i order map hpair
  rw [hpair] at hevicted
  split at h
  · split at h
    · exact hevicted (lookup_of_erase h)
    · exact hevicted h
  · exact hevicted h

theorem lookup_insert {key k : CacheKey} {result : Bool} {entry : CacheEntry}
    (h : (s.insert config key result).cache.lookup k = some entry) :
    k = key ∧ entry.result = result ∨ s.cache.lookup k = some entry := by
  by_cases hk : k = key
  · subst hk
    refine Or.inl ⟨rfl, ?_⟩
    unfold insert at h
    rw [AList.lookup_insert] at h
    obtain rfl := Option.some.inj h
    rfl
  · refine Or.inr ?_
    unfold insert at h
    rw [AList.lookup_insert_ne hk] at h
    split at h
    · exact lookup_evictOldest h
    · exact h

theorem lookup_keep {key k : CacheKey} {result : Answer} {entry : CacheEntry}
    (h : (s.keep config key result).cache.lookup k = some entry) :
    k = key ∧ result = .ok true ∨ s.cache.lookup k = some entry := by
  cases result with
  | error e => exact Or.inr h
  | ok valid =>
    cases valid with
    | false => exact Or.inr h
    | true => exact (lookup_insert h).imp_left fun hk => ⟨hk.1, rfl⟩

/-- A call moves on, in a state that differs in the cache and in what was answered. -/
theorem Honest.moveTo (h : Honest env s) {call : Validation} (hcall : s.calls[i]? = some call)
    {q : Phase} (hcalls : t.calls = s.calls.set i { call with phase := q }) (hsub : s.answers ⊆ t.answers)
    (hcache : ∀ k entry, t.cache.lookup k = some entry → entry.result = true →
      s.cache.lookup k = some entry ∨ Confirmed env t.answers k)
    (hanswer : q.answer = some (.ok true) → Confirmed env t.answers (CacheKey.new env call.args))
    (hasked : ∀ p ∈ t.answers, p ∈ s.answers ∨ p.1 = call.args) : Honest env t := by
  have hkept : ∀ c ∈ s.calls, ∃ c' ∈ t.calls, c'.args = c.args := by
    intro c hc
    obtain ⟨j, hj⟩ := List.mem_iff_getElem?.mp hc
    rw [hcalls]
    by_cases hij : i = j
    · subst hij
      rw [hcall] at hj
      obtain rfl := Option.some.inj hj
      exact ⟨{ call with phase := q },
        List.mem_iff_getElem?.mpr ⟨i, by rw [get_set hcall, if_pos rfl]⟩, rfl⟩
    · exact ⟨c, List.mem_iff_getElem?.mpr ⟨j, by rw [get_set hcall, if_neg hij, hj]⟩, rfl⟩
  refine ⟨fun k entry hk hr => ?_, fun c hc hr => ?_, fun p hp => ?_⟩
  · obtain hold | hnew := hcache k entry hk hr
    · exact (h.cached k entry hold hr).mono hsub
    · exact hnew
  · rw [hcalls] at hc
    obtain rfl | hmem := mem_set hcall hc
    · exact hanswer hr
    · exact (h.answer c hmem hr).mono hsub
  · obtain hold | hnew := hasked p hp
    · obtain ⟨c, hc, hargs⟩ := h.asked p hold
      obtain ⟨c', hc', hargs'⟩ := hkept c hc
      exact ⟨c', hc', hargs'.trans hargs⟩
    · obtain ⟨c', hc', hargs'⟩ := hkept call (List.mem_iff_getElem?.mpr ⟨i, hcall⟩)
      exact ⟨c', hc', hargs'.trans hnew.symm⟩

/-- A call moves on and nothing else changes. -/
theorem Honest.moveCall (h : Honest env s) {call : Validation} (hcall : s.calls[i]? = some call)
    {q : Phase} {inFlight : AList fun _ : CacheKey => ℕ}
    (hanswer : q.answer = some (.ok true) → Confirmed env s.answers (CacheKey.new env call.args)) :
    Honest env ({ s with inFlight := inFlight }.moveTo i call q) :=
  h.moveTo hcall rfl (List.Subset.refl _) (fun _ _ hk _ => Or.inl hk) hanswer fun _ hp => Or.inl hp

theorem Honest.of_cached (h : Honest env s) {key : CacheKey} {result : Bool}
    (hk : s.cached key = some result) (hr : Phase.answer (.returned (.ok result)) = some (.ok true)) :
    Confirmed env s.answers key := by
  have hresult : result = true := by
    simpa only [Phase.answer, Option.some.injEq, Except.ok.injEq] using hr
  unfold ValidationCache.cached at hk
  split at hk
  · rename_i entry hentry
    split at hk
    · cases hk
    · exact h.cached key entry hentry ((Option.some.inj hk).trans hresult)
  · cases hk

/-- The calls woken by a notification have no answer yet. -/
theorem Honest.notify (h : Honest env s) {call : Validation} (hcall : s.calls[i]? = some call)
    {result : Answer} (hphase : call.phase = .notify result) :
    Honest env ((s.notifyWaiters i).moveTo i call (.returned result)) := by
  have hself : (s.notifyWaiters i).calls[i]? = some call :=
    get_notifyWaiters hcall fun o ho => by
      rw [hphase] at ho
      cases ho
  have hwoken : Honest env (s.notifyWaiters i) := by
    refine ⟨h.cached, fun c hc hr => ?_, fun p hp => ?_⟩
    · obtain ⟨c', hc', rfl⟩ := List.mem_map.mp hc
      split at hr
      · cases hr
      · rename_i hw
        rw [if_neg hw]
        exact h.answer c' hc' hr
    · obtain ⟨c, hc, hargs⟩ := h.asked p hp
      refine ⟨_, List.mem_map_of_mem hc, ?_⟩
      split
      · exact hargs
      · exact hargs
  refine hwoken.moveCall hself fun hr => ?_
  refine h.answer call (List.mem_iff_getElem?.mpr ⟨i, hcall⟩) ?_
  rw [hphase]
  exact hr

theorem Honest.validateSignature (h : Honest env s) {call : Validation}
    (hcall : s.calls[i]? = some call) (hstep : s.validateSignature env config i call = some t) :
    Honest env t := by
  have hmem : call ∈ s.calls := List.mem_iff_getElem?.mpr ⟨i, hcall⟩
  unfold ValidationCache.validateSignature at hstep
  cases hphase : call.phase with
  | cacheRead =>
    simp only [hphase] at hstep
    split at hstep
    · rename_i result hhit
      obtain rfl := Option.some.inj hstep
      exact h.moveCall hcall (h.of_cached hhit)
    · obtain rfl := Option.some.inj hstep
      exact h.moveCall hcall fun hr => by cases hr
  | lookup =>
    simp only [hphase] at hstep
    split at hstep
    · obtain rfl := Option.some.inj hstep
      exact h.moveCall hcall fun hr => by cases hr
    · obtain rfl := Option.some.inj hstep
      exact h.moveCall hcall fun hr => by cases hr
  | found owner =>
    simp only [hphase] at hstep
    obtain rfl := Option.some.inj hstep
    exact h.moveCall hcall fun hr => by cases hr
  | woken =>
    simp only [hphase] at hstep
    split at hstep
    · rename_i result hhit
      obtain rfl := Option.some.inj hstep
      exact h.moveCall hcall (h.of_cached hhit)
    · obtain rfl := Option.some.inj hstep
      exact h.moveCall hcall fun hr => by cases hr
  | register =>
    simp only [hphase] at hstep
    obtain rfl := Option.some.inj hstep
    exact h.moveCall hcall fun hr => by cases hr
  | insert result =>
    simp only [hphase] at hstep
    obtain rfl := Option.some.inj hstep
    obtain ⟨hcalls, _, hanswers⟩ := keep_frame config s (CacheKey.new env call.args) result
    have hconfirmed : result = .ok true → Confirmed env s.answers (CacheKey.new env call.args) := by
      rintro rfl
      exact h.answer call hmem (by rw [hphase]; rfl)
    have hsub : s.answers ⊆ (s.keep config (CacheKey.new env call.args) result).answers := by
      rw [hanswers]
      exact List.Subset.refl _
    refine h.moveTo hcall (by rw [ValidationCache.moveTo, hcalls]) hsub (fun k entry hk _ => ?_)
      (fun hr => ?_) fun p hp => Or.inl (hanswers ▸ hp)
    · obtain ⟨rfl, hresult⟩ | hold := lookup_keep hk
      · exact Or.inr ((hconfirmed hresult).mono hsub)
      · exact Or.inl hold
    · exact (hconfirmed (Option.some.inj hr)).mono hsub
  | deregister result =>
    simp only [hphase] at hstep
    obtain rfl := Option.some.inj hstep
    exact h.moveCall hcall fun hr => h.answer call hmem (by rw [hphase]; exact hr)
  | notify result =>
    simp only [hphase] at hstep
    obtain rfl := Option.some.inj hstep
    exact h.notify hcall hphase
  | waiting | calling | returned | dropped =>
    simp only [hphase] at hstep
    cases hstep

theorem Honest.step {a : Step} (h : Honest env s) (hstep : step env config s a = some t) :
    Honest env t := by
  cases a with
  | spawn args =>
    obtain rfl := Option.some.inj hstep
    refine ⟨h.cached, fun c hc hr => ?_, fun p hp => ?_⟩
    · obtain hmem | hnew := List.mem_append.mp hc
      · exact h.answer c hmem hr
      · rw [List.mem_singleton.mp hnew] at hr
        cases hr
    · obtain ⟨c, hc, hargs⟩ := h.asked p hp
      exact ⟨c, List.mem_append_left _ hc, hargs⟩
  | advance i =>
    obtain ⟨call, hcall, hmove⟩ := Option.bind_eq_some_iff.mp hstep
    exact h.validateSignature hcall hmove
  | inner i answer =>
    obtain ⟨call, hcall, hmove⟩ := Option.bind_eq_some_iff.mp hstep
    split at hmove
    · obtain rfl := Option.some.inj hmove
      refine h.moveTo hcall rfl (List.subset_append_left _ _) (fun _ _ hk _ => Or.inl hk)
        (fun hr => ?_) fun p hp => ?_
      · obtain rfl := Option.some.inj hr
        exact ⟨call.args, List.mem_append_right _ (List.mem_singleton.mpr rfl), rfl⟩
      · obtain hold | hnew := List.mem_append.mp hp
        · exact Or.inl hold
        · exact Or.inr (congrArg Prod.fst (List.mem_singleton.mp hnew))
    · cases hmove
  | drop i =>
    obtain ⟨call, hcall, hmove⟩ := Option.bind_eq_some_iff.mp hstep
    obtain ⟨rfl, _⟩ := drop_cases hmove
    exact h.moveCall hcall fun hr => by cases hr
  | clear =>
    obtain rfl := Option.some.inj hstep
    refine ⟨fun k entry hk => ?_, h.answer, h.asked⟩
    cases hk
  | elapse duration =>
    obtain rfl := Option.some.inj hstep
    exact ⟨h.cached, h.answer, h.asked⟩

theorem honest_new : Honest env new := by
  refine ⟨fun k entry hk => ?_, fun c hc => ?_, fun p hp => ?_⟩
  · cases hk
  · cases hc
  · cases hp

/-- No two byte strings that the calls bring have the same digest. -/
def NoCollision (env : CacheEnv) (s : ValidationCache) : Prop :=
  ∀ c ∈ s.calls, ∀ d ∈ s.calls,
    (env.sha256 c.args.hash = env.sha256 d.args.hash → c.args.hash = d.args.hash) ∧
      (env.sha256 c.args.signature = env.sha256 d.args.signature →
        c.args.signature = d.args.signature)

theorem Honest.confirmed (h : Honest env s) (hdigest : NoCollision env s) {c : Validation}
    (hc : c ∈ s.calls) (hphase : c.phase = .returned (.ok true)) :
    ∃ args, (args, .ok true) ∈ s.answers ∧
      env.toLowercase args.contractAddress = env.toLowercase c.args.contractAddress ∧
      args.hash = c.args.hash ∧ args.signature = c.args.signature := by
  obtain ⟨args, hmem, hkey⟩ := h.answer c hc (by rw [hphase]; rfl)
  obtain ⟨d, hd, hargs⟩ := h.asked _ hmem
  obtain rfl : d.args = args := hargs
  obtain ⟨hhash, hsig⟩ := hdigest d hd c hc
  simp only [CacheKey.new, CacheKey.mk.injEq] at hkey
  exact ⟨d.args, hmem, hkey.1, hhash hkey.2.1, hsig hkey.2.2⟩

end Run

/-- In a run whose steps are all orderly no call is ever stranded, and a step that is not orderly
can always be followed by one that strands a call. A call returns `Ok(true)` only for a
signature that the inner validator confirmed. -/
theorem validations_not_stranded (env : CacheEnv) (config : CacheConfig) (steps : List Step)
    (s : ValidationCache) (hrun : Machine.run (step env config) new steps = some s) :
    (Machine.Meets (step env config) (Orderly env) new steps → ¬ s.Stranded) ∧
      (∀ a t, step env config s a = some t → ¬ Orderly env s a →
        ∃ rest u, Machine.run (step env config) t rest = some u ∧ u.Stranded) ∧
      (NoCollision env s → ∀ c ∈ s.calls, c.phase = .returned (.ok true) →
        ∃ args, (args, .ok true) ∈ s.answers ∧
          env.toLowercase args.contractAddress = env.toLowercase c.args.contractAddress ∧
          args.hash = c.args.hash ∧ args.signature = c.args.signature) := by
  refine ⟨fun hmeets => ?_, fun a t => stranded_of_disorder, fun hdigest c hc => ?_⟩
  · have hawaited : Awaited env s.calls s.inFlight :=
      Machine.run_invariant_of_meets (step env config) (P := fun s => Awaited env s.calls s.inFlight)
        (fun _ _ _ h hok hs => Awaited.step h hok hs) steps new s hmeets hrun awaited_new
    exact hawaited.not_stranded
  · have hhonest : Honest env s := Machine.run_invariant (step env config)
      (fun _ _ _ h hs => Honest.step h hs) steps new s hrun honest_new
    exact hhonest.confirmed hdigest hc

/-- SHA-256 of the strings below. -/
def digestTable (b : Bytes) : Bytes :=
  if b = [1] then
    [75, 245, 18, 47, 52, 69, 84, 197, 59, 222, 46, 187, 140, 210, 183, 227, 209, 96, 10, 214, 49,
      195, 133, 165, 215, 204, 226, 60, 119, 133, 69, 154]
  else if b = [2] then
    [219, 193, 180, 201, 0, 255, 228, 141, 87, 91, 93, 165, 198, 56, 4, 1, 37, 246, 93, 176, 254,
      62, 36, 73, 75, 118, 234, 152, 100, 87, 217, 134]
  else []

def plainEnv : CacheEnv := ⟨fun s => s.map Char.toLower, digestTable⟩

def smallConfig : CacheConfig := ⟨3600, 300, 2⟩

/-- Two calls for one signature: the second waits for the first and is served from the cache. -/
def coalesced : List Step :=
  [.spawn ⟨['A'], [1], [2]⟩, .spawn ⟨['a'], [1], [2]⟩, .advance 0, .advance 0, .advance 0,
    .advance 1, .advance 1, .advance 1, .inner 0 (.ok true), .advance 0, .advance 0, .advance 0,
    .advance 1]

/-- Then two calls for another one: the first registers, the second waits for it. -/
def waitingAgain : List Step :=
  coalesced ++ [.spawn ⟨['A'], [2], [1]⟩, .spawn ⟨['A'], [2], [1]⟩, .advance 2, .advance 2,
    .advance 2, .advance 3, .advance 3, .advance 3]

/-- The first call is through between the second one's look-up and its wait. -/
def missedWakeup : List Step :=
  [.spawn ⟨['A'], [1], [2]⟩, .spawn ⟨['a'], [1], [2]⟩, .advance 0, .advance 0, .advance 0,
    .advance 1, .advance 1, .inner 0 (.ok true), .advance 0, .advance 0, .advance 0, .advance 1]

/-- The first call is dropped during its inner call. -/
def droppedOwner : List Step :=
  [.spawn ⟨['A'], [1], [2]⟩, .spawn ⟨['a'], [1], [2]⟩, .advance 0, .advance 0, .advance 0,
    .advance 1, .advance 1, .advance 1, .drop 0]

instance decidableOrderly (env : CacheEnv) (s : ValidationCache) :
    (a : Step) → Decidable (Orderly env s a)
  | .advance i => inferInstanceAs (Decidable (∀ call ∈ s.calls[i]?,
      (call.phase.notifies = true → ∀ c ∈ s.calls, c.phase ≠ .found i) ∧
        (call.phase = .lookup → ∀ owner ∈ s.inFlight.lookup (CacheKey.new env call.args),
          ∀ d ∈ s.calls[owner]?, d.phase ≠ .dropped)))
  | .drop i => inferInstanceAs (Decidable (∀ call ∈ s.calls[i]?, call.phase = .calling →
      ∀ c ∈ s.calls, c.phase.owner ≠ some i))
  | .spawn _ | .inner _ _ | .clear | .elapse _ => isTrue trivial

/-- Nobody is stranded until the call that another one waits for is dropped; what was served was
confirmed. -/
theorem validations_not_stranded_coalesced :
    ∃ s, Machine.run (step plainEnv smallConfig) new waitingAgain = some s ∧
      (¬ s.Stranded ∧ s.calls.map Validation.phase =
        [.returned (.ok true), .returned (.ok true), .calling, .waiting 2]) ∧
      (∃ t, step plainEnv smallConfig s (.drop 2) = some t ∧
        ∃ rest u, Machine.run (step plainEnv smallConfig) t rest = some u ∧ u.Stranded) ∧
      ∃ args, (args, .ok true) ∈ s.answers ∧ args.hash = [1] ∧ args.signature = [2] := by
  have hend : (Machine.run (step plainEnv smallConfig) new waitingAgain).map ValidationCache.calls =
      some [⟨⟨['A'], [1], [2]⟩, .returned (.ok true)⟩, ⟨⟨['a'], [1], [2]⟩, .returned (.ok true)⟩,
        ⟨⟨['A'], [2], [1]⟩, .calling⟩, ⟨⟨['A'], [2], [1]⟩, .waiting 2⟩] := by
    decide
  obtain ⟨s, hrun, hs⟩ := Option.map_eq_some_iff.mp hend
  have hmeets : Machine.Meets (step plainEnv smallConfig) (Orderly plainEnv) new waitingAgain := by
    decide
  have hdropped : ((Machine.run (step plainEnv smallConfig) new waitingAgain).bind fun s =>
      step plainEnv smallConfig s (.drop 2)).isSome = true := by
    decide
  rw [hrun, Option.bind_some] at hdropped
  obtain ⟨t, ht⟩ := Option.isSome_iff_exists.mp hdropped
  obtain ⟨hstranded, hdisorder, hconfirmed⟩ :=
    validations_not_stranded plainEnv smallConfig waitingAgain s hrun
  have hdigest : NoCollision plainEnv s := by
    unfold NoCollision
    rw [hs]
    decide
  refine ⟨s, hrun, ⟨hstranded hmeets, by rw [hs]; rfl⟩, ⟨t, ht, hdisorder _ t ht ?_⟩, ?_⟩
  · intro horder
    have hwaits := horder ⟨⟨['A'], [2], [1]⟩, .calling⟩ (by rw [hs]; rfl) rfl
      ⟨⟨['A'], [2], [1]⟩, .waiting 2⟩ (by rw [hs]; simp)
    exact hwaits rfl
  · obtain ⟨args, hanswer, -, hhash, hsignature⟩ := hconfirmed hdigest
      ⟨⟨['A'], [1], [2]⟩, .returned (.ok true)⟩ (by rw [hs]; exact List.mem_cons_self) rfl
    exact ⟨args, hanswer, hhash, hsignature⟩

/-- Both ways to wait for ever. -/
theorem waiters_stranded :
    (∃ s, Machine.run (step plainEnv smallConfig) new missedWakeup = some s ∧ s.Stranded) ∧
      ∃ s, Machine.run (step plainEnv smallConfig) new droppedOwner = some s ∧ s.Stranded := by
  have hmissed : (Machine.run (step plainEnv smallConfig) new missedWakeup).map ValidationCache.calls =
      some [⟨⟨['A'], [1], [2]⟩, .returned (.ok true)⟩, ⟨⟨['a'], [1], [2]⟩, .waiting 0⟩] := by
    decide
  have hdropped : (Machine.run (step plainEnv smallConfig) new droppedOwner).map ValidationCache.calls =
      some [⟨⟨['A'], [1], [2]⟩, .dropped⟩, ⟨⟨['a'], [1], [2]⟩, .waiting 0⟩] := by
    decide
  obtain ⟨s, hrun, hs⟩ := Option.map_eq_some_iff.mp hmissed
  obtain ⟨t, hrun', ht⟩ := Option.map_eq_some_iff.mp hdropped
  refine ⟨⟨s, hrun, ?_⟩, t, hrun', ?_⟩
  · refine ⟨⟨⟨['a'], [1], [2]⟩, .waiting 0⟩, by simp [hs], 0, _, rfl, by rw [hs]; rfl, ?_⟩
    exact Or.inr ⟨.ok true, rfl⟩
  · exact ⟨⟨⟨['a'], [1], [2]⟩, .waiting 0⟩, by simp [ht], 0, _, rfl, by rw [ht]; rfl, Or.inl rfl⟩

end ValidationCache

end Catalyrst.Crypto

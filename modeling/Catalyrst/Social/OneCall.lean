import Mathlib
import Catalyrst.Social.PrivateVoice

/-!
# A user is in at most one live call

Two starts that share a participant share a lock, so one of them commits before the other
looks. The later one found the row of the earlier one lapsed by its own `now()`, however
old that is; and no row is ever dated after the clock. So when the later row is there, the
earlier one has lapsed for everyone.
-/

namespace Catalyrst.Social

open Catalyrst.Lib

/-- The rows have a participant in common. -/
def PrivateVoiceChat.shares (c d : PrivateVoiceChat) : Bool := c.involves d.participants

/-- One of the rows has lapsed by the time of the other. -/
def Apart (expirationMs : ℤ) (c d : PrivateVoiceChat) : Prop :=
  c.createdAt < cutoff expirationMs d.createdAt ∨ d.createdAt < cutoff expirationMs c.createdAt

namespace StartTx

/-- A row of this transaction's participants. -/
def Meets (tx : StartTx) (c : PrivateVoiceChat) : Prop := c.involves tx.participants = true

def pending (tx : StartTx) : List Address :=
  match tx.stage with
  | .locking pending => pending
  | .free | .inserted _ => []

def looked (tx : StartTx) : Bool :=
  match tx.stage with
  | .locking _ => false
  | .free | .inserted _ => true

end StartTx

/-- What holds between the steps. -/
structure CallStore.Inv (hashtext : Text → ℤ) (expirationMs : ℤ) (s : CallStore) : Prop where
  dated : ∀ c ∈ s.chats, c.createdAt ≤ s.clock
  began : ∀ i tx, s.txs i = some tx → tx.now ≤ s.clock
  held : ∀ i tx, s.txs i = some tx → ∀ p ∈ tx.participants, p ∉ tx.pending →
    s.locks (hashtext (lockName p)) = some i
  looked : ∀ i tx, s.txs i = some tx → tx.looked = true → ∀ c ∈ s.chats, tx.Meets c →
    c.createdAt < cutoff expirationMs tx.now
  own : ∀ i tx chat, s.txs i = some tx → tx.stage = .inserted chat →
    chat.participants = tx.participants ∧ chat.createdAt = tx.now
  apart : s.chats.Pairwise fun c d => c.shares d = true → Apart expirationMs c d

namespace CallStore

variable {lower : Text → Text} {hashtext : Text → ℤ} {expirationMs : ℤ} {s s' : CallStore}

theorem inv_new : Inv hashtext expirationMs new := by
  constructor <;> simp [new]

/-- Rows are only removed. -/
theorem Inv.sublist (h : Inv hashtext expirationMs s) {chats : List PrivateVoiceChat}
    (hsub : chats.Sublist s.chats) : Inv hashtext expirationMs { s with chats := chats } :=
  ⟨fun c hc => h.dated c (hsub.subset hc), h.began, h.held,
    fun i tx hi hl c hc => h.looked i tx hi hl c (hsub.subset hc), h.own, h.apart.sublist hsub⟩

/-- A transaction ends. -/
theorem Inv.finish (h : Inv hashtext expirationMs s) (i : ℕ) :
    Inv hashtext expirationMs (s.finish i) := by
  have hother : ∀ j tx, (s.finish i).txs j = some tx → j ≠ i ∧ s.txs j = some tx := by
    intro j tx hj
    by_cases hji : j = i
    · subst hji
      simp [CallStore.finish] at hj
    · refine ⟨hji, ?_⟩
      simpa [CallStore.finish, Function.update_of_ne hji] using hj
  refine ⟨h.dated, ?_, ?_, ?_, ?_, h.apart⟩
  · exact fun j tx hj => h.began j tx (hother j tx hj).2
  · intro j tx hj p hp hpending
    obtain ⟨hne, hj⟩ := hother j tx hj
    exact Locks.releaseAll_other (h.held j tx hj p hp hpending) hne
  · exact fun j tx hj => h.looked j tx (hother j tx hj).2
  · exact fun j tx chat hj => h.own j tx chat (hother j tx hj).2

/-- A transaction goes on, with its locks. -/
theorem Inv.setTx (h : Inv hashtext expirationMs s) {i : ℕ} {tx : StartTx} {locks : Locks ℤ ℕ}
    (hlocks : ∀ k j, s.locks k = some j → locks k = some j) (hnow : tx.now ≤ s.clock)
    (hheld : ∀ p ∈ tx.participants, p ∉ tx.pending → locks (hashtext (lockName p)) = some i)
    (hlooked : tx.looked = true → ∀ c ∈ s.chats, tx.Meets c →
      c.createdAt < cutoff expirationMs tx.now)
    (hown : ∀ chat, tx.stage = .inserted chat →
      chat.participants = tx.participants ∧ chat.createdAt = tx.now) :
    Inv hashtext expirationMs { s with txs := Function.update s.txs i (some tx), locks := locks } := by
  have hcases : ∀ j tx', Function.update s.txs i (some tx) j = some tx' →
      j = i ∧ tx' = tx ∨ s.txs j = some tx' := by
    intro j tx' hj
    by_cases hji : j = i
    · subst hji
      rw [Function.update_self] at hj
      exact Or.inl ⟨rfl, (Option.some.inj hj).symm⟩
    · rw [Function.update_of_ne hji] at hj
      exact Or.inr hj
  refine ⟨h.dated, ?_, ?_, ?_, ?_, h.apart⟩
  · intro j tx' hj
    rcases hcases j tx' hj with ⟨rfl, rfl⟩ | hj
    · exact hnow
    · exact h.began j tx' hj
  · intro j tx' hj p hp hpending
    rcases hcases j tx' hj with ⟨rfl, rfl⟩ | hj
    · exact hheld p hp hpending
    · exact hlocks _ j (h.held j tx' hj p hp hpending)
  · intro j tx' hj
    rcases hcases j tx' hj with ⟨rfl, rfl⟩ | hj
    · exact hlooked
    · exact h.looked j tx' hj
  · intro j tx' chat hj
    rcases hcases j tx' hj with ⟨rfl, rfl⟩ | hj
    · exact hown chat
    · exact h.own j tx' chat hj

/-- Two transactions that have looked have no participant in common. -/
theorem Inv.disjoint (h : Inv hashtext expirationMs s) {i j : ℕ} {tx tx' : StartTx}
    (hi : s.txs i = some tx) (hj : s.txs j = some tx') (hl : tx.looked = true)
    (hl' : tx'.looked = true) {p : Address} (hp : p ∈ tx.participants) (hp' : p ∈ tx'.participants) :
    i = j := by
  have hnone : ∀ t : StartTx, t.looked = true → p ∉ t.pending := by
    intro t ht
    unfold StartTx.pending
    unfold StartTx.looked at ht
    split <;> simp_all
  have hlock := h.held i tx hi p hp (hnone tx hl)
  rw [h.held j tx' hj p hp' (hnone tx' hl')] at hlock
  exact (Option.some.inj hlock).symm

theorem Inv.commit (h : Inv hashtext expirationMs s) {i : ℕ} {tx : StartTx}
    {chat : PrivateVoiceChat} (hi : s.txs i = some tx) (hstage : tx.stage = .inserted chat) :
    Inv hashtext expirationMs { s.finish i with chats := s.chats ++ [chat] } := by
  obtain ⟨hparts, hcreated⟩ := h.own i tx chat hi hstage
  have hlooked : tx.looked = true := by
    unfold StartTx.looked
    rw [hstage]
  have hfinish := h.finish i
  refine ⟨?_, hfinish.began, hfinish.held, ?_, hfinish.own, ?_⟩
  · intro c hc
    rcases List.mem_append.mp hc with hc | hc
    · exact h.dated c hc
    · rw [List.mem_singleton.mp hc, hcreated]
      exact h.began i tx hi
  · intro j tx' hj hl c hc hmeets
    rcases List.mem_append.mp hc with hc | hc
    · exact hfinish.looked j tx' hj hl c hc hmeets
    · -- the new row is of nobody else who has looked
      rw [List.mem_singleton.mp hc] at hmeets
      have hji : j ≠ i := by
        intro hji
        subst hji
        simp [CallStore.finish] at hj
      have hj : s.txs j = some tx' := by
        simpa [CallStore.finish, Function.update_of_ne hji] using hj
      obtain ⟨p, hp, hp'⟩ : ∃ p, p ∈ tx.participants ∧ p ∈ tx'.participants := by
        rw [← hparts]
        simp only [StartTx.Meets, PrivateVoiceChat.involves, decide_eq_true_eq] at hmeets
        rcases hmeets with hp | hp
        · exact ⟨_, List.mem_cons_self, hp⟩
        · exact ⟨_, List.mem_cons_of_mem _ List.mem_cons_self, hp⟩
      exact absurd (h.disjoint hi hj hlooked hl hp hp').symm hji
  · refine List.pairwise_append.mpr ⟨h.apart, List.pairwise_singleton _ _, fun c hc d hd hshares => ?_⟩
    rw [List.mem_singleton.mp hd] at hshares ⊢
    refine Or.inl ?_
    rw [hcreated]
    refine h.looked i tx hi hlooked c hc ?_
    rw [StartTx.Meets, ← hparts]
    exact hshares

theorem Inv.tick (h : Inv hashtext expirationMs s) (elapsed : ℕ) :
    Inv hashtext expirationMs { s with clock := s.clock + elapsed } :=
  ⟨fun c hc => (h.dated c hc).trans (by dsimp only; omega),
    fun i tx hi => (h.began i tx hi).trans (by dsimp only; omega), h.held, h.looked, h.own, h.apart⟩

theorem Inv.begin (h : Inv hashtext expirationMs s) (i : ℕ) (caller callee : Address) :
    Inv hashtext expirationMs { s with
      txs := Function.update s.txs i (some ⟨caller, callee, s.clock,
        .locking (if callee < caller then [callee, caller] else [caller, callee])⟩) } := by
  refine h.setTx (fun _ _ hk => hk) le_rfl (fun p hp hpending => absurd ?_ hpending)
    (fun hl => nomatch hl) (fun chat hchat => nomatch hchat)
  simp only [StartTx.pending, StartTx.participants] at hp ⊢
  split
  · simpa [or_comm] using hp
  · exact hp

theorem Inv.lock (h : Inv hashtext expirationMs s) {i : ℕ} {tx : StartTx} {p : Address}
    {pending : List Address} {locks : Locks ℤ ℕ} (hi : s.txs i = some tx)
    (hstage : tx.stage = .locking (p :: pending))
    (htake : s.locks.take (hashtext (lockName p)) i = some locks) :
    Inv hashtext expirationMs { s.setStage i tx (.locking pending) with locks := locks } := by
  refine h.setTx (fun _ _ hk => Locks.take_other htake hk) (h.began i tx hi) ?_
    (fun hl => nomatch hl) (fun chat hchat => nomatch hchat)
  intro q hq hpending
  by_cases hqp : q = p
  · rw [hqp]
    exact Locks.take_self htake
  · refine Locks.take_other htake (h.held i tx hi q hq ?_)
    unfold StartTx.pending
    rw [hstage]
    intro hmem
    rcases List.mem_cons.mp hmem with hmem | hmem
    · exact hqp hmem
    · exact hpending hmem

/-- A transaction goes on that waits for no lock any more. -/
theorem Inv.setStage (h : Inv hashtext expirationMs s) {i : ℕ} {tx : StartTx} {stage : StartStage}
    (hi : s.txs i = some tx) (hpending : tx.pending = [])
    (hlooked : ∀ c ∈ s.chats, tx.Meets c → c.createdAt < cutoff expirationMs tx.now)
    (hown : ∀ chat, stage = .inserted chat →
      chat.participants = tx.participants ∧ chat.createdAt = tx.now) :
    Inv hashtext expirationMs (s.setStage i tx stage) := by
  refine h.setTx (fun _ _ hk => hk) (h.began i tx hi) ?_ (fun _ => hlooked) hown
  intro p hp _
  refine h.held i tx hi p hp ?_
  rw [hpending]
  exact List.not_mem_nil

theorem Inv.check (h : Inv hashtext expirationMs s) {i : ℕ} {tx : StartTx} (hi : s.txs i = some tx)
    (hstage : tx.stage = .locking [])
    (hfree : ¬ areUsersBeingCalledOrCallingSomeone s.chats tx.participants expirationMs tx.now = true) :
    Inv hashtext expirationMs (s.setStage i tx .free) := by
  refine h.setStage hi ?_ (fun c hc hmeets => ?_) (fun chat hchat => nomatch hchat)
  · unfold StartTx.pending
    rw [hstage]
  · have hnot := List.any_eq_false.mp (Bool.eq_false_iff.mpr hfree) c hc
    simp only [Bool.decide_and, Bool.and_eq_true, decide_eq_true_eq, not_and] at hnot
    exact lt_of_not_ge fun hge => hnot hge hmeets

theorem Inv.insert (h : Inv hashtext expirationMs s) {i : ℕ} {tx : StartTx} (hi : s.txs i = some tx)
    (hstage : tx.stage = .free) (id : ℕ) :
    Inv hashtext expirationMs (s.setStage i tx (.inserted ⟨id, tx.caller, tx.callee, tx.now⟩)) := by
  refine h.setStage hi ?_ (h.looked i tx hi ?_) fun chat hchat => ?_
  · unfold StartTx.pending
    rw [hstage]
  · unfold StartTx.looked
    rw [hstage]
  · obtain rfl := StartStage.inserted.inj hchat
    exact ⟨rfl, rfl⟩

theorem Inv.step (h : Inv hashtext expirationMs s) {a : CallAction}
    (hstep : s.step lower hashtext expirationMs a = some s') : Inv hashtext expirationMs s' := by
  cases a with
  | tick elapsed =>
    obtain rfl := Option.some.inj hstep
    exact h.tick elapsed
  | begin i caller callee =>
    simp only [CallStore.step] at hstep
    split at hstep
    · cases hstep
    · obtain rfl := Option.some.inj hstep
      exact h.begin i (lower caller) (lower callee)
  | lock i =>
    obtain ⟨tx, hi, hstep⟩ := Option.bind_eq_some_iff.mp hstep
    split at hstep
    · rename_i p pending hstage
      obtain ⟨locks, htake, rfl⟩ := Option.map_eq_some_iff.mp hstep
      exact h.lock hi hstage htake
    · cases hstep
  | check i =>
    obtain ⟨tx, hi, hstep⟩ := Option.bind_eq_some_iff.mp hstep
    split at hstep
    · rename_i hstage
      split at hstep
      · obtain rfl := Option.some.inj hstep
        exact h.finish i
      · rename_i hfree
        obtain rfl := Option.some.inj hstep
        exact h.check hi hstage hfree
    · cases hstep
  | insert i id =>
    obtain ⟨tx, hi, hstep⟩ := Option.bind_eq_some_iff.mp hstep
    split at hstep
    · rename_i hstage
      dsimp only at hstep
      split at hstep
      · obtain rfl := Option.some.inj hstep
        exact h.finish i
      · obtain rfl := Option.some.inj hstep
        exact h.insert hi hstage id
    · cases hstep
  | commit i =>
    obtain ⟨tx, hi, hstep⟩ := Option.bind_eq_some_iff.mp hstep
    split at hstep
    · rename_i chat hstage
      split at hstep
      · obtain rfl := Option.some.inj hstep
        exact h.finish i
      · obtain rfl := Option.some.inj hstep
        exact h.commit hi hstage
    · cases hstep
  | rollback i =>
    obtain ⟨tx, -, rfl⟩ := Option.map_eq_some_iff.mp hstep
    exact h.finish i
  | delete id =>
    obtain rfl := Option.some.inj hstep
    exact h.sublist List.filter_sublist
  | expire limit =>
    obtain rfl := Option.some.inj hstep
    exact h.sublist List.filter_sublist

/-- A row that has not lapsed. -/
def live (expirationMs : ℤ) (s : CallStore) (c : PrivateVoiceChat) : Prop :=
  cutoff expirationMs s.clock ≤ c.createdAt

theorem Inv.not_both_live (h : Inv hashtext expirationMs s) {c d : PrivateVoiceChat}
    (hc : c ∈ s.chats) (hd : d ∈ s.chats) (hapart : Apart expirationMs c d) :
    ¬ (s.live expirationMs c ∧ s.live expirationMs d) := by
  rintro ⟨hlc, hld⟩
  have hcc := h.dated c hc
  have hdd := h.dated d hd
  unfold live cutoff at hlc hld
  unfold Apart cutoff at hapart
  omega

end CallStore

/-- **A user is in at most one live call.** Whatever calls are started, deleted and swept, in whatever
interleaving of their steps, no two committed rows that have not lapsed share a participant. -/
theorem one_live_call (lower : Text → Text) (hashtext : Text → ℤ) (expirationMs : ℤ)
    (steps : List CallAction) (s : CallStore)
    (hrun : Machine.run (CallStore.step lower hashtext expirationMs) CallStore.new steps = some s) :
    s.chats.Pairwise fun c d => c.shares d = true →
      ¬ (s.live expirationMs c ∧ s.live expirationMs d) := by
  have hinv : s.Inv hashtext expirationMs :=
    Machine.run_invariant (P := CallStore.Inv hashtext expirationMs) _
      (fun _ _ _ h hstep => h.step hstep) steps _ s hrun CallStore.inv_new
  refine hinv.apart.imp_of_mem fun hc hd hapart hshares => ?_
  exact hinv.not_both_live hc hd (hapart hshares)

/-- The first to begin gets its locks last and is turned away; a third call starts once the row has
lapsed. -/
def lateLocks : List CallAction :=
  [.begin 0 ['a'] ['b'], .tick 5000, .begin 1 ['b'] ['c'], .lock 1, .lock 1, .check 1, .insert 1 7,
    .commit 1, .lock 0, .lock 0, .check 0, .tick 10001, .begin 2 ['a'] ['b'], .lock 2, .lock 2,
    .check 2, .insert 2 8, .commit 2]

theorem one_live_call_lateLocks :
    ∃ s, Machine.run (CallStore.step id (fun t => t.length) 10) CallStore.new lateLocks = some s ∧
      s.chats = [⟨7, ['b'], ['c'], 5000⟩, ⟨8, ['a'], ['b'], 15001⟩] ∧
      s.chats.Pairwise fun c d => c.shares d = true → ¬ (s.live 10 c ∧ s.live 10 d) := by
  have hrun : (Machine.run (CallStore.step id (fun t => t.length) 10) CallStore.new lateLocks).map
      (fun s => s.chats) = some [⟨7, ['b'], ['c'], 5000⟩, ⟨8, ['a'], ['b'], 15001⟩] := by
    decide
  obtain ⟨s, hs, hchats⟩ := Option.map_eq_some_iff.mp hrun
  exact ⟨s, hs, hchats, one_live_call id (fun t => t.length) 10 lateLocks s hs⟩

end Catalyrst.Social

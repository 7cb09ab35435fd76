import Mathlib
import Catalyrst.Lib.Precedence
import Catalyrst.Social.Membership

/-!
# When the tables of a community agree with its signed actions

The latest action on a wallet decides its tier, and the members and the bans follow from the
tiers. An action that arrives in order mostly keeps it so; one that arrives late or again
edits the tables as if it were the latest. The condition below says for every action in which
states it may be applied, and a run agrees throughout just when it is met throughout.
-/

namespace Catalyrst.Social

open Catalyrst.Lib

/-! ### The statement -/

/-- The wallet whose role changes. -/
def SignedRole.wallet (a : SignedRole) : Address :=
  match a.action with
  | .create | .join | .leave => toAsciiLowercase a.signer
  | .role target _ | .ban target | .unban target => toAsciiLowercase target

/-- The tier that an action gives; a role that does not parse gives none. -/
def RoleAction.grants : RoleAction → Option Tier
  | .create => some .owner
  | .join => some .member
  | .leave | .unban _ => some .none
  | .role _ text => parseRoleTextSuppliedInARequest text
  | .ban _ => some .banned

def SignedRole.entry (a : SignedRole) : Option Entry :=
  a.action.grants.map fun role => ⟨a.signatureHash, a.wallet, role, a.signedAt⟩

/-- A later signature, or the smaller hash at the same time. -/
def Beats (e l : Entry) : Prop :=
  l.signedAt < e.signedAt ∨ l.signedAt = e.signedAt ∧ e.signatureHash < l.signatureHash

def entriesOf (actions : List SignedRole) (w : Address) : Set Entry :=
  {e | (∃ a ∈ actions, a.entry = some e) ∧ e.target = w}

/-- The tier of the entry that no other beats; a wallet without entries has none. -/
def Decided (S : Set Entry) (t : Tier) : Prop :=
  (∃ e ∈ S, Stands Beats S e ∧ e.role = t) ∨ S = ∅ ∧ t = .none

def listed : Tier → Option Tier
  | .owner => some .owner
  | .mod => some .mod
  | .member => some .member
  | .banned | .none => none

/-- The rows of one wallet. -/
structure Rows where
  current : Option CurrentRole
  member : Option Tier
  ban : Option Bool

/-- No row is the same as the tier `none`. -/
def Rows.tier (r : Rows) : Tier := (r.current.map CurrentRole.role).getD .none

structure Rows.Agree (r : Rows) (S : Set Entry) : Prop where
  decided : Decided S r.tier
  member : r.member = listed r.tier
  ban : r.ban = some true ↔ r.tier = .banned

def Community.rows (s : Community) (w : Address) : Rows := ⟨s.current w, s.members w, s.bans w⟩

def Community.Agrees (s : Community) (actions : List SignedRole) : Prop :=
  ∀ w, (s.rows w).Agree (entriesOf actions w)

/-! ### The condition -/

def Community.tier (s : Community) (w : Address) : Tier := (s.rows w).tier

/-- The action is later than every other one on its wallet. -/
def Newest (s : Community) (a : SignedRole) : Prop :=
  ∀ l ∈ s.log, l.target = a.wallet →
    l.signedAt < a.signedAt ∨ l.signedAt = a.signedAt ∧ a.signatureHash < l.signatureHash

def Logged (s : Community) (a : SignedRole) : Prop := ∃ l ∈ s.log, l.signatureHash = a.signatureHash

/-- What the newest action asks of the tier before it. -/
def NewestOk (action : RoleAction) (role tier : Tier) : Prop :=
  match action with
  | .create | .ban _ => True
  | .join => tier = .none ∨ tier = .member
  | .leave => tier ≠ .banned
  | .role _ _ => role ≠ .none ∧ (role = .banned ↔ tier = .banned)
  | .unban _ => tier = .none ∨ tier = .banned

/-- What any other action asks of it, a redelivered one too. -/
def OlderOk (action : RoleAction) (tier : Tier) : Prop :=
  match action with
  | .create => True
  | .join => tier = .owner ∨ tier = .mod ∨ tier = .member
  | .leave | .unban _ => tier = .none
  | .role _ _ => tier ≠ .none
  | .ban _ => tier = .banned

def RoleAction.isRole : RoleAction → Bool
  | .role _ _ => true
  | _ => false

/-- A redelivered role does nothing either to a wallet without a current row. -/
def StepOk (s : Community) (a : SignedRole) : Prop :=
  ∀ role, a.action.grants = some role →
    (Newest s a ∧ NewestOk a.action role (s.tier a.wallet)) ∨
      (¬ Newest s a ∧ (OlderOk a.action (s.tier a.wallet) ∨
        a.action.isRole = true ∧ s.current a.wallet = none ∧ Logged s a))

/-! ### Precedence of entries -/

theorem Beats.trans {e l k : Entry} (h : Beats e l) (h' : Beats l k) : Beats e k := by
  unfold Beats at *
  omega

theorem Beats.irrefl {e : Entry} : ¬ Beats e e := by
  unfold Beats
  omega

theorem beats_total {e l : Entry} (h : e.signatureHash ≠ l.signatureHash) : Beats e l ∨ Beats l e := by
  unfold Beats
  omega

/-- Entries that differ have different hashes. -/
def Comparable (S : Set Entry) : Prop := ∀ e ∈ S, ∀ l ∈ S, e = l ∨ Beats e l ∨ Beats l e

theorem decided_unique {S : Set Entry} (hc : Comparable S) {t t' : Tier} (h : Decided S t)
    (h' : Decided S t') : t = t' := by
  rcases h with ⟨e, he, hstand, rfl⟩ | ⟨hempty, rfl⟩
  · rcases h' with ⟨l, hl, hstand', rfl⟩ | ⟨hempty, -⟩
    · rw [hstand.unique hstand' he hl (hc e he l hl)]
    · rw [hempty] at he
      exact he.elim
  · rcases h' with ⟨l, hl, -⟩ | ⟨-, rfl⟩
    · rw [hempty] at hl
      exact hl.elim
    · rfl

theorem stands_insert {S : Set Entry} {e k : Entry} (hk : Stands Beats S k) (h : ¬ Beats e k) :
    Stands Beats (insert e S) k := by
  rintro l (rfl | hl)
  · exact h
  · exact hk l hl

/-- The newest entry decides. -/
theorem decided_newest {S : Set Entry} {e : Entry} (h : ∀ l ∈ S, Beats e l) :
    Stands Beats (insert e S) e := by
  rintro l (rfl | hl) hb
  · exact Beats.irrefl hb
  · exact Beats.irrefl (hb.trans (h l hl))

/-- What stood goes on standing when the entry that is added is not the newest. -/
theorem stands_of_not_newest {S : Set Entry} {e k : Entry} (hc : Comparable (insert e S))
    (hk : k ∈ S) (hstand : Stands Beats S k) (h : ¬ ∀ l ∈ S, Beats e l) : ¬ Beats e k := by
  intro hb
  refine h fun l hl => ?_
  rcases hc k (.inr hk) l (.inr hl) with rfl | hkl | hlk
  · exact hb
  · exact hb.trans hkl
  · exact absurd hlk (hstand l hl)

theorem decided_insert {S : Set Entry} {e : Entry} (hc : Comparable (insert e S)) {T t : Tier}
    (hT : Decided S T) (h : ¬ ∀ l ∈ S, Beats e l) : Decided (insert e S) t ↔ t = T := by
  obtain ⟨k, hk, hstand, rfl⟩ : ∃ k ∈ S, Stands Beats S k ∧ k.role = T := by
    rcases hT with hT | ⟨rfl, -⟩
    · exact hT
    · exact absurd (fun l hl => hl.elim) h
  have hdecided : Decided (insert e S) k.role :=
    .inl ⟨k, .inr hk, stands_insert hstand (stands_of_not_newest hc hk hstand h), rfl⟩
  exact ⟨fun ht => decided_unique hc ht hdecided, fun ht => ht ▸ hdecided⟩

theorem decided_insert_newest {S : Set Entry} {e : Entry} (hc : Comparable (insert e S)) {t : Tier}
    (h : ∀ l ∈ S, Beats e l) : Decided (insert e S) t ↔ t = e.role := by
  have hdecided : Decided (insert e S) e.role := .inl ⟨e, .inl rfl, decided_newest h, rfl⟩
  exact ⟨fun ht => decided_unique hc ht hdecided, fun ht => ht ▸ hdecided⟩

/-! ### One step on the rows of a wallet -/

def Entry.row (e : Entry) : CurrentRole := ⟨e.role, e.signedAt, e.signatureHash⟩

/-- The rows after an action, from the current role that the log left. -/
def Rows.after (r : Rows) (action : RoleAction) (current : Option CurrentRole) : Rows :=
  match action with
  | .create => r
  | .join => ⟨current, some (r.member.getD .member), r.ban⟩
  | .leave => ⟨none, none, r.ban⟩
  | .role _ _ =>
    match current with
    | none => ⟨none, r.member, r.ban⟩
    | some row => ⟨some row, if row.role = .banned then none else some row.role, r.ban⟩
  | .ban _ => ⟨current, none, some true⟩
  | .unban _ => ⟨none, r.member, r.ban.map fun _ => false⟩

section Steps

variable {s : Community} {a : SignedRole} {e : Entry}

theorem insertLog_current_other {w : Address} (h : w ≠ e.target) :
    (s.insertLog e).current w = s.current w := by
  unfold Community.insertLog crlApplyToCurrent
  split
  · rfl
  · dsimp only
    split
    · rfl
    · exact Function.update_of_ne h _ _

theorem insertLog_rest : (s.insertLog e).created = s.created ∧ (s.insertLog e).members = s.members ∧
    (s.insertLog e).bans = s.bans := by
  unfold Community.insertLog
  split <;> exact ⟨rfl, rfl, rfl⟩

theorem mem_insertLog {l : Entry} (h : ∀ k ∈ s.log, k.signatureHash = e.signatureHash → k = e) :
    l ∈ (s.insertLog e).log ↔ l ∈ s.log ∨ l = e := by
  unfold Community.insertLog
  split
  · rename_i hany
    obtain ⟨k, hk, hhash⟩ := List.any_eq_true.mp hany
    have heq := h k hk (by simpa using hhash)
    refine (or_iff_left_of_imp ?_).symm
    rintro rfl
    exact heq ▸ hk
  · simp

theorem entry_eq (he : a.entry = some e) :
    ∃ role, a.action.grants = some role ∧ e = ⟨a.signatureHash, a.wallet, role, a.signedAt⟩ := by
  obtain ⟨role, hrole, heq⟩ := Option.map_eq_some_iff.mp he
  exact ⟨role, hrole, heq.symm⟩

/-- What an action that is not refused does to the tables. -/
theorem step_eq (hcreated : s.created = true) (hcreate : a.action ≠ .create) (he : a.entry = some e) :
    (s.step a).log = (s.insertLog e).log ∧ (s.step a).created = true ∧
      (s.step a).rows a.wallet = (s.rows a.wallet).after a.action ((s.insertLog e).current a.wallet) ∧
      ∀ w ≠ a.wallet, (s.step a).rows w = s.rows w := by
  obtain ⟨role, hrole, rfl⟩ := entry_eq he
  obtain ⟨hc, hm, hb⟩ := insertLog_rest (s := s) (e := ⟨a.signatureHash, a.wallet, role, a.signedAt⟩)
  have hother : ∀ w ≠ a.wallet, (s.insertLog ⟨a.signatureHash, a.wallet, role, a.signedAt⟩).current w =
      s.current w := fun w hw => insertLog_current_other hw
  unfold Community.step applyRoleAction
  cases haction : a.action with
  | create => exact absurd haction hcreate
  | join =>
    simp only [RoleAction.grants, SignedRole.wallet, haction, Option.some.injEq] at *
    subst hrole
    refine ⟨?_, ?_, ?_, fun w hw => ?_⟩ <;>
      simp_all [applyJoin, Community.insertMember, Community.rows, Rows.after]
  | leave =>
    simp only [RoleAction.grants, SignedRole.wallet, haction, Option.some.injEq] at *
    subst hrole
    refine ⟨?_, ?_, ?_, fun w hw => ?_⟩ <;>
      simp_all [applyLeave, Community.deleteMember, Community.deleteCurrent, Community.rows, Rows.after]
  | role target text =>
    simp only [RoleAction.grants, SignedRole.wallet, haction] at *
    simp only [applyRole, hrole]
    cases hcurrent : (s.insertLog ⟨a.signatureHash, toAsciiLowercase target, role, a.signedAt⟩).current
        (toAsciiLowercase target) with
    | none =>
      refine ⟨rfl, hc.trans hcreated, ?_, fun w hw => ?_⟩ <;>
        simp_all [Community.rows, Rows.after]
    | some row =>
      by_cases hbanned : row.role = .banned
      · refine ⟨?_, ?_, ?_, fun w hw => ?_⟩ <;>
          simp_all [Community.deleteMember, Community.rows, Rows.after]
      · refine ⟨?_, ?_, ?_, fun w hw => ?_⟩ <;>
          simp_all [Community.upsertMember, Community.rows, Rows.after]
  | ban target =>
    simp only [RoleAction.grants, SignedRole.wallet, haction, Option.some.injEq] at *
    subst hrole
    refine ⟨?_, ?_, ?_, fun w hw => ?_⟩ <;>
      simp_all [applyBan, Community.deleteMember, Community.activateBan, Community.rows, Rows.after]
  | unban target =>
    simp only [RoleAction.grants, SignedRole.wallet, haction, Option.some.injEq] at *
    subst hrole
    refine ⟨?_, ?_, ?_, fun w hw => ?_⟩ <;>
      simp_all [applyUnban, Community.deactivateBan, Community.deleteCurrent, Community.rows, Rows.after]

end Steps

/-! ### The trigger -/

/-- The rows of a wallet agree with its entries, and the current row is that of the latest. -/
structure Rows.Inv (r : Rows) (S : Set Entry) : Prop extends r.Agree S where
  row : ∀ row, r.current = some row → ∃ e ∈ S, Stands Beats S e ∧ row = e.row

section Trigger

variable {s : Community} {e : Entry} {S : Set Entry}

theorem insertLog_current (hfresh : ∀ l ∈ s.log, l.signatureHash ≠ e.signatureHash) :
    (s.insertLog e).current e.target =
      if (s.current e.target).any fun prev => e.signedAt < prev.effectiveSince ∨
        prev.effectiveSince = e.signedAt ∧ prev.lastSigHash < e.signatureHash
      then s.current e.target else some e.row := by
  unfold Community.insertLog crlApplyToCurrent
  rw [if_neg (by simpa using hfresh)]
  dsimp only
  split
  · rfl
  · exact Function.update_self _ _ _

theorem insertLog_logged (h : ∃ l ∈ s.log, l.signatureHash = e.signatureHash) : s.insertLog e = s := by
  unfold Community.insertLog
  rw [if_pos (by simpa using h)]

/-- The newest entry is written. -/
theorem insertLog_newest (hinv : (s.rows e.target).Inv S)
    (hfresh : ∀ l ∈ s.log, l.signatureHash ≠ e.signatureHash) (h : ∀ l ∈ S, Beats e l) :
    (s.insertLog e).current e.target = some e.row := by
  rw [insertLog_current hfresh]
  cases hcurrent : s.current e.target with
  | none => rfl
  | some row =>
    obtain ⟨k, hk, -, rfl⟩ := hinv.row row hcurrent
    have hbeats := h k hk
    unfold Beats at hbeats
    refine if_neg ?_
    simp only [Option.any_some, Entry.row, decide_eq_true_eq]
    omega

/-- Any other entry is written only where there is no row. -/
theorem insertLog_older (hinv : (s.rows e.target).Inv S) (hc : Comparable (insert e S))
    (hlog : ∀ l ∈ S, l ∈ s.log) (h : ¬ ∀ l ∈ S, Beats e l) :
    ((s.insertLog e).current e.target = s.current e.target ∧
        (s.current e.target = none → ∃ l ∈ s.log, l.signatureHash = e.signatureHash)) ∨
      s.current e.target = none ∧ (¬ ∃ l ∈ s.log, l.signatureHash = e.signatureHash) ∧
        (s.insertLog e).current e.target = some e.row := by
  by_cases hlogged : ∃ l ∈ s.log, l.signatureHash = e.signatureHash
  · rw [insertLog_logged hlogged]
    exact .inl ⟨rfl, fun _ => hlogged⟩
  have hfresh : ∀ l ∈ s.log, l.signatureHash ≠ e.signatureHash :=
    fun l hl hhash => hlogged ⟨l, hl, hhash⟩
  rw [insertLog_current hfresh]
  cases hcurrent : s.current e.target with
  | none => exact .inr ⟨rfl, hlogged, by simp⟩
  | some row =>
    obtain ⟨k, hk, hstand, rfl⟩ := hinv.row row hcurrent
    have hnot := stands_of_not_newest hc hk hstand h
    have hhash := hfresh k (hlog k hk)
    unfold Beats at hnot
    refine .inl ⟨if_pos ?_, fun hnone => nomatch hnone⟩
    simp only [Option.any_some, Entry.row, decide_eq_true_eq]
    omega

end Trigger

/-! ### One step agrees -/

theorem agree_iff {r : Rows} {S : Set Entry} {T : Tier} (h : ∀ t, Decided S t ↔ t = T) :
    r.Agree S ↔ r.tier = T ∧ r.member = listed T ∧ (r.ban = some true ↔ T = .banned) := by
  constructor
  · intro hagree
    obtain rfl := (h _).mp hagree.decided
    exact ⟨rfl, hagree.member, hagree.ban⟩
  · rintro ⟨rfl, hm, hb⟩
    exact ⟨(h _).mpr rfl, hm, hb⟩

section Local

variable {r : Rows} {S : Set Entry} {e : Entry}

theorem after_newest (hinv : r.Inv S) (hc : Comparable (insert e S)) (h : ∀ l ∈ S, Beats e l)
    {action : RoleAction} (haction : action ≠ .create) (hrole : action.grants = some e.role) :
    (r.after action (some e.row)).Agree (insert e S) ↔ NewestOk action e.role r.tier := by
  rw [agree_iff fun t => decided_insert_newest hc h]
  have hm := hinv.member
  have hb := hinv.ban
  generalize r.tier = T at hm hb ⊢
  cases action with
  | create => exact absurd rfl haction
  | join =>
    have hmember : e.role = .member := (Option.some.inj hrole).symm
    cases T <;> simp [Rows.after, Rows.tier, Entry.row, NewestOk, listed, hmember, hm, hb]
  | leave =>
    have hnone : e.role = .none := (Option.some.inj hrole).symm
    cases T <;> simp [Rows.after, Rows.tier, NewestOk, listed, hnone, hb]
  | role target text =>
    cases hr : e.role <;> cases T <;>
      simp [Rows.after, Rows.tier, Entry.row, NewestOk, listed, hr, hb]
  | ban target =>
    have hbanned : e.role = .banned := (Option.some.inj hrole).symm
    simp [Rows.after, Rows.tier, Entry.row, NewestOk, listed, hbanned]
  | unban target =>
    have hnone : e.role = .none := (Option.some.inj hrole).symm
    cases T <;> simp [Rows.after, Rows.tier, NewestOk, listed, hnone, hm]

/-- The current row stays as it was. -/
theorem after_older (hinv : r.Inv S) {S' : Set Entry} (hD : ∀ t, Decided S' t ↔ t = r.tier)
    {action : RoleAction} (haction : action ≠ .create) :
    (r.after action r.current).Agree S' ↔
      OlderOk action r.tier ∨ action.isRole = true ∧ r.current = none := by
  rw [agree_iff hD]
  have hm := hinv.member
  have hb := hinv.ban
  cases action with
  | create => exact absurd rfl haction
  | join =>
    have htier : (r.after .join r.current).tier = r.tier := rfl
    rw [htier]
    generalize r.tier = T at hm hb ⊢
    cases T <;> simp [Rows.after, OlderOk, RoleAction.isRole, listed, hm, hb]
  | leave =>
    generalize r.tier = T at hm hb ⊢
    cases T <;> simp [Rows.after, Rows.tier, OlderOk, RoleAction.isRole, listed, hb]
  | role target text =>
    cases hcurrent : r.current with
    | none =>
      have htier : r.tier = .none := by simp [Rows.tier, hcurrent]
      rw [htier] at hm hb ⊢
      simp [Rows.after, Rows.tier, RoleAction.isRole, hm, hb]
    | some row =>
      have htier : r.tier = row.role := by simp [Rows.tier, hcurrent]
      rw [htier] at hm hb ⊢
      cases hr : row.role <;> simp [Rows.after, Rows.tier, OlderOk, listed, hr, hb]
  | ban target =>
    have htier : (r.after (.ban target) r.current).tier = r.tier := rfl
    rw [htier]
    generalize r.tier = T at hm hb ⊢
    cases T <;> simp [Rows.after, OlderOk, RoleAction.isRole, listed]
  | unban target =>
    generalize r.tier = T at hm hb ⊢
    cases T <;> simp [Rows.after, Rows.tier, OlderOk, RoleAction.isRole, listed, hm]

/-- The row of an older action is written where there was none. -/
theorem after_written (hinv : r.Inv S) (hnone : r.current = none) {S' : Set Entry}
    (hD : ∀ t, Decided S' t ↔ t = r.tier) {action : RoleAction} (haction : action ≠ .create)
    (hrole : action.grants = some e.role) :
    (r.after action (some e.row)).Agree S' ↔ OlderOk action r.tier := by
  have htier : r.tier = .none := by simp [Rows.tier, hnone]
  have hm := hinv.member
  have hb := hinv.ban
  rw [htier] at hm hb hD ⊢
  rw [agree_iff hD]
  cases action with
  | create => exact absurd rfl haction
  | join =>
    have hmember : e.role = .member := (Option.some.inj hrole).symm
    simp [Rows.after, Rows.tier, Entry.row, OlderOk, hmember]
  | role target text =>
    cases hr : e.role <;> simp [Rows.after, Rows.tier, Entry.row, OlderOk, listed, hr]
  | ban target =>
    have hbanned : e.role = .banned := (Option.some.inj hrole).symm
    simp [Rows.after, Rows.tier, Entry.row, OlderOk, hbanned]
  | leave | unban target => simp [Rows.after, Rows.tier, OlderOk, listed, hm, hb]

end Local

/-! ### Runs -/

/-- Actions with one hash are one action. -/
def Distinct (actions : List SignedRole) : Prop :=
  ∀ a ∈ actions, ∀ b ∈ actions, a.signatureHash = b.signatureHash → a = b

structure Community.Inv (s : Community) (done : List SignedRole) : Prop where
  created : s.created = true
  log : ∀ e, e ∈ s.log ↔ ∃ a ∈ done, a.entry = some e
  rows : ∀ w, (s.rows w).Inv (entriesOf done w)

section Runs

variable {s : Community} {a : SignedRole} {e : Entry} {done : List SignedRole}

theorem entriesOf_other {w : Address} (h : ∀ e, a.entry = some e → e.target ≠ w ∨ a ∈ done) :
    entriesOf (done ++ [a]) w = entriesOf done w := by
  ext e
  simp only [entriesOf, List.mem_append, List.mem_singleton, Set.mem_ofPred_eq]
  constructor
  · rintro ⟨⟨b, hb | rfl, he⟩, rfl⟩
    · exact ⟨⟨b, hb, he⟩, rfl⟩
    · rcases h e he with hne | hdone
      · exact absurd rfl hne
      · exact ⟨⟨_, hdone, he⟩, rfl⟩
  · rintro ⟨⟨b, hb, he⟩, rfl⟩
    exact ⟨⟨b, .inl hb, he⟩, rfl⟩

theorem entriesOf_wallet (he : a.entry = some e) :
    entriesOf (done ++ [a]) e.target = insert e (entriesOf done e.target) := by
  ext l
  simp only [entriesOf, List.mem_append, List.mem_singleton, Set.mem_ofPred_eq, Set.mem_insert_iff]
  constructor
  · rintro ⟨⟨b, hb | rfl, hl⟩, hw⟩
    · exact .inr ⟨⟨b, hb, hl⟩, hw⟩
    · exact .inl (Option.some.inj (hl.symm.trans he))
  · rintro (rfl | ⟨⟨b, hb, hl⟩, hw⟩)
    · exact ⟨⟨a, .inr rfl, he⟩, rfl⟩
    · exact ⟨⟨b, .inl hb, hl⟩, hw⟩

theorem comparable_of_distinct {actions : List SignedRole} (h : Distinct actions) (w : Address) :
    Comparable (entriesOf actions w) := by
  rintro e ⟨⟨a, ha, hea⟩, -⟩ l ⟨⟨b, hb, hlb⟩, -⟩
  by_cases hhash : e.signatureHash = l.signatureHash
  · obtain ⟨_, -, rfl⟩ := entry_eq hea
    obtain ⟨_, -, rfl⟩ := entry_eq hlb
    obtain rfl := h a ha b hb hhash
    exact .inl (Option.some.inj (hea.symm.trans hlb))
  · exact .inr (beats_total hhash)

theorem newest_iff (hinv : s.Inv done) (he : a.entry = some e) :
    Newest s a ↔ ∀ l ∈ entriesOf done e.target, Beats e l := by
  obtain ⟨role, -, rfl⟩ := entry_eq he
  constructor
  · rintro h l ⟨hl, htarget⟩
    exact h l ((hinv.log l).mpr hl) htarget
  · intro h l hl htarget
    exact h l ⟨(hinv.log l).mp hl, htarget⟩

/-- An action that is refused. -/
theorem step_refused (hinv : s.Inv done) (hcreate : a.action = .create → a ∈ done)
    (h : a.action = .create ∨ a.action.grants = none) :
    s.step a = s ∧ (∀ w, entriesOf (done ++ [a]) w = entriesOf done w) ∧ StepOk s a := by
  rcases h with h | h
  · refine ⟨by simp [Community.step, applyRoleAction, h, applyCreate, hinv.created],
      fun w => entriesOf_other fun e _ => .inr (hcreate h), fun role _ => ?_⟩
    by_cases hnewest : Newest s a
    · exact .inl ⟨hnewest, by simp [NewestOk, h]⟩
    · exact .inr ⟨hnewest, .inl (by simp [OlderOk, h])⟩
  · have hentry : a.entry = none := by simp [SignedRole.entry, h]
    refine ⟨?_, fun w => entriesOf_other fun e he => ?_, fun role hrole => ?_⟩
    · cases haction : a.action with
      | role target text =>
        rw [haction] at h
        simp [Community.step, applyRoleAction, haction, applyRole, show
          parseRoleTextSuppliedInARequest text = none from h]
      | _ => simp [haction, RoleAction.grants] at h
    · rw [hentry] at he
      cases he
    · rw [h] at hrole
      cases hrole

theorem after_current {r : Rows} {action : RoleAction} (haction : action ≠ .create)
    {current : Option CurrentRole} {row : CurrentRole} (h : (r.after action current).current = some row) :
    current = some row := by
  cases action with
  | create => exact absurd rfl haction
  | role target text =>
    cases current with
    | none => exact absurd h (by simp [Rows.after])
    | some _ => exact h
  | join | ban target => exact h
  | leave | unban target => exact absurd h (by simp [Rows.after])

theorem stepOk_iff {role : Tier} (hrole : a.action.grants = some role) :
    StepOk s a ↔ (Newest s a ∧ NewestOk a.action role (s.tier a.wallet)) ∨
      (¬ Newest s a ∧ (OlderOk a.action (s.tier a.wallet) ∨
        a.action.isRole = true ∧ s.current a.wallet = none ∧ Logged s a)) := by
  refine ⟨fun h => h role hrole, fun h role' hrole' => ?_⟩
  obtain rfl := Option.some.inj (hrole.symm.trans hrole')
  exact h

/-- The rows of the wallet itself: by whether the action is the newest, and then by what the
trigger did. -/
theorem wallet_agrees (hinv : s.Inv done) (hd : Distinct (done ++ [a])) (haction : a.action ≠ .create)
    (he : a.entry = some e) (hhash : ∀ l ∈ s.log, l.signatureHash = e.signatureHash → l = e) :
    let r := (s.rows a.wallet).after a.action ((s.insertLog e).current a.wallet)
    (r.Agree (insert e (entriesOf done a.wallet)) ↔ StepOk s a) ∧
      (StepOk s a → r.Inv (insert e (entriesOf done a.wallet))) := by
  have hnewest := newest_iff hinv he
  have hwhole := comparable_of_distinct hd e.target
  rw [entriesOf_wallet he] at hwhole
  obtain ⟨role, hrole, heq⟩ := entry_eq he
  have htarget : e.target = a.wallet := by rw [heq]
  have hgrants : a.action.grants = some e.role := by rw [hrole, heq]
  have hrows := hinv.rows e.target
  dsimp only
  rw [stepOk_iff hgrants, hnewest, ← htarget]
  by_cases h : ∀ l ∈ entriesOf done e.target, Beats e l
  · have hfresh : ∀ l ∈ s.log, l.signatureHash ≠ e.signatureHash := by
      intro l hl hsame
      obtain rfl := hhash l hl hsame
      exact Beats.irrefl (h _ ⟨(hinv.log _).mp hl, rfl⟩)
    have hcurrent := insertLog_newest hrows hfresh h
    have hiff := after_newest hrows hwhole h haction hgrants
    simp only [eq_true h, true_and, not_true_eq_false, false_and, or_false]
    rw [hcurrent]
    refine ⟨hiff, fun hok => ⟨hiff.mpr hok, fun row hrow => ?_⟩⟩
    obtain rfl := Option.some.inj (after_current haction hrow)
    exact ⟨e, .inl rfl, decided_newest h, rfl⟩
  · have hD := fun t => decided_insert (t := t) hwhole hrows.decided h
    have hlogged : Logged s a ↔ ∃ l ∈ s.log, l.signatureHash = e.signatureHash := by
      rw [heq]
      rfl
    simp only [eq_false h, false_and, not_false_eq_true, true_and, false_or]
    rcases insertLog_older hrows hwhole (fun l hl => (hinv.log l).mpr hl.1) h with
      ⟨hcurrent, hnone⟩ | ⟨hnone, hfresh, hcurrent⟩
    · have hiff := after_older hrows hD haction
      rw [hcurrent]
      have hcond : (OlderOk a.action (s.tier e.target) ∨ a.action.isRole = true ∧
          s.current e.target = none ∧ Logged s a) ↔ OlderOk a.action (s.tier e.target) ∨
          a.action.isRole = true ∧ s.current e.target = none := by
        rw [and_iff_left_of_imp fun hc => hlogged.mpr (hnone hc)]
      rw [hcond]
      refine ⟨hiff, fun hok => ⟨hiff.mpr hok, fun row hrow => ?_⟩⟩
      obtain ⟨k, hk, hstand, rfl⟩ := hrows.row row (after_current haction hrow)
      exact ⟨k, .inr hk, stands_insert hstand (stands_of_not_newest hwhole hk hstand h), rfl⟩
    · have hiff := after_written hrows hnone hD haction hgrants
      rw [hcurrent]
      have hcond : (OlderOk a.action (s.tier e.target) ∨ a.action.isRole = true ∧
          s.current e.target = none ∧ Logged s a) ↔ OlderOk a.action (s.tier e.target) :=
        or_iff_left fun hc => hfresh (hlogged.mp hc.2.2)
      rw [hcond]
      refine ⟨hiff, fun hok => ⟨hiff.mpr hok, fun row hrow => ?_⟩⟩
      -- the tier is `none`, so that only a leave or an unban is left, and these delete the row
      have htier : s.tier e.target = .none := by simp [Community.tier, Rows.tier, Community.rows, hnone]
      rw [htier] at hok
      exact absurd hrow (by cases ha : a.action <;> simp_all [OlderOk, Rows.after])

/-- One action keeps the tables in agreement just when the condition is met. -/
theorem step_agrees (hinv : s.Inv done) (hd : Distinct (done ++ [a]))
    (hcreate : a.action = .create → a ∈ done) :
    ((s.step a).Agrees (done ++ [a]) ↔ StepOk s a) ∧ (StepOk s a → (s.step a).Inv (done ++ [a])) := by
  by_cases hrefused : a.action = .create ∨ a.action.grants = none
  · obtain ⟨hstep, hentries, hok⟩ := step_refused hinv hcreate hrefused
    have hinv' : (s.step a).Inv (done ++ [a]) := by
      rw [hstep]
      refine ⟨hinv.created, fun e => ?_, fun w => by rw [hentries]; exact hinv.rows w⟩
      have hset := Set.ext_iff.mp (hentries e.target) e
      simp only [entriesOf, Set.mem_ofPred_eq, and_true] at hset
      rw [hinv.log, hset]
    exact ⟨iff_of_true (fun w => (hinv'.rows w).toAgree) hok, fun _ => hinv'⟩
  rw [not_or] at hrefused
  obtain ⟨role, hrole⟩ := Option.ne_none_iff_exists'.mp hrefused.2
  have he : a.entry = some ⟨a.signatureHash, a.wallet, role, a.signedAt⟩ := by
    rw [SignedRole.entry, hrole]
    rfl
  have hhash : ∀ l ∈ s.log, l.signatureHash = a.signatureHash →
      l = ⟨a.signatureHash, a.wallet, role, a.signedAt⟩ := by
    intro l hl hsame
    obtain ⟨b, hb, hlb⟩ := (hinv.log l).mp hl
    obtain ⟨_, -, rfl⟩ := entry_eq hlb
    obtain rfl := hd b (List.mem_append_left _ hb) a (List.mem_append_right _ (List.mem_singleton_self a))
      hsame
    exact Option.some.inj (hlb.symm.trans he)
  obtain ⟨hlog, hcreated, hself, hother⟩ := step_eq hinv.created hrefused.1 he
  obtain ⟨hagree, hrows⟩ := wallet_agrees hinv hd hrefused.1 he hhash
  have hentries : ∀ w ≠ a.wallet, entriesOf (done ++ [a]) w = entriesOf done w := by
    intro w hw
    refine entriesOf_other fun e hea => .inl ?_
    obtain rfl := Option.some.inj (he.symm.trans hea)
    exact hw.symm
  have hwallet : entriesOf (done ++ [a]) a.wallet =
      insert ⟨a.signatureHash, a.wallet, role, a.signedAt⟩ (entriesOf done a.wallet) :=
    entriesOf_wallet he
  rw [← hself, ← hwallet] at hagree hrows
  refine ⟨⟨fun h => hagree.mp (h a.wallet), fun hok w => ?_⟩,
    fun hok => ⟨hcreated, fun e => ?_, fun w => ?_⟩⟩
  · by_cases hw : w = a.wallet
    · exact hw ▸ hagree.mpr hok
    · rw [hother w hw, hentries w hw]
      exact (hinv.rows w).toAgree
  · rw [hlog, mem_insertLog hhash, hinv.log]
    constructor
    · rintro (⟨b, hb, hbe⟩ | rfl)
      · exact ⟨b, List.mem_append_left _ hb, hbe⟩
      · exact ⟨a, List.mem_append_right _ (List.mem_singleton_self a), he⟩
    · rintro ⟨b, hb, hbe⟩
      rcases List.mem_append.mp hb with hb | hb
      · exact .inl ⟨b, hb, hbe⟩
      · obtain rfl := List.mem_singleton.mp hb
        exact .inr (Option.some.inj (hbe.symm.trans he))
  · by_cases hw : w = a.wallet
    · exact hw ▸ hrows hok
    · rw [hother w hw, hentries w hw]
      exact hinv.rows w

theorem inv_create {c : SignedRole} (hc : c.action = .create) : (Community.empty.step c).Inv [c] := by
  have hentry : c.entry = some ⟨c.signatureHash, c.wallet, .owner, c.signedAt⟩ := by
    simp [SignedRole.entry, hc, RoleAction.grants]
  have hwallet : c.wallet = toAsciiLowercase c.signer := by simp [SignedRole.wallet, hc]
  have hstep : Community.empty.step c = ⟨true, [⟨c.signatureHash, c.wallet, .owner, c.signedAt⟩],
      Function.update (fun _ => none) c.wallet (some ⟨.owner, c.signedAt, c.signatureHash⟩),
      Function.update (fun _ => none) c.wallet (some .owner), fun _ => none⟩ := by
    simp [Community.step, applyRoleAction, hc, applyCreate, Community.empty, Community.insertLog,
      crlApplyToCurrent, Community.insertMember, hwallet]
  have hset : ∀ w, entriesOf [c] w = if w = c.wallet
      then {⟨c.signatureHash, c.wallet, .owner, c.signedAt⟩} else ∅ := by
    intro w
    ext e
    split
    · rename_i hw
      subst hw
      simp only [entriesOf, List.mem_singleton, exists_eq_left, hentry, Set.mem_ofPred_eq,
        Option.some.injEq, Set.mem_singleton_iff]
      exact ⟨fun h => h.1.symm, fun h => ⟨h.symm, h ▸ rfl⟩⟩
    · rename_i hw
      simp only [entriesOf, List.mem_singleton, exists_eq_left, hentry, Set.mem_ofPred_eq,
        Option.some.injEq, Set.mem_empty_iff_false, iff_false, not_and]
      rintro rfl rfl
      exact hw rfl
  rw [hstep]
  refine ⟨rfl, fun e => by simp [hentry, eq_comm], fun w => ?_⟩
  rw [hset w]
  by_cases hw : w = c.wallet
  · subst hw
    have hstand : Stands Beats {(⟨c.signatureHash, c.wallet, .owner, c.signedAt⟩ : Entry)}
        ⟨c.signatureHash, c.wallet, .owner, c.signedAt⟩ := by
      rintro l rfl
      exact Beats.irrefl
    rw [if_pos rfl]
    refine ⟨⟨.inl ⟨_, rfl, hstand, by simp [Community.rows, Rows.tier]⟩, ?_, ?_⟩, fun row hrow => ?_⟩
    · simp [Community.rows, Rows.tier, listed]
    · simp [Community.rows, Rows.tier]
    · refine ⟨_, rfl, hstand, ?_⟩
      simpa [Community.rows, Entry.row, eq_comm] using hrow
  · rw [if_neg hw]
    refine ⟨⟨.inr ⟨rfl, ?_⟩, ?_, ?_⟩, fun row hrow => ?_⟩
    · simp [Community.rows, Rows.tier, Function.update_of_ne hw]
    · simp [Community.rows, Rows.tier, Function.update_of_ne hw, listed]
    · simp [Community.rows, Rows.tier, Function.update_of_ne hw]
    · simp [Community.rows, Function.update_of_ne hw] at hrow

/-- By induction on the actions that are left: the first one that breaks the condition breaks
the agreement. -/
theorem run_agrees (rest : List SignedRole) (hinv : s.Inv done) (hd : Distinct (done ++ rest))
    (hcreate : ∀ a ∈ rest, a.action = .create → a ∈ done) :
    (∀ pre, pre <+: rest → (s.run pre).Agrees (done ++ pre)) ↔
      ∀ pre a, pre ++ [a] <+: rest → StepOk (s.run pre) a := by
  induction rest generalizing s done with
  | nil =>
    refine iff_of_true (fun pre hpre => ?_) fun pre a hpre => ?_
    · obtain rfl := List.prefix_nil.mp hpre
      rw [List.append_nil]
      exact fun w => (hinv.rows w).toAgree
    · exact absurd (List.prefix_nil.mp hpre) (by simp)
  | cons a rest ih =>
    have hd' : Distinct ((done ++ [a]) ++ rest) := by rwa [List.append_assoc]
    have hd₁ : Distinct (done ++ [a]) := by
      intro b hb b' hb' hhash
      exact hd' b (List.mem_append_left _ hb) b' (List.mem_append_left _ hb') hhash
    rw [List.forall_mem_cons] at hcreate
    obtain ⟨hagree, hnext⟩ := step_agrees hinv hd₁ hcreate.1
    have hcreate' : ∀ b ∈ rest, b.action = .create → b ∈ done ++ [a] :=
      fun b hb hbc => List.mem_append_left _ (hcreate.2 b hb hbc)
    constructor
    · intro h
      have hok : StepOk s a := hagree.mp (h [a] (by simp))
      have hrest := (ih (hnext hok) hd' hcreate').mp fun pre hpre => by
        have := h (a :: pre) (by simpa using hpre)
        rwa [List.append_cons] at this
      rintro (_ | ⟨b, pre⟩) a' hpre
      · obtain rfl : a' = a := by simpa using hpre
        exact hok
      · obtain ⟨rfl, htail⟩ : b = a ∧ pre ++ [a'] <+: rest := by simpa using hpre
        exact hrest pre a' htail
    · intro h
      have hok : StepOk s a := h [] a (by simp)
      have hrest := (ih (hnext hok) hd' hcreate').mpr fun pre a' hpre =>
        h (a :: pre) a' (by simpa using hpre)
      rintro (_ | ⟨b, pre⟩) hpre
      · rw [List.append_nil]
        exact fun w => (hinv.rows w).toAgree
      · obtain ⟨rfl, htail⟩ : b = a ∧ pre <+: rest := by simpa using hpre
        rw [List.append_cons]
        exact hrest pre htail

end Runs

/-- A community is created and any actions on it follow, in any order and with repetitions: the
tables agree with the actions all along just when every action is applied under the condition. -/
theorem membership_agrees_iff (c : SignedRole) (rest : List SignedRole) (hc : c.action = .create)
    (hd : Distinct (c :: rest)) (hcreate : ∀ a ∈ rest, a.action = .create → a = c) :
    (∀ pre, pre <+: rest → (Community.empty.run (c :: pre)).Agrees (c :: pre)) ↔
      ∀ pre a, pre ++ [a] <+: rest → StepOk (Community.empty.run (c :: pre)) a :=
  run_agrees rest (inv_create hc) hd fun a ha hac => List.mem_singleton.mpr (hcreate a ha hac)

namespace Sample

def create : SignedRole := ⟨.create, ['a'], 0, 1⟩
def join : SignedRole := ⟨.join, ['b'], 2, 2⟩
def promote : SignedRole := ⟨.role ['b'] ['m', 'o', 'd'], ['a'], 3, 3⟩
def leave : SignedRole := ⟨.leave, ['b'], 1, 4⟩

end Sample

theorem membership_agrees_iff_promote :
    Distinct [Sample.create, Sample.join, Sample.promote] ∧
      ∀ pre, pre <+: [Sample.join, Sample.promote] →
        (Community.empty.run (Sample.create :: pre)).Agrees (Sample.create :: pre) := by
  have hd : Distinct [Sample.create, Sample.join, Sample.promote] := by
    unfold Distinct
    decide
  refine ⟨hd, (membership_agrees_iff Sample.create [Sample.join, Sample.promote] rfl hd ?_).mpr ?_⟩
  · decide
  · rintro (_ | ⟨b, _ | ⟨b', pre⟩⟩) a hpre
    · obtain rfl : a = Sample.join := by simpa using hpre
      exact (stepOk_iff rfl).mpr (.inl ⟨by unfold Newest; decide, .inl (by decide)⟩)
    · obtain ⟨rfl, rfl⟩ : b = Sample.join ∧ a = Sample.promote := by simpa using hpre
      exact (stepOk_iff rfl).mpr (.inl ⟨by unfold Newest; decide, by decide, by decide⟩)
    · simp at hpre

/-- A leave that was signed before the join arrives after it. -/
theorem late_leave :
    ¬ (Community.empty.run [Sample.create, Sample.join, Sample.leave]).Agrees
      [Sample.create, Sample.join, Sample.leave] := by
  intro h
  have hd : Distinct [Sample.create, Sample.join, Sample.leave] := by
    unfold Distinct
    decide
  have hmember : Decided (entriesOf [Sample.create, Sample.join, Sample.leave] ['b']) .member := by
    refine .inl ⟨⟨2, ['b'], .member, 2⟩, ⟨⟨Sample.join, by decide, rfl⟩, rfl⟩, ?_, rfl⟩
    rintro l ⟨⟨a, ha, hl⟩, htarget⟩
    simp only [List.mem_cons, List.not_mem_nil, or_false] at ha
    rcases ha with rfl | rfl | rfl <;> obtain rfl := Option.some.inj hl
    · exact absurd htarget (by decide)
    · exact Beats.irrefl
    · simp [Beats, Sample.leave]
  have hnone := (h ['b']).decided
  exact absurd (decided_unique (comparable_of_distinct hd _) hmember hnone) (by decide)

end Catalyrst.Social

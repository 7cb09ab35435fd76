import Mathlib
import Catalyrst.Lib.Procs
import Catalyrst.Places.Interactions

/-!
# When favourites and votes converge

The rows of a signer are what the action that was passed last asks for, and the counters what
the call that stored last had counted. Both are right where the last action is as good as the
latest one, and where no row is written between counting and storing.
-/

namespace Catalyrst.Places

open Catalyrst.Lib

/-! ### Rows and actions -/

inductive Kind where
  | favorite
  | vote
  deriving DecidableEq

def SignedPlaceAction.kind (a : SignedPlaceAction) : Kind :=
  match a.action with
  | .favorite _ => .favorite
  | .vote _ => .vote

/-- The row that an action asks for; a favourite's row holds nothing else. -/
def SignedPlaceAction.request (a : SignedPlaceAction) : Option Bool :=
  match a.action with
  | .favorite add => if add then some true else none
  | .vote score => likeRequest score

def Store.Holds (s : Store) (k : Kind) (u p : Text) (b : Bool) : Prop :=
  match k with
  | .favorite => b = true ∧ (u, p) ∈ s.userFavorites
  | .vote => ((u, p), b) ∈ s.userLikes

/-- An action of the user on the place. -/
def On (k : Kind) (u p : Text) (a : SignedPlaceAction) : Bool :=
  a.kind = k ∧ toLowercase a.signer = u ∧ a.placeId = p

/-- No action on the same row was signed later. -/
def Latest (xs : List SignedPlaceAction) (a : SignedPlaceAction) : Prop :=
  a ∈ xs ∧ ∀ b ∈ xs, On a.kind (toLowercase a.signer) a.placeId b = true → b.signedAt ≤ a.signedAt

/-- The rows are those that the latest actions ask for. -/
def Store.Right (s : Store) (xs : List SignedPlaceAction) : Prop :=
  ∀ k u p b, s.Holds k u p b ↔ ∃ a, Latest xs a ∧ On k u p a = true ∧ a.request = some b

def SameRows (s t : Store) : Prop := ∀ k u p b, s.Holds k u p b ↔ t.Holds k u p b

def lastOn (xs : List SignedPlaceAction) (k : Kind) (u p : Text) : Option SignedPlaceAction :=
  (xs.filter (On k u p)).getLast?

/-- The last action on a row asks for the same as the latest; on a place that the node does not
know the latest asks for no row. -/
def InOrder (s : Store) (xs : List SignedPlaceAction) : Prop :=
  ∀ a, Latest xs a →
    if (s.place a.placeId).isSome then
      ∃ l, lastOn xs a.kind (toLowercase a.signer) a.placeId = some l ∧ l.request = a.request
    else a.request = none

def DistinctTimes (xs : List SignedPlaceAction) : Prop :=
  ∀ a ∈ xs, ∀ b ∈ xs, toLowercase a.signer = toLowercase b.signer → a.placeId = b.placeId →
    a.signedAt = b.signedAt → a = b

/-! ### One action -/

theorem toLower_toLower (c : Char) : c.toLower.toLower = c.toLower := by
  unfold Char.toLower
  split
  · rename_i hupper
    have hge : 65 ≤ c.val.toNat := UInt32.le_iff_toNat_le.mp hupper.1
    have hle : c.val.toNat ≤ 90 := UInt32.le_iff_toNat_le.mp hupper.2
    refine dif_neg fun hlower => ?_
    have hle' : (c.val.toNat + 32) % 2 ^ 32 ≤ 90 := UInt32.le_iff_toNat_le.mp hlower.2
    omega
  · rfl

theorem toLowercase_idem (s : Text) : toLowercase (toLowercase s) = toLowercase s := by
  simp only [toLowercase, List.map_map]
  exact List.map_congr_left fun c _ => toLower_toLower c

/-- Users are stored in lower case. -/
structure Store.Lowered (s : Store) : Prop where
  favorites : ∀ r ∈ s.userFavorites, toLowercase r.1 = r.1
  likes : ∀ r ∈ s.userLikes, toLowercase r.1.1 = r.1.1

section Statements

variable {s : Store} {user entity u p : Text}

theorem userFavorites_delete : (s.writeFavorite user entity false).userFavorites =
    s.userFavorites.filter fun row => ¬ (toLowercase row.1 = user ∧ row.2 = entity) := rfl

theorem userLikes_update {value : Bool}
    (hany : (s.userLikes.any fun row => row.1 = (user, entity)) = true) :
    (s.writeLike user entity (some value)).userLikes = s.userLikes.map fun row =>
      if row.1 = (user, entity) then (row.1, value) else (row.1, row.2) := if_pos hany

theorem userLikes_insert {value : Bool}
    (hany : ¬ (s.userLikes.any fun row => row.1 = (user, entity)) = true) :
    (s.writeLike user entity (some value)).userLikes = s.userLikes ++ [((user, entity), value)] :=
  if_neg hany

theorem userLikes_delete : (s.writeLike user entity none).userLikes =
    s.userLikes.filter fun row => ¬ (toLowercase row.1.1 = user ∧ row.1.2 = entity) := rfl

theorem mem_writeFavorite (hlow : s.Lowered) (add : Bool) :
    (u, p) ∈ (s.writeFavorite user entity add).userFavorites ↔
      if (u, p) = (user, entity) then add = true else (u, p) ∈ s.userFavorites := by
  cases add with
  | true =>
    by_cases hmem : (user, entity) ∈ s.userFavorites
    · have hsame : s.writeFavorite user entity true = s := if_pos hmem
      rw [hsame]
      split
      · rename_i heq
        exact iff_of_true (heq ▸ hmem) rfl
      · rfl
    · have hadd : (s.writeFavorite user entity true).userFavorites =
          s.userFavorites ++ [(user, entity)] := by
        simp [Store.writeFavorite, Store.insertFavorite, hmem]
      rw [hadd, List.mem_append, List.mem_singleton]
      split <;> simp [*]
  | false =>
    rw [userFavorites_delete, List.mem_filter]
    by_cases heq : (u, p) = (user, entity)
    · rw [if_pos heq]
      refine iff_of_false (fun h => ?_) (by simp)
      have hu : toLowercase u = u := hlow.favorites _ h.1
      obtain ⟨rfl, rfl⟩ := Prod.mk.inj heq
      simp [hu] at h
    · rw [if_neg heq]
      refine and_iff_left_of_imp fun h => ?_
      have hu : toLowercase u = u := hlow.favorites _ h
      rw [Prod.mk.injEq, not_and_or] at heq
      simpa [hu] using heq

theorem mem_writeLike (hlow : s.Lowered) (request : Option Bool) (b : Bool) :
    ((u, p), b) ∈ (s.writeLike user entity request).userLikes ↔
      if (u, p) = (user, entity) then request = some b else ((u, p), b) ∈ s.userLikes := by
  cases request with
  | some value =>
    by_cases hany : (s.userLikes.any fun row => row.1 = (user, entity)) = true
    · rw [userLikes_update hany, List.mem_map]
      split
      · rename_i heq
        rw [heq]
        obtain ⟨⟨key, c⟩, hc, hkey⟩ := List.any_eq_true.mp hany
        simp only [decide_eq_true_eq] at hkey
        subst hkey
        constructor
        · rintro ⟨⟨key, d⟩, -, hd⟩
          dsimp only at hd
          split at hd
          · exact congrArg some (Prod.mk.inj hd).2
          · rename_i hne
            exact absurd (Prod.mk.inj hd).1 hne
        · intro hvalue
          obtain rfl := Option.some.inj hvalue
          exact ⟨_, hc, if_pos rfl⟩
      · rename_i hne
        constructor
        · rintro ⟨⟨key, d⟩, hd, heq⟩
          dsimp only at heq
          split at heq
          · rename_i hkey
            exact absurd ((Prod.mk.inj heq).1.symm.trans hkey) hne
          · rw [← heq]
            exact hd
        · intro hmem
          exact ⟨_, hmem, if_neg hne⟩
    · have hnone : ∀ c, ((user, entity), c) ∉ s.userLikes := by
        intro c hc
        exact hany (List.any_eq_true.mpr ⟨_, hc, by simp⟩)
      rw [userLikes_insert hany, List.mem_append, List.mem_singleton]
      split
      · rename_i heq
        rw [heq]
        simp [hnone, eq_comm]
      · rename_i hne
        exact or_iff_left fun h => hne (Prod.mk.inj h).1
  | none =>
    rw [userLikes_delete, List.mem_filter]
    by_cases heq : (u, p) = (user, entity)
    · rw [if_pos heq]
      refine iff_of_false (fun h => ?_) (by simp)
      have hu : toLowercase u = u := hlow.likes _ h.1
      obtain ⟨rfl, rfl⟩ := Prod.mk.inj heq
      simp [hu] at h
    · rw [if_neg heq]
      refine and_iff_left_of_imp fun h => ?_
      have hu : toLowercase u = u := hlow.likes _ h
      rw [Prod.mk.injEq, not_and_or] at heq
      simpa [hu] using heq

end Statements

section Apply

variable {s : Store} {a : SignedPlaceAction}

theorem recordSignedAction_eq (s : Store) (row : SignedActionRow) :
    ∃ log, (s.recordSignedAction row).2 = { s with signedActions := log } := by
  unfold Store.recordSignedAction
  split
  · exact ⟨s.signedActions, rfl⟩
  · exact ⟨_, rfl⟩

/-- A known place: the log aside, an action is the call it makes. -/
theorem apply_eq (hknown : (s.place a.placeId).isSome = true) :
    ∃ log, s.apply a = match a.action with
      | .favorite add => (setFavorite { s with signedActions := log } a.placeId a.signer add).1
      | .vote score =>
        (setLike { s with signedActions := log } a.placeId a.signer (likeRequest score)).1 := by
  have hsome : (s.place a.placeId).isNone = false := by
    simpa using hknown
  unfold Store.apply
  cases a.action with
  | favorite add =>
    simp only [applyFavorite, hsome, Bool.false_eq_true, if_false]
    obtain ⟨log, hlog⟩ := recordSignedAction_eq s ⟨a.signatureHash, toLowercase a.signer, a.placeId,
      if add then "favorite" else "unfavorite", a.signedAt⟩
    exact ⟨log, congrArg (fun t => (setFavorite t a.placeId a.signer add).1) hlog⟩
  | vote score =>
    simp only [applyVote, hsome, Bool.false_eq_true, if_false]
    exact (recordSignedAction_eq s _).imp fun log hlog =>
      congrArg (fun t => (setLike t a.placeId a.signer (likeRequest score)).1) hlog

theorem apply_favorite (hknown : (s.place a.placeId).isSome = true) {add : Bool}
    (h : a.action = .favorite add) :
    (s.apply a).userFavorites = (s.writeFavorite (toLowercase a.signer) a.placeId add).userFavorites ∧
      (s.apply a).userLikes = s.userLikes := by
  obtain ⟨log, hlog⟩ := apply_eq hknown
  rw [hlog, h]
  cases add with
  | false => exact ⟨rfl, rfl⟩
  | true =>
    simp only [setFavorite, Store.storeFavorites, Store.writeFavorite, Store.insertFavorite, if_true]
    split <;> exact ⟨rfl, rfl⟩

theorem apply_vote (hknown : (s.place a.placeId).isSome = true) {score : ℤ}
    (h : a.action = .vote score) :
    (s.apply a).userLikes =
        (s.writeLike (toLowercase a.signer) a.placeId (likeRequest score)).userLikes ∧
      (s.apply a).userFavorites = s.userFavorites := by
  obtain ⟨log, hlog⟩ := apply_eq hknown
  rw [hlog, h]
  dsimp only
  generalize likeRequest score = request
  cases request <;> exact ⟨rfl, rfl⟩

theorem apply_unknown (hunknown : (s.place a.placeId).isSome = false) : s.apply a = s := by
  have hnone : (s.place a.placeId).isNone = true := by simpa using hunknown
  unfold Store.apply applyFavorite applyVote
  cases a.action <;> simp [hnone]

theorem apply_place (s : Store) (a : SignedPlaceAction) (p : Text) :
    ((s.apply a).place p).isSome = (s.place p).isSome := by
  cases hknown : (s.place a.placeId).isSome with
  | false => rw [apply_unknown hknown]
  | true =>
    obtain ⟨log, hlog⟩ := apply_eq hknown
    have hupdate : ∀ (f : Counters → Counters) (t : Store), t.place = s.place →
        (Function.update t.place a.placeId ((t.place a.placeId).map f) p).isSome = (s.place p).isSome := by
      intro f t ht
      rw [ht]
      by_cases hp : p = a.placeId
      · rw [hp, Function.update_self, Option.isSome_map]
      · rw [Function.update_of_ne hp]
    rw [hlog]
    cases a.action with
    | favorite add =>
      refine hupdate _ (Store.writeFavorite _ _ _ add) ?_
      cases add with
      | false => rfl
      | true =>
        simp only [Store.writeFavorite, Store.insertFavorite, if_true]
        split <;> rfl
    | vote score =>
      refine hupdate _ (Store.writeLike _ _ _ (likeRequest score)) ?_
      cases likeRequest score <;> rfl

/-- What a row is after an action: what the action asks for where it is on it. -/
theorem holds_apply (hlow : s.Lowered) (k : Kind) (u p : Text) (b : Bool) :
    (s.apply a).Holds k u p b ↔
      if On k u p a = true ∧ (s.place p).isSome = true then a.request = some b else s.Holds k u p b := by
  cases hknown : (s.place a.placeId).isSome with
  | false =>
    rw [apply_unknown hknown, if_neg]
    rintro ⟨hon, hp⟩
    simp only [On, decide_eq_true_eq] at hon
    rw [← hon.2.2, hknown] at hp
    cases hp
  | true =>
    cases haction : a.action with
    | favorite add =>
      obtain ⟨hfav, hlike⟩ := apply_favorite hknown haction
      cases k with
      | vote => simp [Store.Holds, hlike, On, SignedPlaceAction.kind, haction]
      | favorite =>
        have hcond : On .favorite u p a = true ∧ (s.place p).isSome = true ↔
            (u, p) = (toLowercase a.signer, a.placeId) := by
          simp only [On, SignedPlaceAction.kind, haction, true_and, decide_eq_true_eq, Prod.mk.injEq]
          constructor
          · rintro ⟨⟨rfl, rfl⟩, -⟩
            exact ⟨rfl, rfl⟩
          · rintro ⟨rfl, rfl⟩
            exact ⟨⟨rfl, rfl⟩, hknown⟩
        simp only [Store.Holds, hfav, mem_writeFavorite hlow, hcond]
        split
        · cases add <;> cases b <;> simp [SignedPlaceAction.request, haction]
        · rfl
    | vote score =>
      obtain ⟨hlike, hfav⟩ := apply_vote hknown haction
      cases k with
      | favorite => simp [Store.Holds, hfav, On, SignedPlaceAction.kind, haction]
      | vote =>
        have hcond : On .vote u p a = true ∧ (s.place p).isSome = true ↔
            (u, p) = (toLowercase a.signer, a.placeId) := by
          simp only [On, SignedPlaceAction.kind, haction, true_and, decide_eq_true_eq, Prod.mk.injEq]
          constructor
          · rintro ⟨⟨rfl, rfl⟩, -⟩
            exact ⟨rfl, rfl⟩
          · rintro ⟨rfl, rfl⟩
            exact ⟨⟨rfl, rfl⟩, hknown⟩
        simp only [Store.Holds, hlike, mem_writeLike hlow, hcond, SignedPlaceAction.request, haction]

end Apply

/-! ### Sequences of actions -/

section Sequence

variable {s : Store} {xs ys : List SignedPlaceAction}

theorem lowered_iff : s.Lowered ↔ ∀ k u p b, s.Holds k u p b → toLowercase u = u := by
  constructor
  · intro h k u p b hb
    cases k with
    | favorite => exact h.favorites _ hb.2
    | vote => exact h.likes _ hb
  · intro h
    exact ⟨fun r hr => h .favorite r.1 r.2 true ⟨rfl, hr⟩, fun r hr => h .vote r.1.1 r.1.2 r.2 hr⟩

theorem lowered_apply (hlow : s.Lowered) (a : SignedPlaceAction) : (s.apply a).Lowered := by
  rw [lowered_iff]
  intro k u p b hb
  rw [holds_apply hlow] at hb
  split at hb
  · rename_i hon
    have hcond := hon.1
    simp only [On, decide_eq_true_eq] at hcond
    rw [← hcond.2.1, toLowercase_idem]
  · exact lowered_iff.mp hlow k u p b hb

/-- A store without rows. -/
def Store.Empty (s : Store) : Prop := s.userFavorites = [] ∧ s.userLikes = []

theorem not_holds_of_empty (h : s.Empty) (k : Kind) (u p : Text) (b : Bool) : ¬ s.Holds k u p b := by
  cases k <;> simp [Store.Holds, h.1, h.2]

theorem lastOn_append (a : SignedPlaceAction) (k : Kind) (u p : Text) :
    lastOn (xs ++ [a]) k u p = if On k u p a = true then some a else lastOn xs k u p := by
  unfold lastOn
  rw [List.filter_append]
  by_cases hon : On k u p a = true <;> simp [hon]

/-- By induction on the actions, the last one first. -/
theorem holds_applyAll (h : s.Empty) (xs : List SignedPlaceAction) :
    (s.applyAll xs).Lowered ∧ (∀ p, ((s.applyAll xs).place p).isSome = (s.place p).isSome) ∧
      ∀ k u p b, (s.applyAll xs).Holds k u p b ↔
        (s.place p).isSome = true ∧ ∃ l, lastOn xs k u p = some l ∧ l.request = some b := by
  induction xs using List.reverseRecOn with
  | nil =>
    refine ⟨lowered_iff.mpr fun k u p b hb => absurd hb (not_holds_of_empty h k u p b), fun _ => rfl,
      fun k u p b => iff_of_false (not_holds_of_empty h k u p b) ?_⟩
    rintro ⟨-, l, hl, -⟩
    cases hl
  | append_singleton xs a ih =>
    obtain ⟨hlow, hplace, hrows⟩ := ih
    have hstep : s.applyAll (xs ++ [a]) = (s.applyAll xs).apply a := by
      simp [Store.applyAll]
    rw [hstep]
    refine ⟨lowered_apply hlow a, fun p => (apply_place _ a p).trans (hplace p), fun k u p b => ?_⟩
    rw [holds_apply hlow, hplace, lastOn_append, hrows]
    by_cases hon : On k u p a = true
    · by_cases hp : (s.place p).isSome = true <;> simp [hon, hp]
    · simp [hon]

theorem on_self (a : SignedPlaceAction) : On a.kind (toLowercase a.signer) a.placeId a = true := by
  simp [On]

theorem on_iff {k : Kind} {u p : Text} {a : SignedPlaceAction} :
    On k u p a = true ↔ a.kind = k ∧ toLowercase a.signer = u ∧ a.placeId = p := by
  simp [On]

/-- Of several latest actions on a row there is one. -/
theorem latest_unique (hd : DistinctTimes xs) {a b : SignedPlaceAction} (ha : Latest xs a)
    (hb : Latest xs b) {k : Kind} {u p : Text} (hona : On k u p a = true) (honb : On k u p b = true) :
    a = b := by
  obtain ⟨rfl, rfl, rfl⟩ := on_iff.mp hona
  obtain ⟨hkind, hsigner, hplace⟩ := on_iff.mp honb
  have hab : On b.kind (toLowercase b.signer) b.placeId a = true :=
    on_iff.mpr ⟨hkind.symm, hsigner.symm, hplace.symm⟩
  have htime := le_antisymm (hb.2 a ha.1 hab) (ha.2 b hb.1 honb)
  exact hd a ha.1 b hb.1 hsigner.symm hplace.symm htime

theorem exists_latest {k : Kind} {u p : Text} {a : SignedPlaceAction} (ha : a ∈ xs)
    (hon : On k u p a = true) : ∃ l, Latest xs l ∧ On k u p l = true := by
  have hne : ((xs.filter (On k u p)).toFinset).Nonempty :=
    ⟨a, List.mem_toFinset.mpr (List.mem_filter.mpr ⟨ha, hon⟩)⟩
  obtain ⟨l, hl, hmax⟩ := Finset.exists_max_image _ SignedPlaceAction.signedAt hne
  rw [List.mem_toFinset, List.mem_filter] at hl
  refine ⟨l, ⟨hl.1, fun b hb honb => hmax b ?_⟩, hl.2⟩
  obtain ⟨rfl, rfl, rfl⟩ := on_iff.mp hl.2
  exact List.mem_toFinset.mpr (List.mem_filter.mpr ⟨hb, honb⟩)

theorem right_iff (h : s.Empty) (hd : DistinctTimes xs) :
    (s.applyAll xs).Right xs ↔ InOrder s xs := by
  have hrows := (holds_applyAll h xs).2.2
  constructor
  · intro hright a ha
    have hvalue : ∀ b, ((s.place a.placeId).isSome = true ∧
        ∃ l, lastOn xs a.kind (toLowercase a.signer) a.placeId = some l ∧ l.request = some b) ↔
          a.request = some b := by
      intro b
      rw [← hrows, hright]
      constructor
      · rintro ⟨c, hc, hon, hreq⟩
        rwa [latest_unique hd ha hc (on_self a) hon]
      · intro hreq
        exact ⟨a, ha, on_self a, hreq⟩
    split
    · rename_i hknown
      obtain ⟨l, hl⟩ : ∃ l, lastOn xs a.kind (toLowercase a.signer) a.placeId = some l := by
        refine Option.ne_none_iff_exists'.mp fun hnone => ?_
        rw [lastOn, List.getLast?_eq_none_iff, List.filter_eq_nil_iff] at hnone
        exact hnone a ha.1 (on_self a)
      refine ⟨l, hl, Option.ext fun b => ?_⟩
      rw [← hvalue b]
      exact ⟨fun hreq => ⟨hknown, l, hl, hreq⟩, fun ⟨_, l', hl', hreq⟩ =>
        Option.some.inj (hl.symm.trans hl') ▸ hreq⟩
    · rename_i hunknown
      refine Option.eq_none_iff_forall_ne_some.mpr fun b hreq => ?_
      exact hunknown ((hvalue b).mpr hreq).1
  · intro horder k u p b
    rw [hrows]
    constructor
    · rintro ⟨hknown, l, hl, hreq⟩
      have hmem := List.mem_of_getLast? hl
      rw [List.mem_filter] at hmem
      obtain ⟨a, ha, hon⟩ := exists_latest hmem.1 hmem.2
      obtain ⟨rfl, rfl, rfl⟩ := on_iff.mp hon
      have hlast := horder a ha
      rw [if_pos hknown] at hlast
      obtain ⟨l', hl', hsame⟩ := hlast
      obtain rfl := Option.some.inj (hl.symm.trans hl')
      exact ⟨a, ha, hon, hsame.symm.trans hreq⟩
    · rintro ⟨a, ha, hon, hreq⟩
      obtain ⟨rfl, rfl, rfl⟩ := on_iff.mp hon
      have hlast := horder a ha
      split at hlast
      · rename_i hknown
        obtain ⟨l, hl, hsame⟩ := hlast
        exact ⟨hknown, l, hl, hsame.trans hreq⟩
      · rw [hlast] at hreq
        cases hreq

theorem right_congr (hset : ∀ a, a ∈ xs ↔ a ∈ ys) {t : Store} : t.Right xs ↔ t.Right ys := by
  have hlatest : ∀ a, Latest xs a ↔ Latest ys a := by
    intro a
    simp only [Latest, hset]
  simp only [Store.Right, hlatest]

end Sequence

/-! ### Concurrent calls -/

def Store.FavoritesRight (s : Store) (p : Text) : Prop :=
  ∀ c, s.place p = some c → c.favorites = s.countFavorites p

def Store.LikesRight (s : Store) (p : Text) : Prop :=
  ∀ c, s.place p = some c → c.likes = s.countLikes p true ∧ c.dislikes = s.countLikes p false

/-- The place whose favourites a call will still store. -/
def Progress.favoritesOwed : Progress → List Text
  | .wrote (.favorite entity _ _) => [entity]
  | .counted entity _ => [entity]
  | _ => []

def Progress.likesOwed : Progress → List Text
  | .wrote (.like entity _ _) => [entity]
  | _ => []

/-- Counters are right or will be stored again. -/
structure System.Sound (y : System) : Prop where
  favorites : ∀ p, y.store.FavoritesRight p ∨ p ∈ y.calls.flatMap Progress.favoritesOwed
  likes : ∀ p, y.store.LikesRight p ∨ p ∈ y.calls.flatMap Progress.likesOwed

/-- What the call has counted is still the number of rows. -/
def Progress.Current (s : Store) : Progress → Prop
  | .counted entity count => count = s.countFavorites entity
  | _ => True

/-- A count is stored while it is still the number of rows. -/
def Undisturbed (y : System) : Event → Prop
  | .start _ => True
  | .statement i => ∀ q ∈ y.calls[i]?, q.Current y.store

instance decidableCurrent (s : Store) : (q : Progress) → Decidable (q.Current s)
  | .counted entity count => inferInstanceAs (Decidable (count = s.countFavorites entity))
  | .ready _ => inferInstanceAs (Decidable True)
  | .wrote _ => inferInstanceAs (Decidable True)
  | .finished => inferInstanceAs (Decidable True)

instance decidableUndisturbed (y : System) : (e : Event) → Decidable (Undisturbed y e)
  | .start _ => inferInstanceAs (Decidable True)
  | .statement i => inferInstanceAs (Decidable (∀ q ∈ y.calls[i]?, q.Current y.store))

section Concurrent

variable {s : Store} {user entity p : Text}

theorem writeFavorite_place (add : Bool) : (s.writeFavorite user entity add).place = s.place := by
  cases add with
  | false => rfl
  | true =>
    simp only [Store.writeFavorite, Store.insertFavorite, if_true]
    split <;> rfl

theorem writeFavorite_userLikes (add : Bool) :
    (s.writeFavorite user entity add).userLikes = s.userLikes := by
  cases add with
  | false => rfl
  | true =>
    simp only [Store.writeFavorite, Store.insertFavorite, if_true]
    split <;> rfl

theorem writeLike_place (request : Option Bool) : (s.writeLike user entity request).place = s.place := by
  cases request <;> rfl

theorem writeLike_userFavorites (request : Option Bool) :
    (s.writeLike user entity request).userFavorites = s.userFavorites := by
  cases request <;> rfl

/-- A write on another place does not change the count. -/
theorem countFavorites_write (hp : p ≠ entity) (add : Bool) :
    (s.writeFavorite user entity add).countFavorites p = s.countFavorites p := by
  cases add with
  | true =>
    simp only [Store.writeFavorite, Store.insertFavorite, if_true, Store.countFavorites]
    split
    · rfl
    · simp [hp.symm]
  | false =>
    rw [Store.countFavorites, userFavorites_delete, List.countP_filter]
    refine List.countP_congr fun r _ => ?_
    by_cases hr : r.2 = p <;> simp [hr, hp]

theorem countLikes_write (hp : p ≠ entity) (request : Option Bool) (b : Bool) :
    (s.writeLike user entity request).countLikes p b = s.countLikes p b := by
  cases request with
  | some value =>
    by_cases hany : (s.userLikes.any fun row => row.1 = (user, entity)) = true
    · rw [Store.countLikes, userLikes_update hany, List.countP_map]
      refine List.countP_congr fun r _ => ?_
      by_cases hr : r.1 = (user, entity)
      · simp [hr, hp.symm]
      · simp [hr]
    · rw [Store.countLikes, userLikes_insert hany, List.countP_append]
      simp [Store.countLikes, hp.symm]
  | none =>
    rw [Store.countLikes, userLikes_delete, List.countP_filter]
    refine List.countP_congr fun r _ => ?_
    by_cases hr : r.1.2 = p <;> simp [hr, hp]

/-- What a statement does to the favourites of a place. -/
theorem favorites_advance {q next : Progress} {t : Store} (h : advance s q = some (t, next))
    (hcurrent : q.Current s) (p : Text) :
    (s.FavoritesRight p → t.FavoritesRight p ∨ p ∈ next.favoritesOwed) ∧
      (p ∈ q.favoritesOwed → t.FavoritesRight p ∨ p ∈ next.favoritesOwed) := by
  cases q with
  | ready call =>
    refine ⟨fun hright => ?_, fun howed => absurd howed List.not_mem_nil⟩
    cases call with
    | favorite entity user add =>
      obtain ⟨rfl, rfl⟩ := Prod.mk.inj (Option.some.inj h)
      by_cases hp : p = entity
      · exact Or.inr (hp ▸ List.mem_singleton_self p)
      · left
        intro c hc
        rw [countFavorites_write hp]
        exact hright c (writeFavorite_place add ▸ hc)
    | like entity user request =>
      obtain ⟨rfl, rfl⟩ := Prod.mk.inj (Option.some.inj h)
      left
      intro c hc
      rw [Store.countFavorites, writeLike_userFavorites]
      exact hright c (writeLike_place request ▸ hc)
  | wrote call =>
    cases call with
    | favorite entity user add =>
      obtain ⟨rfl, rfl⟩ := Prod.mk.inj (Option.some.inj h)
      exact ⟨Or.inl, Or.inr⟩
    | like entity user request =>
      obtain ⟨rfl, rfl⟩ := Prod.mk.inj (Option.some.inj h)
      refine ⟨fun hright => Or.inl ?_, fun howed => absurd howed List.not_mem_nil⟩
      intro c hc
      by_cases hp : p = entity
      · subst hp
        simp only [Store.storeLikes, Function.update_self] at hc
        obtain ⟨c, hold, rfl⟩ := Option.map_eq_some_iff.mp hc
        exact hright c hold
      · simp only [Store.storeLikes, Function.update_of_ne hp] at hc
        exact hright c hc
  | counted entity count =>
    obtain ⟨rfl, rfl⟩ := Prod.mk.inj (Option.some.inj h)
    have hentity : (s.storeFavorites entity count).FavoritesRight entity := by
      intro c hc
      simp only [Store.storeFavorites, Function.update_self] at hc
      obtain ⟨c, -, rfl⟩ := Option.map_eq_some_iff.mp hc
      exact hcurrent
    refine ⟨fun hright => Or.inl ?_, fun howed => Or.inl (List.mem_singleton.mp howed ▸ hentity)⟩
    by_cases hp : p = entity
    · exact hp ▸ hentity
    · intro c hc
      simp only [Store.storeFavorites, Function.update_of_ne hp] at hc
      exact hright c hc
  | finished => cases h

theorem likes_advance {q next : Progress} {t : Store} (h : advance s q = some (t, next)) (p : Text) :
    (s.LikesRight p → t.LikesRight p ∨ p ∈ next.likesOwed) ∧
      (p ∈ q.likesOwed → t.LikesRight p ∨ p ∈ next.likesOwed) := by
  cases q with
  | ready call =>
    refine ⟨fun hright => ?_, fun howed => absurd howed List.not_mem_nil⟩
    cases call with
    | like entity user request =>
      obtain ⟨rfl, rfl⟩ := Prod.mk.inj (Option.some.inj h)
      by_cases hp : p = entity
      · exact Or.inr (hp ▸ List.mem_singleton_self p)
      · left
        intro c hc
        rw [countLikes_write hp, countLikes_write hp]
        exact hright c (writeLike_place request ▸ hc)
    | favorite entity user add =>
      obtain ⟨rfl, rfl⟩ := Prod.mk.inj (Option.some.inj h)
      left
      intro c hc
      simp only [Store.countLikes, writeFavorite_userLikes]
      exact hright c (writeFavorite_place add ▸ hc)
  | wrote call =>
    cases call with
    | favorite entity user add =>
      obtain ⟨rfl, rfl⟩ := Prod.mk.inj (Option.some.inj h)
      exact ⟨Or.inl, fun howed => absurd howed List.not_mem_nil⟩
    | like entity user request =>
      obtain ⟨rfl, rfl⟩ := Prod.mk.inj (Option.some.inj h)
      have hentity : (s.storeLikes entity).LikesRight entity := by
        intro c hc
        simp only [Store.storeLikes, Function.update_self] at hc
        obtain ⟨c, -, rfl⟩ := Option.map_eq_some_iff.mp hc
        exact ⟨rfl, rfl⟩
      refine ⟨fun hright => Or.inl ?_, fun howed => Or.inl (List.mem_singleton.mp howed ▸ hentity)⟩
      by_cases hp : p = entity
      · exact hp ▸ hentity
      · intro c hc
        simp only [Store.storeLikes, Function.update_of_ne hp] at hc
        exact hright c hc
  | counted entity count =>
    obtain ⟨rfl, rfl⟩ := Prod.mk.inj (Option.some.inj h)
    refine ⟨fun hright => Or.inl ?_, fun howed => absurd howed List.not_mem_nil⟩
    intro c hc
    by_cases hp : p = entity
    · subst hp
      simp only [Store.storeFavorites, Function.update_self] at hc
      obtain ⟨c, hold, rfl⟩ := Option.map_eq_some_iff.mp hc
      exact hright c hold
    · simp only [Store.storeFavorites, Function.update_of_ne hp] at hc
      exact hright c hc
  | finished => cases h

theorem sound_step (y : System) (e : Event) (z : System) (hsound : y.Sound) (hok : Undisturbed y e)
    (h : y.step e = some z) : z.Sound := by
  cases e with
  | start call =>
    obtain rfl := Option.some.inj h
    refine ⟨fun p => (hsound.favorites p).imp_right fun hp => ?_,
      fun p => (hsound.likes p).imp_right fun hp => ?_⟩
    · rw [List.flatMap_append]
      exact List.mem_append_left _ hp
    · rw [List.flatMap_append]
      exact List.mem_append_left _ hp
  | statement i =>
    obtain ⟨q, hq, hrest⟩ := Option.bind_eq_some_iff.mp h
    obtain ⟨⟨t, next⟩, hadv, hz⟩ := Option.bind_eq_some_iff.mp hrest
    obtain rfl := Option.some.inj hz
    refine ⟨fun p => ?_, fun p => ?_⟩
    · obtain ⟨hright, howed⟩ := favorites_advance hadv (hok q hq) p
      exact Procs.settled_or_owed_set hq hright howed (hsound.favorites p)
    · obtain ⟨hright, howed⟩ := likes_advance hadv p
      exact Procs.settled_or_owed_set hq hright howed (hsound.likes p)

/-- When every call has finished, nothing is owed. -/
theorem right_of_finished {y : System} (hsound : y.Sound) (hdone : ∀ q ∈ y.calls, q = .finished)
    (p : Text) : y.store.FavoritesRight p ∧ y.store.LikesRight p := by
  have hnone : ∀ f : Progress → List Text, f .finished = [] → p ∉ y.calls.flatMap f := by
    intro f hf hp
    obtain ⟨q, hq, hpq⟩ := List.mem_flatMap.mp hp
    rw [hdone q hq, hf] at hpq
    cases hpq
  exact ⟨(hsound.favorites p).resolve_right (hnone _ rfl), (hsound.likes p).resolve_right (hnone _ rfl)⟩

end Concurrent

/-! ### Two nodes, and one node with concurrent calls -/

theorem interactions_converge (s t : Store) (xs ys : List SignedPlaceAction) (y z : System)
    (events : List Event) :
    (s.Empty → t.Empty → (∀ a, a ∈ xs ↔ a ∈ ys) → DistinctTimes xs →
      ((SameRows (s.applyAll xs) (t.applyAll ys) ∧ (s.applyAll xs).Right xs) ↔
        InOrder s xs ∧ InOrder t ys)) ∧
      (y.calls = [] → (∀ p, y.store.FavoritesRight p ∧ y.store.LikesRight p) →
        Machine.Meets System.step Undisturbed y events → Machine.run System.step y events = some z →
          (∀ q ∈ z.calls, q = .finished) → ∀ p, z.store.FavoritesRight p ∧ z.store.LikesRight p) := by
  constructor
  · intro hs ht hset hd
    have hd' : DistinctTimes ys := by
      intro a ha b hb
      exact hd a ((hset a).mpr ha) b ((hset b).mpr hb)
    have hys : (t.applyAll ys).Right xs ↔ InOrder t ys := (right_congr hset).trans (right_iff ht hd')
    rw [← right_iff hs hd, ← hys]
    constructor
    · rintro ⟨hsame, hright⟩
      exact ⟨hright, fun k u p b => (hsame k u p b).symm.trans (hright k u p b)⟩
    · rintro ⟨hright, hright'⟩
      exact ⟨fun k u p b => (hright k u p b).trans (hright' k u p b).symm, hright⟩
  · intro hcalls hright hmeets hrun hdone
    have hsound : y.Sound := ⟨fun p => Or.inl (hright p).1, fun p => Or.inl (hright p).2⟩
    exact right_of_finished
      (Machine.run_invariant_of_meets System.step sound_step events y z hmeets hrun hsound) hdone

/-- A node that knows every place. -/
def fresh : Store := ⟨fun _ => some ⟨0, 0, 0⟩, [], [], []⟩

def adding : SignedPlaceAction := ⟨.favorite true, ['a'], ['p'], 2, 1⟩

def removing : SignedPlaceAction := ⟨.favorite false, ['a'], ['p'], 1, 2⟩

def oneAdd : List Event :=
  [.start (.favorite ['p'] ['a'] true), .statement 0, .statement 0, .statement 0]

/-- Two users; the second one's row is written after the first one's count. -/
def twoAdds : List Event :=
  [.start (.favorite ['p'] ['a'] true), .start (.favorite ['p'] ['b'] true), .statement 0,
    .statement 0, .statement 1, .statement 1, .statement 1, .statement 0]

theorem interactions_converge_chain :
    (fresh.applyAll [removing, adding, adding]).Right [removing, adding, adding] ∧
      ∃ z, Machine.run System.step ⟨fresh, []⟩ oneAdd = some z ∧ z.store.FavoritesRight ['p'] := by
  have hempty : fresh.Empty := ⟨rfl, rfl⟩
  constructor
  · have hd : DistinctTimes [removing, adding, adding] := by
      intro a ha b hb _ _ htime
      simp only [List.mem_cons, List.not_mem_nil, or_false] at ha hb
      rcases ha with rfl | rfl | rfl <;> rcases hb with rfl | rfl | rfl <;>
        first | rfl | exact absurd htime (by decide)
    have horder : InOrder fresh [removing, adding, adding] := by
      intro a ha
      have hlater := ha.2 adding (by simp)
      have hmem := ha.1
      simp only [List.mem_cons, List.not_mem_nil, or_false] at hmem
      rcases hmem with rfl | rfl | rfl
      · exact absurd (hlater (by decide)) (by decide)
      · exact ⟨adding, by decide, rfl⟩
      · exact ⟨adding, by decide, rfl⟩
    exact (((interactions_converge fresh fresh _ _ ⟨fresh, []⟩ ⟨fresh, []⟩ []).1 hempty hempty
      (fun _ => Iff.rfl) hd).mpr ⟨horder, horder⟩).2
  · have hright : ∀ p, fresh.FavoritesRight p ∧ fresh.LikesRight p := by
      intro p
      refine ⟨fun c hc => ?_, fun c hc => ?_⟩
      · obtain rfl := Option.some.inj hc
        rfl
      · obtain rfl := Option.some.inj hc
        exact ⟨rfl, rfl⟩
    have hmeets : Machine.Meets System.step Undisturbed ⟨fresh, []⟩ oneAdd := by decide
    have hdone : (Machine.run System.step ⟨fresh, []⟩ oneAdd).map System.calls = some [.finished] := by
      decide
    obtain ⟨z, hrun, hcalls⟩ := Option.map_eq_some_iff.mp hdone
    have hfinished : ∀ q ∈ z.calls, q = .finished := by simp [hcalls]
    exact ⟨z, hrun,
      ((interactions_converge fresh fresh [] [] ⟨fresh, []⟩ z oneAdd).2 rfl hright hmeets hrun
        hfinished ['p']).1⟩

/-- The remove was signed before the add; the count that is stored last was taken first. -/
theorem arrival_order_decides :
    (¬ SameRows (fresh.applyAll [adding, removing]) (fresh.applyAll [removing, adding]) ∧
      ¬ (fresh.applyAll [adding, removing]).Right [adding, removing]) ∧
      (Machine.run System.step ⟨fresh, []⟩ twoAdds).map (fun y =>
        (y.calls, y.store.countFavorites ['p'], (y.store.place ['p']).map Counters.favorites)) =
          some ([.finished, .finished], 2, some 1) := by
  have hnone : ¬ (fresh.applyAll [adding, removing]).Holds .favorite ['a'] ['p'] true := by
    rintro ⟨-, h⟩
    revert h
    decide
  have hlater : (fresh.applyAll [removing, adding]).Holds .favorite ['a'] ['p'] true :=
    ⟨rfl, by decide⟩
  refine ⟨⟨fun hsame => hnone ((hsame _ _ _ _).mpr hlater), fun hright => hnone ?_⟩, by decide⟩
  refine (hright _ _ _ _).mpr ⟨adding, ⟨by simp, fun b hb _ => ?_⟩, by decide, rfl⟩
  simp only [List.mem_cons, List.not_mem_nil, or_false] at hb
  rcases hb with rfl | rfl
  · exact le_refl _
  · decide

end Catalyrst.Places

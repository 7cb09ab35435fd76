import Catalyrst.Worlds.Requests

/-!
# What makes the grants of an address cover more parcels

A grant without parcels is for the whole world. So an address gains by a grant for the world, by
parcels added to its grant, and by the removal of the last of them.
-/

namespace Catalyrst.WorldScenes

/-- The parcels listed in the grant of an address. -/
def Db.held (db : Db) (world signer : Text) : List Text :=
  (db.worldPermissions.filter fun p =>
    p.isFor world "deployment".toList && decide (lower p.address = lower signer)).flatMap
      Permission.parcels

def Widens (db : Db) (world signer : Text) (needed : List Text) : Event → Prop
  | .grantWorldWide w permission addresses =>
    (lower w = lower world ∧ permission = "deployment".toList) ∧ lower signer ∈ addresses.map lower
  | .addParcels w permission address parcels =>
    ((lower w = lower world ∧ permission = "deployment".toList) ∧ lower address = lower signer) ∧
      let listed := db.held world signer ++ parcels.map canonicalizePointer
      listed = [] ∨ ∀ q ∈ needed, q ∈ listed
  | .removeParcels id parcels =>
    ∃ p ∈ db.worldPermissions, p.id = id ∧ p.grants world signer ∧
      ∀ q ∈ p.parcels, q ∈ parcels.map canonicalizePointer
  | _ => False

/-! ### The grant of an address -/

theorem isFor_iff {p : Permission} {world permission : Text} :
    p.isFor world permission = true ↔
      lower p.worldName = lower world ∧ p.permissionType = permission := by
  simp [Permission.isFor]

theorem grants_iff {db : Db} (h : PermissionsOk db) {p : Permission} (hp : p ∈ db.worldPermissions)
    {world signer : Text} :
    p.grants world signer ↔ p.key = (lower world, "deployment".toList, lower signer) := by
  obtain ⟨hworld, haddress⟩ := h.lowered p hp
  simp only [Permission.grants, isFor_iff, Permission.key, hworld, haddress, Prod.mk.injEq]
  tauto

theorem grants_unique {db : Db} (h : PermissionsOk db) {p q : Permission}
    (hp : p ∈ db.worldPermissions) (hq : q ∈ db.worldPermissions) {world signer : Text}
    (hgrants : p.grants world signer) (hgrants' : q.grants world signer) : p = q := by
  rw [grants_iff h hp] at hgrants
  rw [grants_iff h hq] at hgrants'
  exact List.inj_on_of_nodup_map h.keys hp hq (hgrants.trans hgrants'.symm)

theorem mem_held {db : Db} {world signer q : Text} :
    q ∈ db.held world signer ↔ ∃ p ∈ db.worldPermissions, p.grants world signer ∧ q ∈ p.parcels := by
  simp only [Db.held, List.mem_flatMap, List.mem_filter, Permission.grants, Bool.and_eq_true,
    decide_eq_true_eq]
  constructor
  · rintro ⟨p, ⟨hp, hgrants⟩, hq⟩
    exact ⟨p, hp, hgrants, hq⟩
  · rintro ⟨p, hp, hgrants, hq⟩
    exact ⟨p, ⟨hp, hgrants⟩, hq⟩

theorem covering_congr {parcels parcels' needed : List Text} (h : ∀ q, q ∈ parcels ↔ q ∈ parcels') :
    (parcels = [] ∨ ∀ q ∈ needed, q ∈ parcels) ↔ (parcels' = [] ∨ ∀ q ∈ needed, q ∈ parcels') := by
  simp only [List.eq_nil_iff_forall_not_mem, h]

theorem covers_congr {db db' : Db} (h : db'.worldPermissions = db.worldPermissions)
    (world signer : Text) (needed : List Text) :
    Covers db' world signer needed ↔ Covers db world signer needed := by
  rw [Covers, Covers, h]

theorem exists_newGrant (next : ℕ) (world permission : Text) {addresses : List Text} {a : Text}
    (h : a ∈ addresses) :
    ∃ p ∈ newGrants next world permission addresses, p.key = (world, permission, a) := by
  have hkey : (world, permission, a) ∈
      (newGrants next world permission addresses).map Permission.key := by
    rw [newGrants_keys]
    exact List.mem_map_of_mem h
  exact List.mem_map.mp hkey

section Changes

variable {db : Db} {world signer : Text} {needed : List Text}

theorem covers_grantWorldWide (hok : PermissionsOk db) (h : ¬ Covers db world signer needed)
    (w permission : Text) (addresses : List Text) :
    Covers (db.grantAddressesWorldWidePermission w permission addresses) world signer needed ↔
      Widens db world signer needed (.grantWorldWide w permission addresses) := by
  constructor
  · rintro ⟨p', hp', hgrants, hcover⟩
    rcases List.mem_append.mp hp' with hp' | hp'
    · obtain ⟨p, hp, rfl⟩ := List.mem_map.mp hp'
      split_ifs at hgrants hcover with hmatch
      · rw [Bool.and_eq_true, decide_eq_true_eq, List.mem_dedup] at hmatch
        obtain ⟨hfor, haddress⟩ := hmatch
        obtain ⟨hworld, htype⟩ := isFor_iff.mp hfor
        obtain ⟨hworld', htype'⟩ := isFor_iff.mp hgrants.1
        refine ⟨⟨hworld.symm.trans hworld', htype.symm.trans htype'⟩, ?_⟩
        rw [← hgrants.2, (hok.lowered p hp).2]
        exact haddress
      · exact absurd ⟨p, hp, hgrants, hcover⟩ h
    · obtain ⟨-, hworld, htype, haddress, -⟩ := mem_newGrants hp'
      obtain ⟨hworld', htype'⟩ := isFor_iff.mp hgrants.1
      obtain ⟨a, ha, heq⟩ := List.mem_map.mp (List.mem_dedup.mp (List.mem_filter.mp haddress).1)
      rw [hworld, lower_lower] at hworld'
      refine ⟨⟨hworld', htype.symm.trans htype'⟩, ?_⟩
      rw [← hgrants.2, ← heq, lower_lower]
      exact List.mem_map_of_mem ha
  · rintro ⟨⟨hworld, rfl⟩, hsigner⟩
    by_cases hthere : ∃ p ∈ db.worldPermissions, p.grants world signer
    · obtain ⟨p, hp, hgrants⟩ := hthere
      have hmatch : (p.isFor w "deployment".toList &&
          decide (p.address ∈ (addresses.map lower).dedup)) = true := by
        rw [Bool.and_eq_true, decide_eq_true_eq, List.mem_dedup, isFor_iff, hworld]
        refine ⟨isFor_iff.mp hgrants.1, ?_⟩
        rw [← (hok.lowered p hp).2, hgrants.2]
        exact hsigner
      refine ⟨{ p with parcels := [] }, List.mem_append_left _ (List.mem_map.mpr ⟨p, hp, ?_⟩), hgrants,
        .inl rfl⟩
      rw [if_pos hmatch]
    · have hadded : lower signer ∈ (addresses.map lower).dedup.filter fun a =>
          !db.worldPermissions.any fun p => decide (p.worldName = lower w ∧
            p.permissionType = "deployment".toList ∧ p.address = a) := by
        refine List.mem_filter.mpr ⟨List.mem_dedup.mpr hsigner, ?_⟩
        rw [Bool.not_eq_true', List.any_eq_false]
        intro p hp hkey
        refine hthere ⟨p, hp, (grants_iff hok hp).mpr ?_⟩
        obtain ⟨hw, htype, haddress⟩ := of_decide_eq_true hkey
        rw [Permission.key, hw, htype, haddress, hworld]
      obtain ⟨p, hp, hkey⟩ := exists_newGrant db.nextId (lower w) "deployment".toList hadded
      refine ⟨p, List.mem_append_right _ hp, ?_, .inl (mem_newGrants hp).2.2.2.2⟩
      simp only [Permission.key, Prod.mk.injEq] at hkey
      simp only [Permission.grants, isFor_iff, hkey, lower_lower, hworld, and_self]

theorem covers_addParcels (hok : PermissionsOk db) (h : ¬ Covers db world signer needed)
    (w permission address : Text) (parcels : List Text) :
    Covers (db.addParcelsToPermission w permission address parcels) world signer needed ↔
      Widens db world signer needed (.addParcels w permission address parcels) := by
  unfold Db.addParcelsToPermission Widens
  dsimp only
  split
  · rename_i id hfound
    obtain ⟨p₀, hp₀, rfl⟩ := Option.map_eq_some_iff.mp hfound
    have hin : p₀ ∈ db.worldPermissions := List.mem_of_find?_eq_some hp₀
    have hmatch := List.find?_some hp₀
    rw [Bool.and_eq_true, decide_eq_true_eq, isFor_iff] at hmatch
    obtain ⟨⟨hworld, htype⟩, haddress⟩ := hmatch
    have hgrants : p₀.grants world signer ↔
        (lower w = lower world ∧ permission = "deployment".toList) ∧ lower address = lower signer := by
      simp only [Permission.grants, isFor_iff, hworld, htype, haddress, lower_lower]
    rw [← hgrants]
    have hlisted : p₀.grants world signer → ∀ q, q ∈ db.held world signer ↔ q ∈ p₀.parcels := by
      intro hgrant q
      rw [mem_held]
      constructor
      · rintro ⟨p, hp, hgrant', hq⟩
        rwa [grants_unique hok hin hp hgrant hgrant']
      · exact fun hq => ⟨p₀, hin, hgrant, hq⟩
    have hsame : p₀.grants world signer → ∀ q,
        q ∈ (p₀.parcels ++ parcels.map canonicalizePointer).dedup ↔
          q ∈ db.held world signer ++ parcels.map canonicalizePointer := by
      intro hgrant q
      rw [List.mem_dedup, List.mem_append, List.mem_append, hlisted hgrant]
    constructor
    · rintro ⟨p', hp', hgrant, hcover⟩
      obtain ⟨p, hp, rfl⟩ := List.mem_map.mp hp'
      split_ifs at hgrant hcover with hid
      · obtain rfl := unique_permission hok hp hin hid
        exact ⟨hgrant, (covering_congr (hsame hgrant)).mp hcover⟩
      · exact absurd ⟨p, hp, hgrant, hcover⟩ h
    · rintro ⟨hgrant, hcover⟩
      refine ⟨{ p₀ with parcels := (p₀.parcels ++ parcels.map canonicalizePointer).dedup },
        List.mem_map.mpr ⟨p₀, hin, if_pos rfl⟩, hgrant, (covering_congr (hsame hgrant)).mpr hcover⟩
  · rename_i hnone
    have hsame : ((lower w = lower world ∧ permission = "deployment".toList) ∧
        lower address = lower signer) → ∀ q, q ∈ (parcels.map canonicalizePointer).dedup ↔
          q ∈ db.held world signer ++ parcels.map canonicalizePointer := by
      rintro ⟨⟨hworld, rfl⟩, haddress⟩ q
      have hheld : db.held world signer = [] := by
        refine List.eq_nil_iff_forall_not_mem.mpr fun q hq => ?_
        obtain ⟨p, hp, hgrant, -⟩ := mem_held.mp hq
        refine List.find?_eq_none.mp (Option.map_eq_none_iff.mp hnone) p hp ?_
        rw [Bool.and_eq_true, decide_eq_true_eq, isFor_iff, hworld, haddress, ← hgrant.2]
        exact ⟨isFor_iff.mp hgrant.1, (hok.lowered p hp).2.symm⟩
      rw [hheld, List.mem_dedup, List.nil_append]
    constructor
    · rintro ⟨p', hp', hgrant, hcover⟩
      rcases List.mem_append.mp hp' with hp' | hp'
      · exact absurd ⟨p', hp', hgrant, hcover⟩ h
      · obtain rfl := List.mem_singleton.mp hp'
        obtain ⟨hfor, haddress⟩ := hgrant
        rw [isFor_iff] at hfor
        simp only [lower_lower] at hfor haddress
        exact ⟨⟨hfor, haddress⟩, (covering_congr (hsame ⟨hfor, haddress⟩)).mp hcover⟩
    · rintro ⟨hmatch, hcover⟩
      refine ⟨_, List.mem_append_right _ (List.mem_singleton_self _), ⟨?_, ?_⟩,
        (covering_congr (hsame hmatch)).mpr hcover⟩
      · rw [isFor_iff, lower_lower]
        exact hmatch.1
      · rw [lower_lower]
        exact hmatch.2

theorem covers_removeParcels (h : ¬ Covers db world signer needed) (id : ℕ) (parcels : List Text) :
    Covers (db.removeParcelsFromPermission id parcels) world signer needed ↔
      Widens db world signer needed (.removeParcels id parcels) := by
  constructor
  · rintro ⟨p', hp', hgrant, hcover⟩
    obtain ⟨p, hp, rfl⟩ := List.mem_map.mp hp'
    split_ifs at hgrant hcover with hid
    · refine ⟨p, hp, hid, hgrant, ?_⟩
      rcases hcover with hempty | hall
      · intro q hq
        simpa using List.filter_eq_nil_iff.mp hempty q hq
      · exact absurd ⟨p, hp, hgrant, .inr fun q hq => (List.mem_filter.mp (hall q hq)).1⟩ h
    · exact absurd ⟨p, hp, hgrant, hcover⟩ h
  · rintro ⟨p, hp, hid, hgrant, hall⟩
    refine ⟨_, List.mem_map.mpr ⟨p, hp, if_pos hid⟩, hgrant, .inl ?_⟩
    refine List.filter_eq_nil_iff.mpr fun q hq => ?_
    simpa using hall q hq

end Changes

/-! ### Runs -/

/-- In every state that a run reaches, the next step makes a grant of the address cover parcels that
none covered exactly when it is one of these: a grant for the whole world; parcels that complete those
listed, where none listed at all is the whole world too; the removal of all that are listed. -/
theorem newly_covered_iff {pointersOf : Text → List Text} {events : List Event} {world signer : Text}
    {needed : List Text} (h : ¬ Covers (run pointersOf events).db world signer needed) (e : Event) :
    Covers (run pointersOf (events ++ [e])).db world signer needed ↔
      Widens (run pointersOf events).db world signer needed e := by
  have hok := (run_inv pointersOf events).permissions
  rw [run_concat]
  cases e with
  | arrive w s owns task => exact iff_of_false h id
  | drop i => exact iff_of_false h id
  | advance i =>
    refine iff_of_false ?_ id
    simp only [step]
    split
    · rename_i r _
      rcases advanceRequest_db pointersOf (run pointersOf events).db r with
        hsame | ⟨replacement, -, hcommit⟩
      · rwa [hsame]
      · rw [hcommit, covers_congr (commit_permissions _ _ r replacement).1]
        exact h
    · exact h
  | grantWorldWide w permission addresses => exact covers_grantWorldWide hok h w permission addresses
  | removeAddresses w permission addresses =>
    refine iff_of_false ?_ id
    rintro ⟨p, hp, hgrant, hcover⟩
    exact h ⟨p, (List.mem_filter.mp hp).1, hgrant, hcover⟩
  | addParcels w permission address parcels => exact covers_addParcels hok h w permission address parcels
  | removeParcels id parcels => exact covers_removeParcels h id parcels

/-- One parcel is granted and taken away again: the grant is now for the whole world. -/
theorem newly_covered_iff_removed :
    let events : List Event :=
      [.addParcels "w.dcl.eth".toList "deployment".toList "0xB".toList ["0,0".toList]]
    let needed := ["9,9".toList]
    Covers (run (fun _ => []) (events ++ [.removeParcels 0 ["0,00".toList]])).db "w.dcl.eth".toList
        "0xb".toList needed ↔
      Widens (run (fun _ => []) events).db "w.dcl.eth".toList "0xb".toList needed
        (.removeParcels 0 ["0,00".toList]) :=
  newly_covered_iff (by unfold Covers Permission.grants; decide) _

end Catalyrst.WorldScenes

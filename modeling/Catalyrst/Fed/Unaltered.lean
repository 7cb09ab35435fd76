import Mathlib
import Catalyrst.Fed.Messages
import Catalyrst.Lib.Segments

/-!
# What a federated signature fixes

The bytes under a signature always fix the type of the message, the nonce and the time. They
fix the message just when no part of it can be taken for another: texts without zero
characters, no list of texts but the empty one, and options that are not read as a default.
-/

namespace Catalyrst.Fed

open Catalyrst.Crypto Catalyrst.Lib.Segments

/-! ### Bytes and texts -/

def nul : Char := '\x00'
def one : Char := '\x01'

def flagChar (b : Bool) : Char := if b then one else nul

theorem utf8_flag (b : Bool) : utf8 [flagChar b] = [flagByte b] := by
  cases b <;> rfl

theorem flagChar_inj {b b' : Bool} (h : flagChar b = flagChar b') : b = b' := by
  revert h
  cases b <;> cases b' <;> decide

theorem utf8_joined (fs : List Text) : utf8 (joined nul fs) = fs.flatMap ec := by
  have hnul : utf8 [nul] = [0] := rfl
  induction fs with
  | nil => rfl
  | cons f fs ih =>
    rw [joined_cons, ← List.singleton_append, utf8_append, utf8_append, ih, hnul, List.flatMap_cons, ec,
      List.append_assoc]

/-! ### What follows the type -/

/-- The encoding after the type and its zero byte. -/
def Message.rest : Message → Bytes
  | .communityCreate name description isPrivate unlisted flags =>
    utf8 (joined nul [name, description] ++ flagChar isPrivate :: flagChar unlisted :: joined nul flags)
  | .communityUpdate communityId name description isPrivate unlisted =>
    utf8 (joined nul [communityId, name.getD [], description.getD []] ++
      [flagChar (isPrivate.getD false), flagChar (unlisted.getD false)])
  | .communityDelete communityId | .communityJoin communityId => utf8 (joined nul [communityId])
  | .communityLeave a b | .communityUnban a b | .communityPlaceRemove a b | .communityPost a b
  | .communityPostDelete a b | .communityPostLike a b | .communityPostUnlike a b =>
    utf8 (joined nul [a, b])
  | .communityRole a b c | .communityRequestStatusUpdate a b c => utf8 (joined nul [a, b, c])
  | .communityBan communityId target reason => utf8 (joined nul [communityId, target, reason.getD []])
  | .communityPlacesAdd communityId placeIds => utf8 (joined nul (communityId :: placeIds))
  | .placeFavorite placeId action signedAt =>
    utf8 placeId ++ action.byte :: toBeBytes signedAt.toBitVec
  | .placeVote placeId score signedAt => utf8 placeId ++ score.toUInt8 :: toBeBytes signedAt.toBitVec
  | .placeReport placeId reason signedAt => utf8 placeId ++ reason.byte :: toBeBytes signedAt.toBitVec

theorem encodeTexts_eq (type : PrimaryType) (fields : List Text) :
    encodeTexts type fields = utf8 type.text ++ 0 :: utf8 (joined nul fields) := by
  rw [utf8_joined]
  simp [encodeTexts, ec]

theorem encodePlace_eq (type : PrimaryType) (placeId : Text) (byte : UInt8) (signedAt : Int64) :
    encodePlace type placeId byte signedAt =
      utf8 type.text ++ 0 :: (utf8 placeId ++ byte :: toBeBytes signedAt.toBitVec) := by
  simp [encodePlace, ec]

theorem encodeStruct_eq (m : Message) :
    m.encodeStruct = utf8 m.primaryType.text ++ 0 :: m.rest := by
  have hflags : ∀ (b b' : Bool) (t : Text),
      utf8 (flagChar b :: flagChar b' :: t) = [flagByte b, flagByte b'] ++ utf8 t := by
    intro b b' t
    change utf8 ([flagChar b] ++ ([flagChar b'] ++ t)) = [flagByte b] ++ ([flagByte b'] ++ utf8 t)
    rw [utf8_append, utf8_append, utf8_flag, utf8_flag]
  cases m with
  | communityCreate name description isPrivate unlisted flags =>
    simp only [Message.encodeStruct, encodeTexts_eq, Message.rest, utf8_append, hflags, utf8_joined flags,
      Message.primaryType, List.append_assoc, List.cons_append]
  | communityUpdate communityId name description isPrivate unlisted =>
    simp only [Message.encodeStruct, encodeTexts_eq, Message.rest, utf8_append, hflags,
      Message.primaryType, List.append_assoc, List.cons_append]
    rfl
  | placeFavorite | placeVote | placeReport => exact encodePlace_eq _ _ _ _
  | _ => exact encodeTexts_eq _ _

theorem text_no_zero (type : PrimaryType) : 0 ∉ utf8 type.text := by
  cases type <;> decide

theorem text_inj {type type' : PrimaryType} (h : type.text = type'.text) : type = type' := by
  revert h
  cases type <;> cases type' <;> decide

theorem encodeStruct_inj {m m' : Message} :
    m.encodeStruct = m'.encodeStruct ↔ m.primaryType = m'.primaryType ∧ m.rest = m'.rest := by
  rw [encodeStruct_eq, encodeStruct_eq]
  constructor
  · intro h
    obtain ⟨htext, hrest⟩ := append_cons_inj (text_no_zero _) (text_no_zero _) h
    exact ⟨text_inj (utf8_inj htext), hrest⟩
  · rintro ⟨htype, hrest⟩
    rw [htype, hrest]

/-! ### Messages that the bytes fix -/

/-- A text that is there, is not empty and holds no zero character. -/
def Definite (o : Option Text) : Prop := ∃ s, o = some s ∧ s ≠ [] ∧ nul ∉ s

/-- A flag that can be read neither as one of the two booleans nor as part of the description. -/
def FlagFixed (isPrivate unlisted : Bool) (f : Text) : Prop :=
  nul ∉ f ∧ ¬ (isPrivate = false ∧ (f = [] ∨ ∃ g, f = one :: g)) ∧
    ¬ (unlisted = false ∧ (f = [one] ∨ ∃ g, f = one :: one :: g))

/-- No other message of the same type has the same bytes. -/
def Fixed : Message → Prop
  | .communityCreate name description isPrivate unlisted flags =>
    nul ∉ name ∧ nul ∉ description ∧ (flags = [] ∨ ∃ f, flags = [f] ∧ FlagFixed isPrivate unlisted f)
  | .communityUpdate communityId name description isPrivate unlisted =>
    nul ∉ communityId ∧ Definite name ∧ Definite description ∧ isPrivate = some true ∧
      unlisted = some true
  | .communityLeave a b | .communityUnban a b | .communityPlaceRemove a b | .communityPost a b
  | .communityPostDelete a b | .communityPostLike a b | .communityPostUnlike a b => nul ∉ a ∧ nul ∉ b
  | .communityRole a b c | .communityRequestStatusUpdate a b c => nul ∉ a ∧ nul ∉ b ∧ nul ∉ c
  | .communityBan communityId target reason => nul ∉ communityId ∧ nul ∉ target ∧ Definite reason
  | .communityPlacesAdd communityId placeIds => nul ∉ communityId ∧ placeIds = []
  | .communityDelete _ | .communityJoin _ | .placeFavorite .. | .placeVote .. | .placeReport .. => True

def Unique (m : Message) : Prop :=
  ∀ m' : Message, m.primaryType = m'.primaryType → m.rest = m'.rest → m' = m

theorem joined_fixed (fs : List Text) (hlen : 2 ≤ fs.length) :
    (∀ gs, gs.length = fs.length → joined nul fs = joined nul gs → gs = fs) ↔ ∀ f ∈ fs, nul ∉ f := by
  constructor
  · intro h f hf hnul
    obtain ⟨gs, hlen', hjoined, hne⟩ := exists_other_joined hlen hf hnul
    exact hne (h gs hlen' hjoined)
  · intro h gs hlen' hjoined
    exact joined_inj h hlen' hjoined

section Texts

variable {type : PrimaryType}

theorem single_unique {mk : Text → Message} (hrest : ∀ a, (mk a).rest = utf8 (joined nul [a]))
    (a : Text) (hinv : ∀ m' : Message, (mk a).primaryType = m'.primaryType → ∃ a', m' = mk a') :
    Unique (mk a) := by
  intro m' htype hbytes
  obtain ⟨a', rfl⟩ := hinv m' htype
  rw [hrest, hrest] at hbytes
  have hjoined := utf8_inj hbytes
  simp only [joined, List.flatMap_cons, List.flatMap_nil, List.append_nil] at hjoined
  rw [List.append_cancel_right hjoined]

theorem forall_fin_three {P : Fin 3 → Prop} : (∀ i, P i) ↔ P 0 ∧ P 1 ∧ P 2 :=
  Fin.forall_fin_succ.trans (and_congr_right' Fin.forall_fin_two)

theorem texts_unique {n : ℕ} (hn : 2 ≤ n) (mk : (Fin n → Text) → Message)
    (hrest : ∀ fs, (mk fs).rest = utf8 (joined nul (List.ofFn fs)))
    (htype : ∀ fs, (mk fs).primaryType = type)
    (hinv : ∀ m' : Message, type = m'.primaryType → ∃ fs, m' = mk fs)
    (hinj : ∀ fs gs, mk fs = mk gs → ∀ i, fs i = gs i) (fs : Fin n → Text) :
    Unique (mk fs) ↔ ∀ i, nul ∉ fs i := by
  have hfixed := joined_fixed (List.ofFn fs) (by simpa using hn)
  rw [List.forall_mem_ofFn_iff] at hfixed
  rw [← hfixed]
  constructor
  · intro h gs hlen hjoined
    obtain rfl : gs.length = n := hlen.trans List.length_ofFn
    have hback : List.ofFn gs.get = gs := List.ofFn_get gs
    have hsame := h (mk gs.get) ((htype fs).trans (htype gs.get).symm)
      (by rw [hrest, hrest, hback, hjoined])
    exact hback.symm.trans (congrArg List.ofFn (funext (hinj _ _ hsame)))
  · intro h m' hsame hbytes
    obtain ⟨gs, rfl⟩ := hinv m' ((htype fs).symm.trans hsame)
    rw [hrest, hrest] at hbytes
    rw [List.ofFn_injective (h (List.ofFn gs) (by simp) (utf8_inj hbytes))]

end Texts

theorem place_unique {placeId placeId' : Text} {byte byte' : UInt8} {t t' : Int64}
    (h : utf8 placeId ++ byte :: toBeBytes t.toBitVec = utf8 placeId' ++ byte' :: toBeBytes t'.toBitVec) :
    placeId' = placeId ∧ byte' = byte ∧ t' = t := by
  obtain ⟨hplace, htail⟩ := List.append_inj' h (by simp [toBeBytes_length])
  obtain ⟨hbyte, htime⟩ := List.cons.inj htail
  exact ⟨(utf8_inj hplace).symm, hbyte.symm, (Int64.toBitVec_inj.mp (toBeBytes_inj htime)).symm⟩

/-! ### Options -/

theorem eq_some_of_getD {o : Option Text} {s : Text} (hs : s ≠ []) (h : o.getD [] = s) : o = some s := by
  cases o with
  | none => exact absurd h.symm hs
  | some t => exact congrArg some h

/-- An option that is missing and one that is empty are not told apart. -/
theorem definite_of_unique {o : Option Text} (hnul : nul ∉ o.getD [])
    (h : ∀ o' : Option Text, o.getD [] = o'.getD [] → o' = o) : Definite o := by
  cases o with
  | none => exact absurd (h (some []) rfl) (by simp)
  | some s =>
    refine ⟨s, rfl, ?_, hnul⟩
    rintro rfl
    exact absurd (h none rfl) (by simp)

theorem eq_some_true_of_unique {o : Option Bool}
    (h : ∀ o' : Option Bool, o.getD false = o'.getD false → o' = o) : o = some true := by
  cases o with
  | none => exact absurd (h (some false) rfl) (by simp)
  | some b =>
    cases b with
    | false => exact absurd (h none rfl) (by simp)
    | true => rfl

theorem ban_unique (communityId target : Text) (reason : Option Text) :
    Unique (.communityBan communityId target reason) ↔
      nul ∉ communityId ∧ nul ∉ target ∧ Definite reason := by
  have hfixed := joined_fixed [communityId, target, reason.getD []] (by simp)
  simp only [List.forall_mem_cons, List.not_mem_nil, false_implies, implies_true, and_true] at hfixed
  constructor
  · intro h
    obtain ⟨hid, htarget, hreason⟩ := hfixed.mp fun gs hlen hjoined => by
      obtain ⟨a, b, c, rfl⟩ := List.length_eq_three.mp hlen
      have heq := h (.communityBan a b (some c)) rfl (congrArg utf8 hjoined)
      simp only [Message.communityBan.injEq] at heq
      rw [heq.1, heq.2.1, ← heq.2.2, Option.getD_some]
    refine ⟨hid, htarget, definite_of_unique hreason fun o' ho' => ?_⟩
    have heq := h (.communityBan communityId target o') rfl (by rw [Message.rest, Message.rest, ho'])
    simp only [Message.communityBan.injEq, true_and] at heq
    exact heq
  · rintro ⟨hid, htarget, s, rfl, hs, hnul⟩ m' htype hbytes
    cases m' with
    | communityBan a b c =>
      have heq := hfixed.mpr ⟨hid, htarget, hnul⟩ [a, b, c.getD []] rfl (utf8_inj hbytes)
      simp only [List.cons.injEq, and_true, Option.getD_some] at heq
      rw [heq.1, heq.2.1, eq_some_of_getD hs heq.2.2]
    | _ => cases htype

theorem update_unique (communityId : Text) (name description : Option Text)
    (isPrivate unlisted : Option Bool) :
    Unique (.communityUpdate communityId name description isPrivate unlisted) ↔
      nul ∉ communityId ∧ Definite name ∧ Definite description ∧ isPrivate = some true ∧
        unlisted = some true := by
  have hfixed := joined_fixed [communityId, name.getD [], description.getD []] (by simp)
  simp only [List.forall_mem_cons, List.not_mem_nil, false_implies, implies_true, and_true] at hfixed
  constructor
  · intro h
    obtain ⟨hid, hname, hdesc⟩ := hfixed.mp fun gs hlen hjoined => by
      obtain ⟨a, b, c, rfl⟩ := List.length_eq_three.mp hlen
      have heq := h (.communityUpdate a (some b) (some c) isPrivate unlisted) rfl
        (by rw [Message.rest, Message.rest, hjoined, Option.getD_some, Option.getD_some])
      simp only [Message.communityUpdate.injEq] at heq
      rw [heq.1, ← heq.2.1, ← heq.2.2.1, Option.getD_some, Option.getD_some]
    refine ⟨hid, definite_of_unique hname fun o ho => ?_, definite_of_unique hdesc fun o ho => ?_,
      eq_some_true_of_unique fun o ho => ?_, eq_some_true_of_unique fun o ho => ?_⟩
    · have heq := h (.communityUpdate communityId o description isPrivate unlisted) rfl
        (by rw [Message.rest, Message.rest, ho])
      simp only [Message.communityUpdate.injEq] at heq
      exact heq.2.1
    · have heq := h (.communityUpdate communityId name o isPrivate unlisted) rfl
        (by rw [Message.rest, Message.rest, ho])
      simp only [Message.communityUpdate.injEq] at heq
      exact heq.2.2.1
    · have heq := h (.communityUpdate communityId name description o unlisted) rfl
        (by rw [Message.rest, Message.rest, ho])
      simp only [Message.communityUpdate.injEq] at heq
      exact heq.2.2.2.1
    · have heq := h (.communityUpdate communityId name description isPrivate o) rfl
        (by rw [Message.rest, Message.rest, ho])
      simp only [Message.communityUpdate.injEq] at heq
      exact heq.2.2.2.2
  · rintro ⟨hid, ⟨n, rfl, hn, hnul⟩, ⟨d, rfl, hd, hnul'⟩, rfl, rfl⟩ m' htype hbytes
    cases m' with
    | communityUpdate a b c p u =>
      obtain ⟨hjoined, hflags⟩ := List.append_inj' (utf8_inj hbytes) rfl
      have heq := hfixed.mpr ⟨hid, hnul, hnul'⟩ [a, b.getD [], c.getD []] rfl hjoined
      simp only [List.cons.injEq, and_true, Option.getD_some] at heq hflags
      have hflag : ∀ {o : Option Bool}, flagChar true = flagChar (o.getD false) → o = some true := by
        intro o ho
        have hget := (flagChar_inj ho).symm
        cases o with
        | none => cases hget
        | some b => exact congrArg some hget
      rw [heq.1, eq_some_of_getD hn heq.2.1, eq_some_of_getD hd heq.2.2, hflag hflags.1, hflag hflags.2]
    | _ => cases htype

/-! ### Lists -/

theorem places_add_unique (communityId : Text) (placeIds : List Text) :
    Unique (.communityPlacesAdd communityId placeIds) ↔ nul ∉ communityId ∧ placeIds = [] := by
  constructor
  · intro h
    constructor
    · intro hnul
      obtain ⟨s, t, rfl⟩ := List.append_of_mem hnul
      have heq := h (.communityPlacesAdd s (t :: placeIds)) rfl
        (by simp [Message.rest, joined_cons])
      simp at heq
    · cases placeIds with
      | nil => rfl
      | cons f fs =>
        have heq := h (.communityPlacesAdd (communityId ++ nul :: f) fs) rfl
          (by simp [Message.rest, joined_cons])
        simp at heq
  · rintro ⟨hnul, rfl⟩ m' htype hbytes
    cases m' with
    | communityPlacesAdd a fs =>
      have hsingle : joined nul [communityId] = joined nul (a :: fs) := utf8_inj hbytes
      rw [joined_cons] at hsingle
      have heq := joined_single hnul hsingle
      simp only [List.cons.injEq] at heq
      rw [heq.1, heq.2]
    | _ => cases htype

/-! ### A community and its flags -/

section Create

variable {isPrivate unlisted isPrivate' unlisted' : Bool} {flags flags' : List Text}

/-- The two booleans and the flags. -/
def settings (isPrivate unlisted : Bool) (flags : List Text) : Text :=
  flagChar isPrivate :: flagChar unlisted :: joined nul flags

theorem flagChar_cases (b : Bool) : flagChar b = nul ∧ b = false ∨ flagChar b = one ∧ b = true := by
  cases b
  · exact .inl ⟨rfl, rfl⟩
  · exact .inr ⟨rfl, rfl⟩

/-- The settings do not end in other settings behind a zero character. -/
theorem settings_ne_tail (h : flags = [] ∨ ∃ f, flags = [f] ∧ FlagFixed isPrivate unlisted f)
    (r : Text) :
    settings isPrivate unlisted flags ≠ r ++ nul :: settings isPrivate' unlisted' flags' := by
  intro heq
  rcases h with rfl | ⟨f, rfl, hnul, hprivate, hunlisted⟩
  · have hlen := congrArg List.length heq
    simp [settings, joined] at hlen
    omega
  have hjoined : joined nul [f] = f ++ [nul] := by simp [joined]
  unfold settings at heq
  rw [hjoined] at heq
  cases r with
  | nil =>
    -- the separator is `isPrivate`, and the flag begins with what was `unlisted`
    simp only [List.nil_append, List.cons.injEq] at heq
    obtain ⟨hp, -, hrest⟩ := heq
    refine hprivate ⟨?_, ?_⟩
    · rcases flagChar_cases isPrivate with ⟨-, h⟩ | ⟨h, -⟩
      · exact h
      · exact absurd (h.symm.trans hp) (by decide)
    · cases f with
      | nil => exact .inl rfl
      | cons c g =>
        simp only [List.cons_append, List.cons.injEq] at hrest
        rcases flagChar_cases unlisted' with ⟨h, -⟩ | ⟨h, -⟩
        · exact absurd (List.mem_cons.mpr (.inl (hrest.1.trans h).symm)) hnul
        · exact .inr ⟨g, by rw [hrest.1.trans h]⟩
  | cons c r =>
    cases r with
    | nil =>
      simp only [List.cons_append, List.nil_append, List.cons.injEq] at heq
      obtain ⟨-, hu, hrest⟩ := heq
      refine hunlisted ⟨?_, ?_⟩
      · rcases flagChar_cases unlisted with ⟨-, h⟩ | ⟨h, -⟩
        · exact h
        · exact absurd (h.symm.trans hu) (by decide)
      · cases f with
        | nil => simp at hrest
        | cons c' f =>
          cases f with
          | nil =>
            simp only [List.cons_append, List.cons.injEq] at hrest
            rcases flagChar_cases isPrivate' with ⟨h, -⟩ | ⟨h, -⟩
            · exact absurd (List.mem_cons.mpr (.inl (hrest.1.trans h).symm)) hnul
            · exact .inl (by rw [hrest.1.trans h])
          | cons e g =>
            simp only [List.cons_append, List.cons.injEq] at hrest
            rw [List.mem_cons, List.mem_cons, not_or, not_or] at hnul
            rcases flagChar_cases isPrivate' with ⟨h, -⟩ | ⟨h, -⟩
            · exact absurd (hrest.1.trans h).symm hnul.1
            · rcases flagChar_cases unlisted' with ⟨h', -⟩ | ⟨h', -⟩
              · exact absurd (hrest.2.1.trans h').symm hnul.2.1
              · exact .inr ⟨g, by rw [hrest.1.trans h, hrest.2.1.trans h']⟩
    | cons e r =>
      simp only [List.cons_append, List.cons.injEq] at heq
      rcases append_cons_cases hnul heq.2.2 with ⟨-, h⟩ | ⟨r', -, h⟩
      · cases h
      · simp at h

theorem settings_inj (h : flags = [] ∨ ∃ f, flags = [f] ∧ FlagFixed isPrivate unlisted f)
    (heq : settings isPrivate unlisted flags = settings isPrivate' unlisted' flags') :
    isPrivate' = isPrivate ∧ unlisted' = unlisted ∧ flags' = flags := by
  simp only [settings, List.cons.injEq] at heq
  refine ⟨(flagChar_inj heq.1).symm, (flagChar_inj heq.2.1).symm, ?_⟩
  rcases h with rfl | ⟨f, rfl, hnul, -, -⟩
  · exact joined_eq_nil heq.2.2.symm
  · have hsingle := heq.2.2
    rw [joined_cons] at hsingle
    exact joined_single hnul hsingle

/-- Where the settings can be read twice, the description takes a part of them. -/
theorem flag_fixed_of_unique {f : Text} (hnul : nul ∉ f)
    (h : ∀ (r : Text) (isPrivate' unlisted' : Bool) (flags' : List Text),
      settings isPrivate unlisted [f] ≠ r ++ nul :: settings isPrivate' unlisted' flags') :
    FlagFixed isPrivate unlisted f := by
  refine ⟨hnul, ?_, ?_⟩
  · rintro ⟨rfl, rfl | ⟨g, rfl⟩⟩
    · exact h [] unlisted false [] (by simp [settings, joined, flagChar])
    · exact h [] unlisted true [g] (by simp [settings, joined, flagChar])
  · rintro ⟨rfl, rfl | ⟨g, rfl⟩⟩
    · exact h [flagChar isPrivate] true false [] (by simp [settings, joined, flagChar])
    · exact h [flagChar isPrivate] true true [g] (by simp [settings, joined, flagChar])

end Create

theorem create_unique (name description : Text) (isPrivate unlisted : Bool) (flags : List Text) :
    Unique (.communityCreate name description isPrivate unlisted flags) ↔
      nul ∉ name ∧ nul ∉ description ∧
        (flags = [] ∨ ∃ f, flags = [f] ∧ FlagFixed isPrivate unlisted f) := by
  have hrest : ∀ (n d : Text) (p u : Bool) (fs : List Text),
      (Message.communityCreate n d p u fs).rest = utf8 (n ++ nul :: (d ++ nul :: settings p u fs)) := by
    intro n d p u fs
    simp [Message.rest, settings, joined]
  constructor
  · intro h
    refine ⟨fun hnul => ?_, fun hnul => ?_, ?_⟩
    · obtain ⟨s, t, rfl⟩ := List.append_of_mem hnul
      have heq := h (.communityCreate s (t ++ nul :: description) isPrivate unlisted flags) rfl
        (by simp [hrest])
      simp at heq
    · obtain ⟨s, t, rfl⟩ := List.append_of_mem hnul
      have heq := h (.communityCreate (name ++ nul :: s) t isPrivate unlisted flags) rfl
        (by simp [hrest])
      simp at heq
    · cases flags with
      | nil => exact .inl rfl
      | cons f fs =>
        cases fs with
        | nil =>
          refine .inr ⟨f, rfl, flag_fixed_of_unique (fun hnul => ?_) fun r p u fs hsettings => ?_⟩
          · obtain ⟨s, t, rfl⟩ := List.append_of_mem hnul
            have heq := h (.communityCreate name description isPrivate unlisted [s, t]) rfl
              (by simp [hrest, settings, joined_cons])
            simp at heq
          · have heq := h (.communityCreate name (description ++ nul :: r) p u fs) rfl
              (by simp [hrest, hsettings])
            simp at heq
        | cons f' fs =>
          have heq := h (.communityCreate name description isPrivate unlisted
            ((f ++ nul :: f') :: fs)) rfl (by simp [hrest, settings, joined_cons])
          simp at heq
  · rintro ⟨hname, hdesc, hflags⟩ m' htype hbytes
    cases m' with
    | communityCreate n d p u fs =>
      rw [hrest, hrest] at hbytes
      -- the name and the description end where they should, or settings end in settings
      rcases append_cons_cases hname (utf8_inj hbytes) with ⟨rfl, htail⟩ | ⟨r, -, htail⟩
      · rcases append_cons_cases hdesc htail.symm with ⟨rfl, hsettings⟩ | ⟨r, -, hsettings⟩
        · obtain ⟨rfl, rfl, rfl⟩ := settings_inj hflags hsettings.symm
          rfl
        · exact absurd hsettings (settings_ne_tail hflags r)
      · rcases append_cons_cases hdesc htail with ⟨-, hsettings⟩ | ⟨r', -, hsettings⟩
        · exact absurd hsettings.symm (settings_ne_tail hflags d)
        · have hinner : settings isPrivate unlisted flags = (r' ++ nul :: d) ++ nul :: settings p u fs := by
            rw [hsettings, List.append_assoc, List.cons_append]
          exact absurd hinner (settings_ne_tail hflags (r' ++ nul :: d))
    | _ => cases htype

/-! ### All messages -/

theorem unique_iff_fixed (m : Message) : Unique m ↔ Fixed m := by
  cases m with
  | communityCreate name description isPrivate unlisted flags =>
    exact create_unique name description isPrivate unlisted flags
  | communityUpdate communityId name description isPrivate unlisted =>
    exact update_unique communityId name description isPrivate unlisted
  | communityBan communityId target reason => exact ban_unique communityId target reason
  | communityPlacesAdd communityId placeIds => exact places_add_unique communityId placeIds
  | communityDelete a =>
    refine iff_of_true (single_unique (fun _ => rfl) a fun m' htype => ?_) trivial
    cases m' <;> first | exact ⟨_, rfl⟩ | cases htype
  | communityJoin a =>
    refine iff_of_true (single_unique (fun _ => rfl) a fun m' htype => ?_) trivial
    cases m' <;> first | exact ⟨_, rfl⟩ | cases htype
  | communityLeave a b =>
    refine (texts_unique le_rfl (fun fs => .communityLeave (fs 0) (fs 1)) (fun _ => rfl)
      (fun _ => rfl) (fun m' htype => ?_) (fun _ _ h => Fin.forall_fin_two.mpr
        (Message.communityLeave.inj h)) ![a, b]).trans Fin.forall_fin_two
    cases m' <;> first | exact ⟨![_, _], rfl⟩ | cases htype
  | communityUnban a b =>
    refine (texts_unique le_rfl (fun fs => .communityUnban (fs 0) (fs 1)) (fun _ => rfl)
      (fun _ => rfl) (fun m' htype => ?_) (fun _ _ h => Fin.forall_fin_two.mpr
        (Message.communityUnban.inj h)) ![a, b]).trans Fin.forall_fin_two
    cases m' <;> first | exact ⟨![_, _], rfl⟩ | cases htype
  | communityPlaceRemove a b =>
    refine (texts_unique le_rfl (fun fs => .communityPlaceRemove (fs 0) (fs 1)) (fun _ => rfl)
      (fun _ => rfl) (fun m' htype => ?_) (fun _ _ h => Fin.forall_fin_two.mpr
        (Message.communityPlaceRemove.inj h)) ![a, b]).trans Fin.forall_fin_two
    cases m' <;> first | exact ⟨![_, _], rfl⟩ | cases htype
  | communityPost a b =>
    refine (texts_unique le_rfl (fun fs => .communityPost (fs 0) (fs 1)) (fun _ => rfl)
      (fun _ => rfl) (fun m' htype => ?_) (fun _ _ h => Fin.forall_fin_two.mpr
        (Message.communityPost.inj h)) ![a, b]).trans Fin.forall_fin_two
    cases m' <;> first | exact ⟨![_, _], rfl⟩ | cases htype
  | communityPostDelete a b =>
    refine (texts_unique le_rfl (fun fs => .communityPostDelete (fs 0) (fs 1)) (fun _ => rfl)
      (fun _ => rfl) (fun m' htype => ?_) (fun _ _ h => Fin.forall_fin_two.mpr
        (Message.communityPostDelete.inj h)) ![a, b]).trans Fin.forall_fin_two
    cases m' <;> first | exact ⟨![_, _], rfl⟩ | cases htype
  | communityPostLike a b =>
    refine (texts_unique le_rfl (fun fs => .communityPostLike (fs 0) (fs 1)) (fun _ => rfl)
      (fun _ => rfl) (fun m' htype => ?_) (fun _ _ h => Fin.forall_fin_two.mpr
        (Message.communityPostLike.inj h)) ![a, b]).trans Fin.forall_fin_two
    cases m' <;> first | exact ⟨![_, _], rfl⟩ | cases htype
  | communityPostUnlike a b =>
    refine (texts_unique le_rfl (fun fs => .communityPostUnlike (fs 0) (fs 1)) (fun _ => rfl)
      (fun _ => rfl) (fun m' htype => ?_) (fun _ _ h => Fin.forall_fin_two.mpr
        (Message.communityPostUnlike.inj h)) ![a, b]).trans Fin.forall_fin_two
    cases m' <;> first | exact ⟨![_, _], rfl⟩ | cases htype
  | communityRole a b c =>
    refine (texts_unique (by simp) (fun fs => .communityRole (fs 0) (fs 1) (fs 2))
      (fun _ => rfl) (fun _ => rfl) (fun m' htype => ?_) (fun _ _ h => forall_fin_three.mpr
        (Message.communityRole.inj h)) ![a, b, c]).trans forall_fin_three
    cases m' <;> first | exact ⟨![_, _, _], rfl⟩ | cases htype
  | communityRequestStatusUpdate a b c =>
    refine (texts_unique (by simp) (fun fs => .communityRequestStatusUpdate (fs 0) (fs 1) (fs 2))
      (fun _ => rfl) (fun _ => rfl) (fun m' htype => ?_) (fun _ _ h => forall_fin_three.mpr
        (Message.communityRequestStatusUpdate.inj h)) ![a, b, c]).trans forall_fin_three
    cases m' <;> first | exact ⟨![_, _, _], rfl⟩ | cases htype
  | placeFavorite placeId action signedAt =>
    refine iff_of_true (fun m' htype hbytes => ?_) trivial
    cases m' with
    | placeFavorite placeId' action' signedAt' =>
      obtain ⟨rfl, hbyte, rfl⟩ := place_unique hbytes
      have haction : action' = action := by
        revert hbyte
        cases action <;> cases action' <;> decide
      rw [haction]
    | _ => cases htype
  | placeVote placeId score signedAt =>
    refine iff_of_true (fun m' htype hbytes => ?_) trivial
    cases m' with
    | placeVote placeId' score' signedAt' =>
      obtain ⟨rfl, hbyte, rfl⟩ := place_unique hbytes
      have hscore : score' = score := Int8.toBitVec_inj.mp (congrArg UInt8.toBitVec hbyte)
      rw [hscore]
    | _ => cases htype
  | placeReport placeId reason signedAt =>
    refine iff_of_true (fun m' htype hbytes => ?_) trivial
    cases m' with
    | placeReport placeId' reason' signedAt' =>
      obtain ⟨rfl, hbyte, rfl⟩ := place_unique hbytes
      have hreason : reason' = reason := by
        revert hbyte
        cases reason <;> cases reason' <;> decide
      rw [hreason]
    | _ => cases htype

theorem hashInput_inj {sha256 : Digest} {a b : Signed} (h : a.hashInput sha256 = b.hashInput sha256) :
    a.message.encodeStruct = b.message.encodeStruct ∧ a.nonce = b.nonce ∧ a.signedAt = b.signedAt := by
  obtain ⟨hrest, htime⟩ := List.append_inj' h (by simp [toBeBytes_length])
  obtain ⟨hrest, hnonce⟩ := List.append_inj' hrest (by simp)
  obtain ⟨-, hstruct⟩ := List.append_inj hrest (by simp [domainSeparator])
  exact ⟨hstruct, Vector.toList_inj.mp hnonce, Int64.toBitVec_inj.mp (toBeBytes_inj htime)⟩

/-- The bytes fix the type, the nonce and the time of every action, and the message of those
that are `Fixed`. -/
theorem signature_binds_action (sha256 : Digest) (consumers : Consumers) (a : Signed)
    (ha : consumers.checkDomain a = true) :
    (∀ b : Signed, consumers.checkDomain b = true → a.hashInput sha256 = b.hashInput sha256 →
      b.message.primaryType = a.message.primaryType ∧ b.nonce = a.nonce ∧ b.signedAt = a.signedAt) ∧
    ((∀ b : Signed, consumers.checkDomain b = true → a.hashInput sha256 = b.hashInput sha256 →
      b.message = a.message) ↔ Fixed a.message) := by
  constructor
  · intro b _ h
    obtain ⟨hstruct, hnonce, htime⟩ := hashInput_inj h
    exact ⟨(encodeStruct_inj.mp hstruct).1.symm, hnonce.symm, htime.symm⟩
  rw [← unique_iff_fixed]
  constructor
  · intro h m' htype hbytes
    refine h { a with message := m' } ?_ ?_
    · simpa [Consumers.checkDomain, ← htype] using ha
    · simp [Signed.hashInput, encodeStruct_inj.mpr ⟨htype, hbytes⟩]
  · intro h b _ hinput
    obtain ⟨htype, hbytes⟩ := encodeStruct_inj.mp (hashInput_inj hinput).1
    exact h b.message htype hbytes

/-! ### An update that is relayed -/

namespace Sample

def communities : Text :=
  ['D', 'e', 'c', 'e', 'n', 't', 'r', 'a', 'l', 'a', 'n', 'd', 'C', 'o', 'm', 'm', 'u', 'n',
   'i', 't', 'i', 'e', 's']

def places : Text :=
  ['D', 'e', 'c', 'e', 'n', 't', 'r', 'a', 'l', 'a', 'n', 'd', 'P', 'l', 'a', 'c', 'e', 's']

def consumers : Consumers := ⟨communities, places⟩

def domain : Eip712Domain := ⟨communities, ['1'], 137, ['0', 'x', '0']⟩

def signed (m : Message) : Signed := ⟨domain, m, Vector.replicate 16 7, 1700000000, []⟩

/-- Nothing but the description is to change. -/
def update : Message := .communityUpdate ['c'] none (some ['h', 'i']) none none

/-- The same, and the community is made public. -/
def altered : Message := .communityUpdate ['c'] none (some ['h', 'i']) (some false) none

def role : Message := .communityRole ['c'] ['0', 'x', '1'] ['m', 'o', 'd']

end Sample

theorem signature_binds_action_role :
    Sample.consumers.checkDomain (Sample.signed Sample.role) = true ∧
      ∀ (sha256 : Digest) (b : Signed), Sample.consumers.checkDomain b = true →
        (Sample.signed Sample.role).hashInput sha256 = b.hashInput sha256 →
        b.message = Sample.role := by
  have hdomain : Sample.consumers.checkDomain (Sample.signed Sample.role) = true := by decide
  refine ⟨hdomain, fun sha256 => ?_⟩
  refine (signature_binds_action sha256 Sample.consumers (Sample.signed Sample.role) hdomain).2.mpr ?_
  exact ⟨by decide, by decide, by decide⟩

theorem update_altered :
    Sample.consumers.checkDomain (Sample.signed Sample.update) = true ∧
      Sample.consumers.checkDomain (Sample.signed Sample.altered) = true ∧
      (∀ sha256 : Digest, (Sample.signed Sample.update).hashInput sha256 =
        (Sample.signed Sample.altered).hashInput sha256) ∧
      (Sample.signed Sample.update).message ≠ (Sample.signed Sample.altered).message := by
  refine ⟨by decide, by decide, fun _ => rfl, ?_⟩
  simp [Sample.signed, Sample.update, Sample.altered]

end Catalyrst.Fed

import Mathlib
import Catalyrst.Crypto.Binding
import Catalyrst.Lib.JsonReader
import Catalyrst.Lib.Texts

/-!
# Signed metadata in another case

The older payload does not fix the case of the metadata. The guard wants the declared keys in
their declared spelling, so that two texts which pass it have the same declared fields, with
values that are equal up to letter case. Below a value nothing is declared: there two keys may
differ in case in one text and be the same key in the other. Nor is a sigma in a declared key
safe: its small form depends on the letters around it, which escapes hide.
-/

namespace Catalyrst.Crypto

open Catalyrst.Lib Catalyrst.Lib.Fallible
open Catalyrst.Lib.JsonReader (CaseEq FoldEq Lowering)

/-! ### Lower case -/

/-- The two small sigmas as one. -/
def oneSigma (s : Text) : Text := s.map fun c => if c = 'ς' then 'σ' else c

/-- What `str::to_lowercase` does: it lowers the characters one by one, and only the form of a
small sigma depends on what stands around it. The dotted capital I and the Kelvin sign are the
characters from beyond ASCII that have an ASCII letter in lower case. -/
structure LowersCharwise (lower : Text → Text) : Prop where
  append : ∀ s t, oneSigma (lower (s ++ t)) = oneSigma (lower s) ++ oneSigma (lower t)
  nonempty : ∀ c, lower [c] ≠ []
  ascii : ∀ c : Char, c.toNat < 128 → lower [c] = [c.toLower]
  beyond : ∀ c : Char, ¬c.toNat < 128 → ∀ d ∈ lower [c], d.toNat < 128 → d = 'i' ∨ d = 'k'

/-- Equal in lower case, whatever the form of a small sigma. -/
def SameCase (lower : Text → Text) (s t : Text) : Prop := oneSigma (lower s) = oneSigma (lower t)

def Sigmaless (s : Text) : Prop := 'σ' ∉ s ∧ 'ς' ∉ s

section LowerCase

variable {lower : Text → Text}

theorem oneSigma_append (s t : Text) : oneSigma (s ++ t) = oneSigma s ++ oneSigma t :=
  List.map_append

theorem oneSigma_of_notMem {s : Text} (h : 'ς' ∉ s) : oneSigma s = s := by
  refine (List.map_congr_left fun c hc => if_neg ?_).trans (List.map_id s)
  rintro rfl
  exact h hc

theorem sigmaless_iff {s : Text} : Sigmaless s ↔ 'σ' ∉ oneSigma s := by
  have hiff : 'σ' ∈ oneSigma s ↔ 'σ' ∈ s ∨ 'ς' ∈ s := by
    rw [oneSigma, List.mem_map]
    constructor
    · rintro ⟨c, hc, heq⟩
      by_cases hfinal : c = 'ς'
      · exact .inr (hfinal ▸ hc)
      · rw [if_neg hfinal] at heq
        exact .inl (heq ▸ hc)
    · intro h
      rcases h with h | h
      · exact ⟨_, h, by decide⟩
      · exact ⟨_, h, by decide⟩
  rw [hiff, Sigmaless, not_or]

/-- Without a sigma there is one form. -/
theorem SameCase.eq {s t : Text} (h : SameCase lower s t) (hs : Sigmaless (lower s)) :
    lower s = lower t := by
  have ht : Sigmaless (lower t) := by
    rw [sigmaless_iff] at hs ⊢
    rwa [← h]
  have heq : oneSigma (lower s) = oneSigma (lower t) := h
  rwa [oneSigma_of_notMem hs.2, oneSigma_of_notMem ht.2] at heq

namespace LowersCharwise

variable (lowers : LowersCharwise lower)
include lowers

theorem nil : oneSigma (lower []) = [] := by
  have h := congrArg List.length (lowers.append [] [])
  rw [List.append_nil, List.length_append] at h
  exact List.length_eq_zero_iff.mp (by omega)

theorem flatMap (s : Text) : oneSigma (lower s) = s.flatMap fun c => oneSigma (lower [c]) := by
  induction s with
  | nil => exact lowers.nil
  | cons c s ih => rw [← List.singleton_append, lowers.append, ih, List.flatMap_append,
      List.flatMap_singleton]

theorem sameCase_iff {s t : Text} :
    SameCase lower s t ↔ FoldEq (fun c => oneSigma (lower [c])) s t := by
  rw [SameCase, lowers.flatMap s, lowers.flatMap t, FoldEq]

theorem lowering : Lowering fun c => oneSigma (lower [c]) where
  nonempty c h := lowers.nonempty c (List.map_eq_nil_iff.mp h)
  ascii c hc := by
    rw [lowers.ascii c hc]
    refine oneSigma_of_notMem fun hmem => ?_
    have hlt := (JsonReader.toNat_toLower_lt c).mpr hc
    rw [← List.mem_singleton.mp hmem] at hlt
    exact absurd hlt (by decide)
  beyond c hc d hd hlt := by
    obtain ⟨e, he, rfl⟩ := List.mem_map.mp hd
    by_cases hfinal : e = 'ς'
    · rw [if_pos hfinal] at hlt
      exact absurd hlt (by decide)
    · rw [if_neg hfinal] at hlt ⊢
      exact lowers.beyond c hc e he hlt

/-- A path without a sigma has none in its segments. -/
theorem sigmaless_segment {declared segment : Text} (h : Sigmaless (lower declared))
    (hmem : segment ∈ declared.splitOn '.') : Sigmaless (lower segment) := by
  rw [sigmaless_iff] at h ⊢
  obtain ⟨x, y, hinfix⟩ := Texts.infix_of_mem_splitOn hmem
  rw [← hinfix, lowers.append, lowers.append, List.append_assoc] at h
  exact fun hsigma => h (List.mem_append_right _ (List.mem_append_left _ hsigma))

end LowersCharwise

end LowerCase

/-! ### Values of JSON texts -/

/-- The fields of a text that a map keeps: of each key the last one. -/
def lastOfEach : List (Text × Json) → List (Text × Json)
  | [] => []
  | f :: fs => if fs.any fun g => g.1 = f.1 then lastOfEach fs else f :: lastOfEach fs

/-- How `serde_json` makes values of numbers and of fields. -/
structure Reading where
  numeral : Text → Text
  collect : List (Text × Json) → List (Text × Json)
  /-- Only the `e` of an exponent has two cases. -/
  numeral_caseless : ∀ s t, CaseEq s t → numeral s = numeral t
  /-- In some order. -/
  collect_perm : ∀ fields, (collect fields).Perm (lastOfEach fields)

def Reading.builder (reading : Reading) : JsonReader.Builder Json where
  null := .null
  bool := .bool
  number s := .number (reading.numeral s)
  string := .string
  array := .array
  object fields := .object (reading.collect fields)

/-- What the parser accepts is a JSON text, and it gives its value. -/
def Reading.Reads (reading : Reading) (fromStr : Text → Option Json) : Prop :=
  ∀ s v, fromStr s = some v → JsonReader.Reads reading.builder s v

/-- Equal up to letter case: objects are what a map keeps of fields that are pairwise so. -/
inductive UpToCase (lower : Text → Text) (reading : Reading) : Json → Json → Prop
  | null : UpToCase lower reading .null .null
  | bool (b : Bool) : UpToCase lower reading (.bool b) (.bool b)
  | number (digits : Text) : UpToCase lower reading (.number digits) (.number digits)
  | string {s t : Text} : SameCase lower s t → UpToCase lower reading (.string s) (.string t)
  | array {items items' : List Json} : List.Forall₂ (UpToCase lower reading) items items' →
    UpToCase lower reading (.array items) (.array items')
  | object {fields fields' : List (Text × Json)} :
    List.Forall₂ (SameCase lower) (fields.map Prod.fst) (fields'.map Prod.fst) →
    List.Forall₂ (UpToCase lower reading) (fields.map Prod.snd) (fields'.map Prod.snd) →
    UpToCase lower reading (.object (reading.collect fields)) (.object (reading.collect fields'))

/-- The values below a path, arrays followed item by item. -/
def reached : List Text → List Json → List Json
  | [], containers => containers
  | segment :: segments, containers =>
    reached segments ((objectsToInspectAll containers).flatMap fun fields =>
      (fields.lookup segment).toList)

section Recasing

variable {reading : Reading} {lower : Text → Text}

theorem respects (lowers : LowersCharwise lower) :
    reading.builder.Respects (fun c => oneSigma (lower [c])) (UpToCase lower reading) where
  null := .null
  bool := .bool
  number h := by
    show UpToCase lower reading (.number (reading.numeral _)) (.number (reading.numeral _))
    rw [reading.numeral_caseless _ _ h]
    exact .number _
  string h := .string (lowers.sameCase_iff.mpr h)
  array := .array
  object h := by
    refine .object ?_ ?_
    · rw [List.forall₂_map_left_iff, List.forall₂_map_right_iff]
      exact h.imp fun _ _ hf => lowers.sameCase_iff.mpr hf.1
    · rw [List.forall₂_map_left_iff, List.forall₂_map_right_iff]
      exact h.imp fun _ _ hf => hf.2

/-! ### Fields -/

theorem lookup_eq_some_iff_of_nodup {fields : List (Text × Json)} {key : Text} {v : Json}
    (h : (fields.map Prod.fst).Nodup) : fields.lookup key = some v ↔ (key, v) ∈ fields := by
  induction fields with
  | nil => simp
  | cons f fields ih =>
    obtain ⟨k, w⟩ := f
    obtain ⟨hnew, hrest⟩ := List.nodup_cons.mp h
    rw [List.lookup_cons, List.mem_cons, Prod.mk.injEq]
    by_cases hk : key = k
    · subst hk
      rw [beq_self_eq_true]
      refine ⟨fun hv => .inl ⟨rfl, (Option.some.inj hv).symm⟩, fun hv => ?_⟩
      rcases hv with ⟨-, rfl⟩ | hmem
      · rfl
      · exact absurd (List.mem_map.mpr ⟨_, hmem, rfl⟩) hnew
    · rw [beq_eq_false_iff_ne.mpr hk, ih hrest]
      exact ⟨.inr, fun hv => hv.elim (fun heq => absurd heq.1 hk) id⟩

theorem lookup_perm {fields fields' : List (Text × Json)} (hperm : fields.Perm fields')
    (h : (fields'.map Prod.fst).Nodup) (key : Text) : fields.lookup key = fields'.lookup key := by
  have hnodup : (fields.map Prod.fst).Nodup := (hperm.map _).nodup_iff.mpr h
  ext v
  rw [lookup_eq_some_iff_of_nodup hnodup, lookup_eq_some_iff_of_nodup h, hperm.mem_iff]

theorem mem_lastOfEach_keys {fields : List (Text × Json)} {key : Text} :
    key ∈ (lastOfEach fields).map Prod.fst ↔ key ∈ fields.map Prod.fst := by
  induction fields with
  | nil => exact Iff.rfl
  | cons f fields ih =>
    rw [lastOfEach, List.map_cons, List.mem_cons]
    split
    · rename_i hany
      obtain ⟨g, hg, hkey⟩ := List.any_eq_true.mp hany
      refine ih.trans ⟨.inr, fun h => h.elim ?_ id⟩
      rintro rfl
      exact List.mem_map.mpr ⟨g, hg, of_decide_eq_true hkey⟩
    · rw [List.map_cons, List.mem_cons, ih]

theorem nodup_lastOfEach (fields : List (Text × Json)) :
    ((lastOfEach fields).map Prod.fst).Nodup := by
  induction fields with
  | nil => exact List.nodup_nil
  | cons f fields ih =>
    rw [lastOfEach]
    split
    · exact ih
    · rename_i hany
      refine List.nodup_cons.mpr ⟨fun hmem => hany ?_, ih⟩
      obtain ⟨g, hg, hkey⟩ := List.mem_map.mp (mem_lastOfEach_keys.mp hmem)
      exact List.any_eq_true.mpr ⟨g, hg, decide_eq_true hkey⟩

/-- A map has the value that was given last. -/
theorem lookup_lastOfEach (fields : List (Text × Json)) (key : Text) :
    (lastOfEach fields).lookup key = fields.reverse.lookup key := by
  induction fields with
  | nil => rfl
  | cons f fields ih =>
    obtain ⟨k, v⟩ := f
    rw [List.reverse_cons, List.lookup_append, ← ih, lastOfEach]
    by_cases hkey : key = k
    · subst hkey
      have hself : [(key, v)].lookup key = some v := List.lookup_cons_self
      rw [hself]
      split
      · rename_i hany
        obtain ⟨g, hg, hk⟩ := List.any_eq_true.mp hany
        have hmem : key ∈ (lastOfEach fields).map Prod.fst :=
          mem_lastOfEach_keys.mpr (List.mem_map.mpr ⟨g, hg, of_decide_eq_true hk⟩)
        obtain ⟨⟨k, w⟩, hlast, rfl⟩ := List.mem_map.mp hmem
        rw [(lookup_eq_some_iff_of_nodup (nodup_lastOfEach fields)).mpr hlast, Option.some_or]
      · rename_i hany
        have hnone : (lastOfEach fields).lookup key = none := by
          rw [List.lookup_eq_none_iff]
          intro p hp
          rw [bne_iff_ne]
          rintro rfl
          obtain ⟨g, hg, hk⟩ := List.mem_map.mp (mem_lastOfEach_keys.mp (List.mem_map.mpr ⟨p, hp, rfl⟩))
          exact hany (List.any_eq_true.mpr ⟨g, hg, decide_eq_true hk⟩)
        rw [List.lookup_cons_self, hnone, Option.none_or]
    · have hother : [(k, v)].lookup key = none := by
        rw [List.lookup_cons, beq_eq_false_iff_ne.mpr hkey, List.lookup_nil]
      rw [hother, Option.or_none]
      split
      · rfl
      · rw [List.lookup_cons, beq_eq_false_iff_ne.mpr hkey]

theorem lookup_collect (fields : List (Text × Json)) (key : Text) :
    (reading.collect fields).lookup key = fields.reverse.lookup key := by
  rw [lookup_perm (reading.collect_perm fields) (nodup_lastOfEach fields), lookup_lastOfEach]

theorem mem_collect_keys {fields : List (Text × Json)} {key : Text} :
    key ∈ (reading.collect fields).map Prod.fst ↔ key ∈ fields.map Prod.fst := by
  rw [((reading.collect_perm fields).map Prod.fst).mem_iff, mem_lastOfEach_keys]

/-- Where two lists of fields have a key at the same places, it has related values. -/
theorem lookup_related {R : Json → Json → Prop} {key : Text} {fields fields' : List (Text × Json)}
    (h : List.Forall₂ (fun f g => (f.1 = key ↔ g.1 = key) ∧ R f.2 g.2) fields fields') :
    List.Forall₂ R (fields.lookup key).toList (fields'.lookup key).toList := by
  induction h with
  | nil => exact .nil
  | @cons f g fs gs hfg _ ih =>
    obtain ⟨k, v⟩ := f
    obtain ⟨l, w⟩ := g
    rw [List.lookup_cons, List.lookup_cons]
    by_cases hk : k = key
    · have hl : l = key := hfg.1.mp hk
      subst hk hl
      rw [beq_self_eq_true]
      exact .cons hfg.2 .nil
    · have hl : ¬l = key := fun hl => hk (hfg.1.mpr hl)
      rw [beq_eq_false_iff_ne.mpr (Ne.symm hk), beq_eq_false_iff_ne.mpr (Ne.symm hl)]
      exact ih

/-! ### One segment -/

variable {env : FetchEnv}

/-- An object that the guard lets pass has no other spelling of the segment. -/
theorem deliveredUnder_ok {segment : Text} {fields : List (Text × Json)} {values : List Json}
    (h : deliveredUnder env segment fields = .ok values) :
    (∀ key ∈ fields.map Prod.fst, env.toLowercase key = env.toLowercase segment → key = segment) ∧
      values = (fields.lookup segment).toList := by
  have hfilter : ∀ f ∈ fields, env.toLowercase f.1 = env.toLowercase segment →
      f ∈ fields.filter fun g => env.toLowercase g.1 = env.toLowercase segment :=
    fun f hf hkey => List.mem_filter.mpr ⟨hf, decide_eq_true hkey⟩
  unfold deliveredUnder at h
  split at h
  · rename_i hnil
    replace hnil : (fields.filter fun g => env.toLowercase g.1 = env.toLowercase segment) = [] := hnil
    rw [hnil] at hfilter
    cases h
    refine ⟨fun key hkey hlower => ?_, ?_⟩
    · obtain ⟨f, hf, rfl⟩ := List.mem_map.mp hkey
      exact absurd (hfilter f hf hlower) List.not_mem_nil
    · have hnone : fields.lookup segment = none := by
        rw [List.lookup_eq_none_iff]
        intro f hf
        rw [bne_iff_ne]
        rintro rfl
        exact absurd (hfilter f hf rfl) List.not_mem_nil
      rw [hnone]
      rfl
  · rename_i key value hone
    replace hone : (fields.filter fun g => env.toLowercase g.1 = env.toLowercase segment) =
      [(key, value)] := hone
    rw [hone] at hfilter
    split at h
    · rename_i hkey
      subst hkey
      cases h
      refine ⟨fun k hk hlower => ?_, ?_⟩
      · obtain ⟨f, hf, rfl⟩ := List.mem_map.mp hk
        rw [List.mem_singleton.mp (hfilter f hf hlower)]
      · cases hlookup : fields.lookup key with
        | none =>
          have hmem : (key, value) ∈ fields := by
            have hsub : (key, value) ∈ [(key, value)] := List.mem_singleton_self _
            rw [← hone] at hsub
            exact (List.mem_filter.mp hsub).1
          exact absurd (List.lookup_eq_none_iff.mp hlookup _ hmem) (by simp)
        | some v =>
          have heq := List.mem_singleton.mp (hfilter _ (JsonWriter.mem_of_lookup hlookup) rfl)
          rw [(Prod.mk.inj heq).2]
          rfl
    · cases h
  · cases h

/-- Two fields, or two objects, of texts that are equal up to letter case. -/
def FieldUpToCase (lower : Text → Text) (reading : Reading) (f g : Text × Json) : Prop :=
  SameCase lower f.1 g.1 ∧ UpToCase lower reading f.2 g.2

def ObjectUpToCase (lower : Text → Text) (reading : Reading)
    (fields fields' : List (Text × Json)) : Prop :=
  ∃ raw raw', List.Forall₂ (FieldUpToCase lower reading) raw raw' ∧ fields = reading.collect raw ∧
    fields' = reading.collect raw'

mutual

theorem objectsToInspect_related : ∀ v w : Json, UpToCase lower reading v w →
    List.Forall₂ (ObjectUpToCase lower reading) (objectsToInspect v) (objectsToInspect w)
  | .null, _, h => by cases h; exact .nil
  | .bool _, _, h => by cases h; exact .nil
  | .number _, _, h => by cases h; exact .nil
  | .string _, _, h => by cases h; exact .nil
  | .array items, _, h => by
    cases h with
    | array hitems => exact objectsToInspectAll_related items _ hitems
  | .object _, _, h => by
    cases h with
    | @object raw raw' hkeys hvalues =>
      refine .cons ⟨raw, raw', ?_, rfl, rfl⟩ .nil
      rw [List.forall₂_map_left_iff, List.forall₂_map_right_iff] at hkeys hvalues
      rw [List.forall₂_iff_zip] at hkeys hvalues ⊢
      exact ⟨hkeys.1, fun hmem => ⟨hkeys.2 hmem, hvalues.2 hmem⟩⟩

theorem objectsToInspectAll_related : ∀ vs ws : List Json,
    List.Forall₂ (UpToCase lower reading) vs ws →
    List.Forall₂ (ObjectUpToCase lower reading) (objectsToInspectAll vs) (objectsToInspectAll ws)
  | [], _, h => by cases h; exact .nil
  | v :: vs, _, h => by
    cases h with
    | cons hv hvs =>
      exact List.rel_append (objectsToInspect_related v _ hv) (objectsToInspectAll_related vs _ hvs)

end

/-- Two objects that pass have the value of the segment from the same place of the text. -/
theorem delivered_related {segment : Text} (hsigma : Sigmaless (env.toLowercase segment))
    {fields fields' : List (Text × Json)}
    (h : ObjectUpToCase env.toLowercase reading fields fields') {values values' : List Json}
    (hv : deliveredUnder env segment fields = .ok values)
    (hv' : deliveredUnder env segment fields' = .ok values') :
    List.Forall₂ (UpToCase env.toLowercase reading) values values' := by
  obtain ⟨raw, raw', hraw, rfl, rfl⟩ := h
  obtain ⟨hspelled, rfl⟩ := deliveredUnder_ok hv
  obtain ⟨hspelled', rfl⟩ := deliveredUnder_ok hv'
  rw [lookup_collect, lookup_collect]
  refine lookup_related (List.forall₂_reverse_iff.mpr ?_)
  rw [List.forall₂_iff_zip] at hraw ⊢
  refine ⟨hraw.1, fun {f g} hmem => ⟨⟨fun hf => ?_, fun hg => ?_⟩, (hraw.2 hmem).2⟩⟩
  · refine hspelled' g.1 ?_ ?_
    · exact mem_collect_keys.mpr (List.mem_map.mpr ⟨g, (List.of_mem_zip hmem).2, rfl⟩)
    · subst hf
      exact ((hraw.2 hmem).1.eq hsigma).symm
  · refine hspelled f.1 ?_ ?_
    · exact mem_collect_keys.mpr (List.mem_map.mpr ⟨f, (List.of_mem_zip hmem).1, rfl⟩)
    · subst hg
      exact (SameCase.eq (hraw.2 hmem).1.symm hsigma).symm

/-! ### All segments -/

/-- What the guard goes on with is what the segment reaches. -/
theorem next_eq {segment : Text} {containers : List Json} {next : List (List Json)}
    (h : (objectsToInspectAll containers).mapM (deliveredUnder env segment) = .ok next) :
    next.flatten = (objectsToInspectAll containers).flatMap fun fields =>
      (fields.lookup segment).toList := by
  have hall := mapM_ok h
  clear h
  generalize objectsToInspectAll containers = objects at hall
  induction hall with
  | nil => rfl
  | cons hv _ ih => rw [List.flatten_cons, List.flatMap_cons, (deliveredUnder_ok hv).2, ih]

theorem next_related {segment : Text} (hsigma : Sigmaless (env.toLowercase segment))
    {containers containers' : List Json}
    (h : List.Forall₂ (UpToCase env.toLowercase reading) containers containers')
    {next next' : List (List Json)}
    (hn : (objectsToInspectAll containers).mapM (deliveredUnder env segment) = .ok next)
    (hn' : (objectsToInspectAll containers').mapM (deliveredUnder env segment) = .ok next') :
    List.Forall₂ (UpToCase env.toLowercase reading) next.flatten next'.flatten := by
  have hobjects := objectsToInspectAll_related _ _ h
  have hall := mapM_ok hn
  have hall' := mapM_ok hn'
  clear hn hn'
  generalize objectsToInspectAll containers = objects at hobjects hall
  generalize objectsToInspectAll containers' = objects' at hobjects hall'
  refine List.rel_flatten ?_
  induction hobjects generalizing next next' with
  | nil =>
    cases hall
    cases hall'
    exact .nil
  | cons hobject _ ih =>
    cases hall with
    | cons hv hall =>
      cases hall' with
      | cons hv' hall' => exact .cons (delivered_related hsigma hobject hv hv') (ih hall hall')

theorem reached_nil (segments : List Text) : reached segments [] = [] := by
  induction segments with
  | nil => rfl
  | cons segment segments ih => exact ih

/-- The walk along a path keeps the values related. -/
theorem reached_related {segments : List Text}
    (hsigma : ∀ segment ∈ segments, Sigmaless (env.toLowercase segment))
    {containers containers' : List Json}
    (h : List.Forall₂ (UpToCase env.toLowercase reading) containers containers')
    (hp : assertSegments env segments containers = .ok ())
    (hp' : assertSegments env segments containers' = .ok ()) :
    List.Forall₂ (UpToCase env.toLowercase reading) (reached segments containers)
      (reached segments containers') := by
  induction segments generalizing containers containers' with
  | nil => exact h
  | cons segment segments ih =>
    obtain ⟨next, hn, hp⟩ := bind_ok.mp hp
    obtain ⟨next', hn', hp'⟩ := bind_ok.mp hp'
    have hnext := next_related (hsigma segment List.mem_cons_self) h hn hn'
    rw [reached, reached, ← next_eq hn, ← next_eq hn']
    cases hcut : next.flatten with
    | nil =>
      rw [hcut] at hnext
      cases hnext' : next'.flatten with
      | nil =>
        rw [reached_nil]
        exact .nil
      | cons w ws =>
        rw [hnext'] at hnext
        cases hnext
    | cons v vs =>
      cases hnext' : next'.flatten with
      | nil =>
        rw [hcut, hnext'] at hnext
        cases hnext
      | cons w ws =>
        rw [hcut] at hp hnext
        rw [hnext'] at hp' hnext
        exact ih (fun s hs => hsigma s (List.mem_cons_of_mem _ hs)) hnext hp hp'

theorem assertLegacyMetadataKeys_ok {metadata : Json} {keys : List Text}
    (h : assertLegacyMetadataKeys env metadata keys = .ok ()) {declared : Text} (hd : declared ∈ keys) :
    assertSegments env (declared.splitOn '.') [metadata] = .ok () := by
  unfold assertLegacyMetadataKeys at h
  induction keys with
  | nil => cases hd
  | cons key keys ih =>
    obtain ⟨⟨⟩, hkey, h⟩ := bind_ok.mp h
    obtain rfl | hd := List.mem_cons.mp hd
    · exact hkey
    · exact ih h hd

end Recasing

/-- Two texts that are equal in lower case, with their values, which the guard lets pass. -/
structure Recased (env : FetchEnv) (keys : List Text) (s t : Text) (v w : Json) : Prop where
  lower : env.toLowercase s = env.toLowercase t
  left : env.fromStr s = some v
  right : env.fromStr t = some w
  passes : assertLegacyMetadataKeys env v keys = .ok ()
  passes' : assertLegacyMetadataKeys env w keys = .ok ()

/-- Metadata of two requests that are equal in lower case and pass the guard reach the same
values, up to letter case, under every declared path without a sigma. -/
theorem declared_values_same_case (env : FetchEnv) (reading : Reading)
    (reads : reading.Reads env.fromStr) (lowers : LowersCharwise env.toLowercase) (keys : List Text)
    (s t : Text) (v w : Json) (h : Recased env keys s t v w) :
    ∀ declared ∈ keys, Sigmaless (env.toLowercase declared) →
      let segments := declared.splitOn '.'
      (reached segments [v] ≠ [] ↔ reached segments [w] ≠ []) ∧
        List.Forall₂ (UpToCase env.toLowercase reading) (reached segments [v])
          (reached segments [w]) := by
  intro declared hd hsigma segments
  have htexts : SameCase env.toLowercase s t := congrArg oneSigma h.lower
  have hvalues : UpToCase env.toLowercase reading v w :=
    (reads _ _ h.left).related lowers.lowering (respects lowers) (lowers.sameCase_iff.mp htexts)
      (reads _ _ h.right)
  have hreached := reached_related (fun _ => lowers.sigmaless_segment hsigma) (.cons hvalues .nil)
    (assertLegacyMetadataKeys_ok h.passes hd) (assertLegacyMetadataKeys_ok h.passes' hd)
  refine ⟨?_, hreached⟩
  rw [← List.length_pos_iff, ← List.length_pos_iff, hreached.length_eq]

/-! ### Metadata of two cases -/

namespace Sample

def reading : Reading where
  numeral := List.map Char.toLower
  collect := lastOfEach
  numeral_caseless _ _ h := h
  collect_perm _ := List.Perm.refl _

/-- The reader as a parser. -/
def parse (s : Text) : Option Json :=
  match JsonReader.value reading.builder s.length s with
  | some (v, rest) => if rest.dropWhile JsonText.isSpace = [] then some v else none
  | none => none

/-- ASCII letters, the dotted capital I and the Kelvin sign. -/
def lowerChar (c : Char) : Text :=
  if c = '\u0130' then ['i', '\u0307'] else if c = '\u212a' then ['k'] else [c.toLower]

def isCased (c : Char) : Bool := c.isAlpha ∨ c ∈ ['\u0130', '\u212a', 'Σ', 'σ', 'ς']

def isCaseIgnorable (c : Char) : Bool := c ∈ ['\'', '.', ':', '^', '`', '\u0307']

def ignorableThenCased (s : Text) : Bool := (s.dropWhile isCaseIgnorable).head?.any isCased

/-- A capital sigma is lowered by what stands before it, backwards, and behind it. -/
def lowerBehind (before : Text) : Text → Text
  | [] => []
  | c :: s =>
    (if c = 'Σ' then [if ignorableThenCased before ∧ ¬ignorableThenCased s then 'ς' else 'σ']
      else lowerChar c) ++ lowerBehind (c :: before) s

def lowercase : Text → Text := lowerBehind []

def metadataEnv : FetchEnv := { env with fromStr := parse, toLowercase := lowercase }

theorem oneSigma_lowerBehind (before s : Text) : oneSigma (lowerBehind before s) =
    s.flatMap fun c => if c = 'Σ' then ['σ'] else oneSigma (lowerChar c) := by
  induction s generalizing before with
  | nil => rfl
  | cons c s ih =>
    rw [lowerBehind, oneSigma_append, ih, List.flatMap_cons]
    congr 1
    by_cases hc : c = 'Σ'
    · rw [if_pos hc, if_pos hc]
      split <;> decide
    · rw [if_neg hc, if_neg hc]

theorem lowercase_singleton {c : Char} (hc : c ≠ 'Σ') : lowercase [c] = lowerChar c := by
  rw [lowercase, lowerBehind, if_neg hc]
  exact List.append_nil _

theorem lowers_lowercase : LowersCharwise metadataEnv.toLowercase where
  append s t := by
    show oneSigma (lowerBehind [] (s ++ t)) = oneSigma (lowerBehind [] s) ++ oneSigma (lowerBehind [] t)
    rw [oneSigma_lowerBehind, oneSigma_lowerBehind, oneSigma_lowerBehind, List.flatMap_append]
  nonempty c := by
    show lowercase [c] ≠ []
    by_cases hc : c = 'Σ'
    · subst hc
      decide
    · rw [lowercase_singleton hc, lowerChar]
      split_ifs <;> exact List.cons_ne_nil _ _
  ascii c hc := by
    have hne : ∀ d : Char, ¬d.toNat < 128 → c ≠ d := by
      rintro d hd rfl
      exact hd hc
    show lowercase [c] = [c.toLower]
    rw [lowercase_singleton (hne _ (by decide)), lowerChar, if_neg (hne _ (by decide)),
      if_neg (hne _ (by decide))]
  beyond c hc d hd hlt := by
    replace hd : d ∈ lowercase [c] := hd
    by_cases hsigma : c = 'Σ'
    · subst hsigma
      have hform : lowercase ['Σ'] = ['σ'] := by decide
      rw [hform] at hd
      rw [List.mem_singleton.mp hd] at hlt
      exact absurd hlt (by decide)
    rw [lowercase_singleton hsigma, lowerChar] at hd
    split_ifs at hd
    · rcases List.mem_cons.mp hd with rfl | hd
      · exact .inl rfl
      · rw [List.mem_singleton.mp hd] at hlt
        exact absurd hlt (by decide)
    · exact .inr (List.mem_singleton.mp hd)
    · rw [List.mem_singleton.mp hd, JsonReader.toNat_toLower_lt] at hlt
      exact absurd hlt hc

theorem reads_parse : reading.Reads metadataEnv.fromStr := by
  intro s v h
  replace h : parse s = some v := h
  unfold parse at h
  split at h
  · rename_i u rest hvalue
    split at h
    · rename_i hrest
      obtain rfl := Option.some.inj h
      exact ⟨s.length, rest, hvalue, hrest⟩
    · cases h
  · cases h

def keys : List Text := ["signer".toList, "realm".toList, "aςb".toList]

/-- The guard lets the value of a text pass, and the value has a property. -/
def Passes (s : Text) (p : Json → Bool) : Bool :=
  (parse s).any fun v => (assertLegacyMetadataKeys metadataEnv v keys).isOk && p v

theorem Passes.value {s : Text} {p : Json → Bool} (h : Passes s p = true) :
    ∃ v, metadataEnv.fromStr s = some v ∧ assertLegacyMetadataKeys metadataEnv v keys = .ok () ∧
      p v = true := by
  obtain ⟨v, hv, hp⟩ := (Option.any_eq_true _ _).mp h
  obtain ⟨hok, hp⟩ := Bool.and_eq_true_iff.mp hp
  refine ⟨v, hv, ?_, hp⟩
  cases hassert : assertLegacyMetadataKeys metadataEnv v keys with
  | ok => rfl
  | error e => simp [hassert, Except.isOk, Except.toBool] at hok

theorem Passes.recased {s t : Text} {p q : Json → Bool} (hs : Passes s p = true)
    (ht : Passes t q = true) (hlower : lowercase s = lowercase t) :
    ∃ v w, Recased metadataEnv keys s t v w ∧ p v = true ∧ q w = true := by
  obtain ⟨v, hv, hpass, hp⟩ := Passes.value hs
  obtain ⟨w, hw, hpass', hq⟩ := Passes.value ht
  exact ⟨v, w, ⟨hlower, hv, hw, hpass, hpass'⟩, hp, hq⟩

end Sample

/-- A signer in capitals, with the Kelvin sign and a dotted I, and in small letters. -/
theorem declared_values_same_case_signer :
    ∃ v w, Recased Sample.metadataEnv Sample.keys
        "\x7b\"signer\":\"D\u212a\u0130\"\x7d".toList "\x7b\"signer\":\"dki\u0307\"\x7d".toList
        v w ∧
      List.Forall₂ (UpToCase Sample.metadataEnv.toLowercase Sample.reading)
        (reached ("signer".toList.splitOn '.') [v]) (reached ("signer".toList.splitOn '.') [w]) := by
  have hcapital : Sample.Passes "\x7b\"signer\":\"D\u212a\u0130\"\x7d".toList
    (fun _ => true) = true := by decide +kernel
  have hsmall : Sample.Passes "\x7b\"signer\":\"dki\u0307\"\x7d".toList
    (fun _ => true) = true := by decide +kernel
  obtain ⟨v, w, h, -, -⟩ := Sample.Passes.recased hcapital hsmall (by decide +kernel)
  exact ⟨v, w, h, (declared_values_same_case Sample.metadataEnv Sample.reading Sample.reads_parse
    Sample.lowers_lowercase Sample.keys _ _ v w h _ List.mem_cons_self
    (sigmaless_iff.mpr (by decide +kernel))).2⟩

/-- Equal up to letter case as maps. -/
inductive SameUpToCase (lower : Text → Text) : Json → Json → Prop
  | null : SameUpToCase lower .null .null
  | bool (b : Bool) : SameUpToCase lower (.bool b) (.bool b)
  | number (digits : Text) : SameUpToCase lower (.number digits) (.number digits)
  | string {s t : Text} : SameCase lower s t → SameUpToCase lower (.string s) (.string t)
  | array {items items' : List Json} : List.Forall₂ (SameUpToCase lower) items items' →
    SameUpToCase lower (.array items) (.array items')
  | object {fields fields' arranged : List (Text × Json)} : fields'.Perm arranged →
    List.Forall₂ (SameCase lower) (fields.map Prod.fst) (arranged.map Prod.fst) →
    List.Forall₂ (SameUpToCase lower) (fields.map Prod.snd) (arranged.map Prod.snd) →
    SameUpToCase lower (.object fields) (.object fields')

def Json.fieldCount : Json → ℕ
  | .object fields => fields.length
  | _ => 0

theorem SameUpToCase.fieldCount_eq {lower : Text → Text} {v w : Json}
    (h : SameUpToCase lower v w) : v.fieldCount = w.fieldCount := by
  cases h with
  | object hperm hkeys _ =>
    have hlength := hkeys.length_eq
    rw [List.length_map, List.length_map] at hlength
    exact hlength.trans hperm.length_eq.symm
  | _ => rfl

/-- Two keys of a declared object are one key twice in the other text. -/
theorem recased_object : ∃ s t v w, Recased Sample.metadataEnv Sample.keys s t v w ∧
    ∃ declared ∈ Sample.keys, ¬List.Forall₂ (SameUpToCase Sample.metadataEnv.toLowercase)
      (reached (declared.splitOn '.') [v]) (reached (declared.splitOn '.') [w]) := by
  have hupper : Sample.Passes "\x7b\"realm\":\x7b\"a\":1,\"A\":2\x7d\x7d".toList
    (fun v => (reached ("realm".toList.splitOn '.') [v]).map Json.fieldCount = [2]) = true := by
    decide +kernel
  have hlower : Sample.Passes "\x7b\"realm\":\x7b\"a\":1,\"a\":2\x7d\x7d".toList
    (fun v => (reached ("realm".toList.splitOn '.') [v]).map Json.fieldCount = [1]) = true := by
    decide +kernel
  obtain ⟨v, w, h, htwo, hone⟩ := Sample.Passes.recased hupper hlower (by decide +kernel)
  refine ⟨_, _, v, w, h, "realm".toList, List.mem_cons_of_mem _ List.mem_cons_self, fun hsame => ?_⟩
  have hcounts : (reached ("realm".toList.splitOn '.') [v]).map Json.fieldCount =
      (reached ("realm".toList.splitOn '.') [w]).map Json.fieldCount := by
    refine List.forall₂_eq_eq_eq ▸ ?_
    rw [List.forall₂_map_left_iff, List.forall₂_map_right_iff]
    exact hsame.imp fun _ _ h => h.fieldCount_eq
  rw [of_decide_eq_true htwo, of_decide_eq_true hone] at hcounts
  cases hcounts

/-- A sigma before an escape is lowered as at the end of a word, in a key as in its middle. -/
theorem recased_sigma : ∃ s t v w, Recased Sample.metadataEnv Sample.keys s t v w ∧
    ∃ declared ∈ Sample.keys, reached (declared.splitOn '.') [v] = [] ∧
      reached (declared.splitOn '.') [w] ≠ [] := by
  have hcapital : Sample.Passes "\x7b\"aΣ\\u0062\":1\x7d".toList
    (fun v => (reached ("aςb".toList.splitOn '.') [v]).length = 0) = true := by decide +kernel
  have hsmall : Sample.Passes "\x7b\"aς\\u0062\":1\x7d".toList
    (fun v => (reached ("aςb".toList.splitOn '.') [v]).length = 1) = true := by decide +kernel
  obtain ⟨v, w, h, hnone, hone⟩ := Sample.Passes.recased hcapital hsmall (by decide +kernel)
  refine ⟨_, _, v, w, h, "aςb".toList,
    List.mem_cons_of_mem _ (List.mem_cons_of_mem _ List.mem_cons_self), ?_, fun hnil => ?_⟩
  · exact List.length_eq_zero_iff.mp (of_decide_eq_true hnone)
  · rw [hnil] at hone
    cases hone

/-- A declared object need not be the same map up to case, and a declared field may be hidden. -/
theorem recased_metadata_differs :
    assertCanonicalMetadataKeys Sample.keys = .ok () ∧
      (∃ s t v w, Recased Sample.metadataEnv Sample.keys s t v w ∧
        ∃ declared ∈ Sample.keys, ¬List.Forall₂ (SameUpToCase Sample.metadataEnv.toLowercase)
          (reached (declared.splitOn '.') [v]) (reached (declared.splitOn '.') [w])) ∧
      ∃ s t v w, Recased Sample.metadataEnv Sample.keys s t v w ∧
        ∃ declared ∈ Sample.keys, reached (declared.splitOn '.') [v] = [] ∧
          reached (declared.splitOn '.') [w] ≠ [] :=
  ⟨by decide +kernel, recased_object, recased_sigma⟩

end Catalyrst.Crypto

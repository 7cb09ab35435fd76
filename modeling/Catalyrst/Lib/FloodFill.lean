import Mathlib

/-!
# A flood fill with a size cap

`cover` walks the vertices of a graph in order and starts a fill at each one not
visited yet. A fill takes vertices from a stack into its group and puts their
unvisited neighbours on the stack, marking them; it stops when the stack is empty
or the group has reached the cap. The vertices on the stack at that moment stay
marked. Every vertex ends up in the group or on the abandoned stack of exactly one
fill (`nodup_cover`, `mem_cover`).
-/

namespace Catalyrst.Lib.FloodFill

variable {V K : Type*} [DecidableEq K]

/-- A fill on its way. -/
structure Front (V K : Type*) where
  group : List V
  /-- The stack, the vertex to be taken next first. -/
  queue : List V
  visited : Finset K

/-- The vertices a fill has marked. -/
def Front.taken (f : Front V K) : List V := f.group ++ f.queue

section

variable (key : V → K) (near : V → V → Bool) (cap : ℕ) (all : List V)

def mark (cur : V) (f : Front V K) (v : V) : Front V K :=
  if key v ∈ f.visited then f
  else if near cur v then
    { f with visited := insert (key v) f.visited, queue := v :: f.queue }
  else f

def expand (cur : V) (f : Front V K) : Front V K := all.foldl (mark key near cur) f

def fill : ℕ → Front V K → Front V K
  | 0, f => f
  | fuel + 1, f =>
    match f.queue with
    | [] => f
    | cur :: rest =>
      let f' := { f with group := f.group ++ [cur], queue := rest }
      if cap ≤ f'.group.length then f' else fill fuel (expand key near all cur f')

/-- Each fill takes a vertex a round, so the number of vertices is fuel enough. -/
def cover : List V → Finset K → List (Front V K)
  | [], _ => []
  | seed :: seeds, visited =>
    if key seed ∈ visited then cover seeds visited
    else
      let front := fill key near cap all all.length ⟨[], [seed], insert (key seed) visited⟩
      front :: cover seeds front.visited

end

/-- What a fill that started with the marks `marks` keeps to. -/
structure Front.Within (key : V → K) (all : List V) (marks : Finset K) (f : Front V K) :
    Prop where
  mem : ∀ v ∈ f.taken, v ∈ all
  nodup : (f.taken.map key).Nodup
  visited : ∀ k, k ∈ f.visited ↔ k ∈ marks ∨ k ∈ f.taken.map key
  unmarked : ∀ v ∈ f.taken, key v ∉ marks

namespace Front.Within

variable {key : V → K} {near : V → V → Bool} {cap : ℕ} {all : List V} {marks : Finset K}
  {f : Front V K}

omit [DecidableEq K] in
theorem congr {f' : Front V K} (h : f.Within key all marks) (ht : f'.taken.Perm f.taken)
    (hv : f'.visited = f.visited) : f'.Within key all marks where
  mem v hm := h.mem v (ht.mem_iff.mp hm)
  nodup := ((ht.map key).nodup_iff).mpr h.nodup
  visited k := by
    rw [hv, h.visited, (ht.map key).mem_iff]
  unmarked v hm := h.unmarked v (ht.mem_iff.mp hm)

/-- One more vertex, not marked so far. -/
theorem push (h : f.Within key all marks) {v : V} (hall : v ∈ all) (hv : key v ∉ f.visited) :
    ({ f with visited := insert (key v) f.visited, queue := v :: f.queue } : Front V K).Within
      key all marks := by
  have hfree : key v ∉ marks ∧ key v ∉ f.taken.map key := by
    constructor
    · intro hm
      exact hv ((h.visited _).mpr (Or.inl hm))
    · intro hm
      exact hv ((h.visited _).mpr (Or.inr hm))
  have hperm : (f.group ++ v :: f.queue).Perm (v :: f.taken) := List.perm_middle
  have hmem : ∀ u, u ∈ f.group ++ v :: f.queue ↔ u = v ∨ u ∈ f.taken := by
    intro u
    rw [hperm.mem_iff, List.mem_cons]
  refine ⟨?_, ?_, ?_, ?_⟩
  · intro u hu
    rcases (hmem u).mp hu with rfl | hu
    · exact hall
    · exact h.mem u hu
  · refine ((hperm.map key).nodup_iff).mpr ?_
    rw [List.map_cons, List.nodup_cons]
    exact ⟨hfree.2, h.nodup⟩
  · intro k
    have hk : k ∈ (f.group ++ v :: f.queue).map key ↔ k = key v ∨ k ∈ f.taken.map key := by
      rw [(hperm.map key).mem_iff, List.map_cons, List.mem_cons]
    show k ∈ insert (key v) f.visited ↔ k ∈ marks ∨ k ∈ (f.group ++ v :: f.queue).map key
    rw [Finset.mem_insert, h.visited, hk]
    tauto
  · intro u hu
    rcases (hmem u).mp hu with rfl | hu
    · exact hfree.1
    · exact h.unmarked u hu

theorem mark (h : f.Within key all marks) (cur : V) {v : V} (hall : v ∈ all) :
    (FloodFill.mark key near cur f v).Within key all marks := by
  unfold FloodFill.mark
  split
  · exact h
  · rename_i hv
    split
    · exact h.push hall hv
    · exact h

theorem foldl_mark (cur : V) {vs : List V} (hvs : ∀ v ∈ vs, v ∈ all) :
    ∀ {f : Front V K}, f.Within key all marks →
      (vs.foldl (FloodFill.mark key near cur) f).Within key all marks := by
  induction vs with
  | nil =>
    intro f h
    exact h
  | cons v vs ih =>
    intro f h
    have hv : v ∈ all := hvs v List.mem_cons_self
    exact ih (fun u hu => hvs u (List.mem_cons_of_mem v hu)) (h.mark cur hv)

omit [DecidableEq K] in
/-- Taking the top of the stack into the group moves a marked vertex. -/
theorem take (h : f.Within key all marks) {cur : V} {rest : List V} (hq : f.queue = cur :: rest) :
    ({ f with group := f.group ++ [cur], queue := rest } : Front V K).Within key all marks := by
  refine h.congr ?_ rfl
  show (f.group ++ [cur] ++ rest).Perm (f.group ++ f.queue)
  rw [hq, List.append_assoc, List.singleton_append]

theorem fill (fuel : ℕ) (h : f.Within key all marks) :
    (FloodFill.fill key near cap all fuel f).Within key all marks := by
  induction fuel generalizing f with
  | zero => exact h
  | succ fuel ih =>
    unfold FloodFill.fill
    split
    · exact h
    · rename_i cur rest hq
      have ht := h.take hq
      dsimp only
      split
      · exact ht
      · exact ih (foldl_mark cur (fun _ hv => hv) ht)

omit [DecidableEq K] in
/-- A group and a stack hold distinct vertices. -/
theorem length_le (h : f.Within key all marks) : f.group.length + f.queue.length ≤ all.length := by
  have hsub : f.taken.Subperm all :=
    List.subperm_of_subset (List.Nodup.of_map key h.nodup) h.mem
  have hl := hsub.length_le
  rwa [Front.taken, List.length_append] at hl

end Front.Within

variable {key : V → K} {near : V → V → Bool} {cap : ℕ} {all : List V}

theorem mark_group (cur : V) (f : Front V K) (v : V) : (mark key near cur f v).group = f.group := by
  unfold mark
  split
  · rfl
  · split <;> rfl

theorem expand_group (cur : V) (f : Front V K) : (expand key near all cur f).group = f.group := by
  unfold expand
  have h : ∀ (vs : List V) (f : Front V K), (vs.foldl (mark key near cur) f).group = f.group := by
    intro vs
    induction vs with
    | nil =>
      intro f
      rfl
    | cons v vs ih =>
      intro f
      rw [List.foldl_cons, ih, mark_group]
  exact h all f

theorem expand_visited (cur : V) (f : Front V K) :
    f.visited ⊆ (expand key near all cur f).visited := by
  unfold expand
  have h : ∀ (vs : List V) (f : Front V K),
      f.visited ⊆ (vs.foldl (mark key near cur) f).visited := by
    intro vs
    induction vs with
    | nil =>
      intro f
      exact subset_rfl
    | cons v vs ih =>
      intro f
      refine subset_trans ?_ (ih _)
      unfold mark
      split
      · exact subset_rfl
      · split
        · exact Finset.subset_insert _ _
        · exact subset_rfl
  exact h all f

theorem fill_visited (fuel : ℕ) (f : Front V K) :
    f.visited ⊆ (fill key near cap all fuel f).visited := by
  induction fuel generalizing f with
  | zero => exact subset_rfl
  | succ fuel ih =>
    unfold fill
    split
    · exact subset_rfl
    · rename_i cur rest hq
      dsimp only
      split
      · exact subset_rfl
      · refine subset_trans ?_ (ih _)
        exact expand_visited cur { f with group := f.group ++ [cur], queue := rest }

/-- With fuel for every vertex, a fill ends with its stack empty or at the cap. -/
theorem fill_ends {marks : Finset K} (fuel : ℕ) {f : Front V K} (h : f.Within key all marks)
    (hfuel : all.length ≤ fuel + f.group.length) :
    (fill key near cap all fuel f).queue = [] ∨
      cap ≤ (fill key near cap all fuel f).group.length := by
  induction fuel generalizing f with
  | zero =>
    have hl := h.length_le
    refine Or.inl (List.eq_nil_of_length_eq_zero ?_)
    show f.queue.length = 0
    omega
  | succ fuel ih =>
    unfold fill
    split
    · rename_i hq
      exact Or.inl hq
    · rename_i cur rest hq
      dsimp only
      split
      · rename_i hcap
        exact Or.inr hcap
      · refine ih (Front.Within.foldl_mark cur (fun _ hv => hv) (h.take hq)) ?_
        rw [expand_group, List.length_append, List.length_singleton]
        omega

theorem fill_length_le (fuel : ℕ) {f : Front V K} (h : f.group.length < max cap 1) :
    (fill key near cap all fuel f).group.length ≤ max cap 1 := by
  induction fuel generalizing f with
  | zero =>
    show f.group.length ≤ max cap 1
    omega
  | succ fuel ih =>
    unfold fill
    split
    · omega
    · dsimp only
      split
      · rw [List.length_append, List.length_singleton]
        omega
      · rename_i hcap
        refine ih ?_
        rw [expand_group]
        exact lt_max_of_lt_left (Nat.lt_of_not_le hcap)

theorem le_fill_length (fuel : ℕ) (f : Front V K) :
    f.group.length ≤ (fill key near cap all fuel f).group.length := by
  induction fuel generalizing f with
  | zero => exact le_rfl
  | succ fuel ih =>
    unfold fill
    split
    · exact le_rfl
    · rename_i cur rest hq
      dsimp only
      split
      · rw [List.length_append]
        omega
      · have hstep := ih (expand key near all cur
          { f with group := f.group ++ [cur], queue := rest })
        rw [expand_group, List.length_append, List.length_singleton] at hstep
        omega

/-- A fill takes its seed. -/
theorem fill_seed {seed : V} (hseed : seed ∈ all) (visited : Finset K) :
    0 < (fill key near cap all all.length ⟨[], [seed], visited⟩).group.length := by
  obtain ⟨n, hn⟩ : ∃ n, all.length = n + 1 :=
    Nat.exists_eq_succ_of_ne_zero (List.length_pos_of_mem hseed).ne'
  rw [hn]
  unfold fill
  dsimp only
  split
  · exact Nat.one_pos
  · refine lt_of_lt_of_le ?_ (le_fill_length n _)
    rw [expand_group]
    exact Nat.one_pos

/-- A fill starts with its seed on the stack. -/
theorem within_seed {seed : V} (hseed : seed ∈ all) {marks : Finset K} (h : key seed ∉ marks) :
    (⟨[], [seed], insert (key seed) marks⟩ : Front V K).Within key all marks := by
  have hnil : (⟨[], [], marks⟩ : Front V K).Within key all marks :=
    ⟨fun _ hv => absurd hv List.not_mem_nil, List.nodup_nil, by simp [Front.taken],
      fun _ hv => absurd hv List.not_mem_nil⟩
  exact hnil.push hseed h

/-! ### The fills together -/

/-- What every fill of a cover keeps to. -/
structure Front.Ended (cap : ℕ) (all : List V) (f : Front V K) : Prop where
  mem : ∀ v ∈ f.taken, v ∈ all
  grouped : f.group ≠ []
  length_le : f.group.length ≤ max cap 1
  full : f.queue = [] ∨ cap ≤ f.group.length

theorem fill_ended {seed : V} (hseed : seed ∈ all) {marks : Finset K} (h : key seed ∉ marks) :
    (fill key near cap all all.length ⟨[], [seed], insert (key seed) marks⟩).Ended cap all where
  mem := ((within_seed hseed h).fill all.length).mem
  grouped := List.ne_nil_of_length_pos (fill_seed hseed _)
  length_le := fill_length_le all.length (lt_max_of_lt_right Nat.one_pos)
  full := fill_ends all.length (within_seed hseed h) (Nat.le_add_right _ _)

theorem cover_ended {seeds : List V} (hseeds : ∀ v ∈ seeds, v ∈ all) (marks : Finset K) :
    ∀ f ∈ cover key near cap all seeds marks, f.Ended cap all := by
  induction seeds generalizing marks with
  | nil =>
    intro f hf
    exact absurd hf List.not_mem_nil
  | cons seed seeds ih =>
    have hrest := ih fun v hv => hseeds v (List.mem_cons_of_mem seed hv)
    unfold cover
    split
    · exact hrest marks
    · rename_i hseed
      intro f hf
      rcases List.mem_cons.mp hf with rfl | hf
      · exact fill_ended (hseeds seed List.mem_cons_self) hseed
      · exact hrest _ f hf

/-- The marks before a cover, and the keys of what its fills take, each once. -/
theorem cover_keys {seeds : List V} (hseeds : ∀ v ∈ seeds, v ∈ all) (marks : Finset K) :
    (((cover key near cap all seeds marks).flatMap Front.taken).map key).Nodup ∧
      (∀ v ∈ (cover key near cap all seeds marks).flatMap Front.taken, key v ∉ marks) ∧
      ∀ v ∈ seeds, key v ∈ marks ∨
        key v ∈ ((cover key near cap all seeds marks).flatMap Front.taken).map key := by
  induction seeds generalizing marks with
  | nil => simp [cover]
  | cons seed seeds ih =>
    have hrest := ih fun v hv => hseeds v (List.mem_cons_of_mem seed hv)
    unfold cover
    split
    · rename_i hseed
      obtain ⟨hnodup, hfree, hall⟩ := hrest marks
      refine ⟨hnodup, hfree, ?_⟩
      intro v hv
      rcases List.mem_cons.mp hv with rfl | hv
      · exact Or.inl hseed
      · exact hall v hv
    · rename_i hseed
      dsimp only
      have hw : (fill key near cap all all.length
          ⟨[], [seed], insert (key seed) marks⟩).Within key all marks :=
        (within_seed (hseeds seed List.mem_cons_self) hseed).fill all.length
      have hmarked : key seed ∈
          (fill key near cap all all.length ⟨[], [seed], insert (key seed) marks⟩).visited :=
        fill_visited _ _ (Finset.mem_insert_self _ _)
      generalize fill key near cap all all.length ⟨[], [seed], insert (key seed) marks⟩ = front
        at hw hmarked ⊢
      obtain ⟨hnodup, hfree, hall⟩ := hrest front.visited
      simp only [List.flatMap_cons, List.map_append]
      refine ⟨List.nodup_append'.mpr ⟨hw.nodup, hnodup, ?_⟩, ?_, ?_⟩
      · -- a later fill takes nothing that this one has marked
        intro k hk hk'
        obtain ⟨v, hv, rfl⟩ := List.mem_map.mp hk'
        exact hfree v hv ((hw.visited _).mpr (Or.inr hk))
      · intro v hv
        rcases List.mem_append.mp hv with hv | hv
        · exact hw.unmarked v hv
        · intro hm
          exact hfree v hv ((hw.visited _).mpr (Or.inl hm))
      · intro v hv
        have hcovered : key v ∈ front.visited ∨
            key v ∈ ((cover key near cap all seeds front.visited).flatMap Front.taken).map key := by
          rcases List.mem_cons.mp hv with rfl | hv
          · exact Or.inl hmarked
          · exact hall v hv
        rw [hw.visited] at hcovered
        rw [List.mem_append]
        tauto

/-- No vertex is taken twice, be it into a group or on to an abandoned stack. -/
theorem nodup_cover :
    (((cover key near cap all all ∅).flatMap Front.taken).map key).Nodup :=
  (cover_keys (fun _ hv => hv) ∅).1

/-- No vertex is in two groups, and none is both in a group and on an abandoned stack. -/
theorem nodup_groups :
    (((cover key near cap all all ∅).flatMap Front.group ++
      (cover key near cap all all ∅).flatMap Front.queue).map key).Nodup := by
  have hperm := List.flatMap_append_perm (cover key near cap all all ∅) Front.group Front.queue
  exact ((hperm.map key).nodup_iff).mpr nodup_cover

/-- Every vertex is taken by a fill. -/
theorem mem_cover (hkeys : (all.map key).Nodup) {v : V} :
    v ∈ all ↔ v ∈ (cover key near cap all all ∅).flatMap Front.taken := by
  have htaken : ∀ u ∈ (cover key near cap all all ∅).flatMap Front.taken, u ∈ all := by
    intro u hu
    obtain ⟨f, hf, hu⟩ := List.mem_flatMap.mp hu
    exact (cover_ended (fun _ hv => hv) ∅ f hf).mem u hu
  constructor
  · intro hv
    have hk : key v ∈ (∅ : Finset K) ∨
        key v ∈ ((cover key near cap all all ∅).flatMap Front.taken).map key :=
      (cover_keys (fun _ hv => hv) ∅).2.2 v hv
    rcases hk with hk | hk
    · exact absurd hk (Finset.notMem_empty _)
    · obtain ⟨u, hu, he⟩ := List.mem_map.mp hk
      exact List.inj_on_of_nodup_map hkeys (htaken u hu) hv he ▸ hu
  · exact htaken v

/-! ### What joins a group -/

/-- A step of the fill: from a vertex of the group to one near it. -/
def Front.Step (near : V → V → Bool) (f : Front V K) (u v : V) : Prop :=
  u ∈ f.group ∧ near u v = true

/-- A step of the fill within the group. -/
def Front.Inner (near : V → V → Bool) (f : Front V K) (u v : V) : Prop :=
  u ∈ f.group ∧ v ∈ f.group ∧ near u v = true

/-- The fill has come to every vertex it has taken by its steps. -/
def Front.Grown (near : V → V → Bool) (seed : V) (f : Front V K) : Prop :=
  ∀ v ∈ f.taken, Relation.ReflTransGen (f.Step near) seed v

namespace Front.Grown

variable {seed : V} {f : Front V K}

theorem mark (h : f.Grown near seed) {cur : V} (hcur : cur ∈ f.group) (v : V) :
    (FloodFill.mark key near cur f v).Grown near seed := by
  unfold FloodFill.mark
  split
  · exact h
  · split
    · rename_i hnear
      intro u hu
      rcases List.mem_append.mp hu with hu | hu
      · exact h u (List.mem_append_left _ hu)
      · rcases List.mem_cons.mp hu with rfl | hu
        · have hreach := h cur (List.mem_append_left _ hcur)
          exact hreach.tail ⟨hcur, hnear⟩
        · exact h u (List.mem_append_right _ hu)
    · exact h

theorem expand (h : f.Grown near seed) {cur : V} (hcur : cur ∈ f.group) :
    (FloodFill.expand key near all cur f).Grown near seed := by
  unfold FloodFill.expand
  induction all generalizing f with
  | nil => exact h
  | cons v vs ih =>
    refine ih (h.mark hcur v) ?_
    have hgroup : (FloodFill.mark key near cur f v).group = f.group := mark_group cur f v
    rw [hgroup]
    exact hcur

omit [DecidableEq K] in
theorem take (h : f.Grown near seed) {cur : V} {rest : List V} (hq : f.queue = cur :: rest) :
    ({ f with group := f.group ++ [cur], queue := rest } : Front V K).Grown near seed := by
  intro v hv
  have htaken : v ∈ f.taken := by
    have heq : f.group ++ [cur] ++ rest = f.taken := by
      rw [Front.taken, hq, List.append_assoc, List.singleton_append]
    exact heq ▸ hv
  refine Relation.ReflTransGen.mono ?_ _ _ (h v htaken)
  intro a b hstep
  exact ⟨List.mem_append_left _ hstep.1, hstep.2⟩

theorem fill (fuel : ℕ) (h : f.Grown near seed) :
    (FloodFill.fill key near cap all fuel f).Grown near seed := by
  induction fuel generalizing f with
  | zero => exact h
  | succ fuel ih =>
    unfold FloodFill.fill
    split
    · exact h
    · rename_i cur rest hq
      have ht := h.take hq
      dsimp only
      split
      · exact ht
      · exact ih (ht.expand (List.mem_append_right _ (List.mem_singleton_self cur)))

omit [DecidableEq K] in
/-- All the vertices on the way to one of the group are of the group. -/
theorem inner (h : f.Grown near seed) {v : V} (hv : v ∈ f.group) :
    Relation.ReflTransGen (f.Inner near) seed v := by
  have hreach := h v (List.mem_append_left _ hv)
  induction hreach with
  | refl => exact .refl
  | tail _ hstep ih => exact (ih hstep.1).tail ⟨hstep.1, hv, hstep.2⟩

end Front.Grown

theorem cover_grown {seeds : List V} (marks : Finset K) :
    ∀ f ∈ cover key near cap all seeds marks, ∃ seed, f.Grown near seed := by
  induction seeds generalizing marks with
  | nil =>
    intro f hf
    exact absurd hf List.not_mem_nil
  | cons seed seeds ih =>
    unfold cover
    split
    · exact ih marks
    · intro f hf
      rcases List.mem_cons.mp hf with rfl | hf
      · refine ⟨seed, Front.Grown.fill all.length ?_⟩
        intro v hv
        rw [List.mem_singleton.mp hv]
      · exact ih _ f hf

/-- Where near vertices are related by a symmetric relation, any two vertices of a group are
joined by a chain of it within the group. -/
theorem group_joined {r : V → V → Prop} [Std.Symm r] {seeds : List V} {marks : Finset K}
    {f : Front V K} (hf : f ∈ cover key near cap all seeds marks)
    (hnear : ∀ u ∈ f.group, ∀ v ∈ f.group, near u v = true → r u v) {u v : V}
    (hu : u ∈ f.group) (hv : v ∈ f.group) :
    Relation.ReflTransGen (fun u v => u ∈ f.group ∧ v ∈ f.group ∧ r u v) u v := by
  obtain ⟨seed, hgrown⟩ := cover_grown marks f hf
  have hreach : ∀ {w : V}, w ∈ f.group →
      Relation.ReflTransGen (fun u v => u ∈ f.group ∧ v ∈ f.group ∧ r u v) seed w := by
    intro w hw
    refine Relation.ReflTransGen.mono ?_ _ _ (hgrown.inner hw)
    rintro a b ⟨ha, hb, hab⟩
    exact ⟨ha, hb, hnear a ha b hb hab⟩
  have hback : Std.Symm (fun u v => u ∈ f.group ∧ v ∈ f.group ∧ r u v) := by
    refine ⟨?_⟩
    rintro a b ⟨ha, hb, hab⟩
    exact ⟨hb, ha, symm hab⟩
  have hup := symm (hreach hu)
  exact hup.trans (hreach hv)

end Catalyrst.Lib.FloodFill

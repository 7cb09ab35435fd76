import Catalyrst.Lib.Fallible
import Catalyrst.Content.History

/-!
# The links of the history, read back

A link repeats the query of its request from a later row on: what its query string is parsed to
differs from the query in the bound that moves and in the offset. For this no filter may hold an
empty value, which a query string leaves out, or outfits, whose name is not parsed to itself; and
the link must not have more parameters than are read.
-/

namespace Catalyrst.Content

open Catalyrst.Lib Catalyrst.Lib.Fallible Catalyrst.Lib.Texts Catalyrst.Lib.Numeral

/-! ### Names and numbers -/

section Values

variable {env : HistoryEnv} {params : QueryParams} {key : Text}

/-- A number that a request can hold. -/
def IsI64 (n : ℤ) : Prop := -2 ^ 63 ≤ n ∧ n < 2 ^ 63

theorem qsGetNumber_i64 {n : ℤ} (h : qsGetNumber params key = some n) : IsI64 n := by
  obtain ⟨s, -, hs⟩ := Option.bind_eq_some_iff.mp h
  exact parseI64_bounds hs

end Values

/-! ### Fields -/

section Fields

theorem parseFields_valid {param : Option Text} :
    ∀ f ∈ parseFields param, f ∈ VALID_DEPLOYMENT_FIELDS := by
  have hdefault : ∀ f ∈ DEFAULT_FIELDS, f ∈ VALID_DEPLOYMENT_FIELDS := by decide
  intro f hf
  unfold parseFields at hf
  split at hf
  · split_ifs at hf
    · exact hdefault f hf
    · obtain ⟨s, hs, rfl⟩ := List.mem_map.mp hf
      exact of_decide_eq_true (List.mem_filter.mp hs).2
  · exact hdefault f hf

end Fields

/-! ### `/deployments` -/

section Deployments

variable {env : HistoryEnv} {params : QueryParams} {q : DeploymentQueryOptions}
  {last : HistoryRow}

namespace DeploymentQueryOptions

/-- What every parsed query satisfies. -/
structure Parsed (env : HistoryEnv) (q : DeploymentQueryOptions) : Prop where
  types : ∃ raw, parseEntityTypes env raw = .ok q.entityTypes
  ids : q.entityIds.length ≤ MAX_DEPLOYMENT_FILTER_VALUES
  pointers : q.pointers.length ≤ MAX_DEPLOYMENT_FILTER_VALUES
  typeCount : q.entityTypes.length ≤ MAX_DEPLOYMENT_FILTER_VALUES
  lowerPointers : ∀ p ∈ q.pointers, env.loc.toLowercase p = p
  lowerDeployers : ∀ a ∈ q.deployedBy, env.loc.toLowercase a = a
  fromTime : ∀ n ∈ q.fromTime, IsI64 n
  toTime : ∀ n ∈ q.toTime, IsI64 n
  limit : ∀ n ∈ q.limit, IsI64 n
  fields : ∀ f ∈ q.fields, f ∈ VALID_DEPLOYMENT_FIELDS

theorem parsed (h : parseDeploymentQueryOptions env params = .ok q) : q.Parsed env := by
  unfold parseDeploymentQueryOptions at h
  obtain ⟨types, htypes, h⟩ := bind_ok.mp h
  dsimp only at h
  split at h
  · cases h
  rename_i hsizes
  simp only [not_or, not_lt] at hsizes
  obtain ⟨-, -, h⟩ := bind_ok.mp h
  obtain ⟨field, -, h⟩ := bind_ok.mp h
  obtain ⟨order, -, h⟩ := bind_ok.mp h
  obtain ⟨-, -, h⟩ := bind_ok.mp h
  obtain rfl := Except.ok.inj h
  refine ⟨⟨_, htypes⟩, hsizes.1, hsizes.2.1, hsizes.2.2, ?_, ?_, fun _ hn => qsGetNumber_i64 hn,
    fun _ hn => qsGetNumber_i64 hn, fun _ hn => qsGetNumber_i64 hn, parseFields_valid⟩
  · simp [env.toLowercase_idem]
  · simp [env.toLowercase_idem]

end DeploymentQueryOptions

end Deployments

/-! ### `/pointer-changes` -/

section PointerChanges

variable {env : HistoryEnv} {params : QueryParams} {q : PointerChangesQueryOptions}
  {last : HistoryRow} {limit : ℕ}

namespace PointerChangesQueryOptions

structure Parsed (env : HistoryEnv) (q : PointerChangesQueryOptions) : Prop where
  types : ∃ raw, parseEntityTypes env raw = .ok q.entityTypes
  fromTime : ∀ n ∈ q.fromTime, IsI64 n

theorem parsed (h : parsePointerChangesQueryOptions env params = .ok q) : q.Parsed env := by
  obtain ⟨types, htypes, h⟩ := bind_ok.mp h
  obtain ⟨field, -, h⟩ := bind_ok.mp h
  obtain ⟨order, -, h⟩ := bind_ok.mp h
  obtain ⟨-, -, h⟩ := bind_ok.mp h
  obtain rfl := Except.ok.inj h
  exact ⟨⟨_, htypes⟩, fun _ hn => qsGetNumber_i64 hn⟩

end PointerChangesQueryOptions

end PointerChanges

end Catalyrst.Content

import DeclarationIndex.CommandLine.Run
import Mathlib.Algebra.GroupWithZero.Nat
import Mathlib.Data.List.Forall2
import Mathlib.Data.List.Perm.Basic

/-!
A parameter list accepts a number of positional arguments just when they can be shared out over its
parameters, each of which takes as many as its kind allows. The bounds that are reported beside the
verdict say the same, and the order of the parameters has no say in it.
-/

namespace DeclarationIndex

def ParameterKind.Takes : ParameterKind → Nat → Prop
  | .required, share | .postRequired, share => share = 1
  | .optional, share => share = 0 ∨ share = 1
  | .rest, _ | .forward, _ => True
  | .keyword, share | .keywordRest, share | .block, share => share = 0

namespace Arity

/-- That so many positional arguments can be shared out over the parameters of a list. -/
def Binds (parameters : List Parameter) (count : Nat) : Prop :=
  ∃ shares, List.Forall₂ (fun parameter share => parameter.kind.Takes share) parameters shares ∧
    shares.sum = count

theorem accepts_iff {arity : Arity} {count : Nat} :
    arity.accepts count = true ↔
      arity.required ≤ count ∧
        (arity.hasRest = true ∨ count ≤ arity.required + arity.optional) := by
  unfold accepts maximum
  cases arity.hasRest <;> simp

theorem accepts_iff_maximum {arity : Arity} {count : Nat} :
    arity.accepts count = true ↔
      arity.required ≤ count ∧
        (arity.maximum = none ∨ ∃ maximum, arity.maximum = some maximum ∧ count ≤ maximum) := by
  rw [accepts_iff, maximum]
  cases arity.hasRest <;> simp

theorem accepts_empty {count : Nat} : empty.accepts count = true ↔ count = 0 := by
  simp [accepts_iff, empty]

theorem accepts_add {arity : Arity} {kind : ParameterKind} {count : Nat} :
    (arity.add kind).accepts count = true ↔
      ∃ own share, arity.accepts own = true ∧ kind.Takes share ∧ own + share = count := by
  constructor
  · intro accepted
    cases kind with
    | required | postRequired =>
      obtain ⟨low, high⟩ := accepts_iff.mp accepted
      simp only [add] at low high
      refine ⟨count - 1, 1, accepts_iff.mpr ⟨by omega, ?_⟩, rfl, by omega⟩
      exact high.imp_right fun below => by omega
    | optional =>
      obtain ⟨low, high⟩ := accepts_iff.mp accepted
      simp only [add] at low high
      -- the parameter is left out as long as the others can do without it
      by_cases without : arity.accepts count = true
      · exact ⟨count, 0, without, Or.inl rfl, rfl⟩
      · rw [accepts_iff, not_and, not_or] at without
        obtain ⟨noRest, above⟩ := without low
        have below := high.resolve_left noRest
        exact ⟨count - 1, 1, accepts_iff.mpr ⟨by omega, Or.inr (by omega)⟩, Or.inr rfl, by omega⟩
    | rest | forward =>
      obtain ⟨low, _⟩ := accepts_iff.mp accepted
      simp only [add] at low
      refine ⟨arity.required, count - arity.required, ?_, trivial, by omega⟩
      exact accepts_iff.mpr ⟨Nat.le_refl _, Or.inr (Nat.le_add_right ..)⟩
    | keyword | keywordRest | block => exact ⟨count, 0, accepted, rfl, rfl⟩
  · rintro ⟨own, share, accepted, takes, rfl⟩
    obtain ⟨low, high⟩ := accepts_iff.mp accepted
    rw [accepts_iff]
    cases kind with
    | required | postRequired =>
      obtain rfl : share = 1 := takes
      exact ⟨by simpa [add] using low, high.imp_right fun below => by simp only [add]; omega⟩
    | optional =>
      simp only [ParameterKind.Takes] at takes
      exact ⟨by simp only [add]; omega, high.imp_right fun below => by simp only [add]; omega⟩
    | rest | forward => exact ⟨by simp only [add]; omega, Or.inl rfl⟩
    | keyword | keywordRest | block =>
      obtain rfl : share = 0 := takes
      exact ⟨low, high⟩

theorem accepts_foldl {arity : Arity} {parameters : List Parameter} {count : Nat} :
    (parameters.foldl (fun arity parameter => arity.add parameter.kind) arity).accepts count =
        true ↔
      ∃ own share, arity.accepts own = true ∧ Binds parameters share ∧ own + share = count := by
  induction parameters generalizing arity with
  | nil =>
    constructor
    · intro accepted
      exact ⟨count, 0, accepted, ⟨[], .nil, rfl⟩, rfl⟩
    · rintro ⟨own, _, accepted, ⟨shares, bound, rfl⟩, rfl⟩
      rw [List.forall₂_nil_left_iff.mp bound]
      exact accepted
  | cons parameter rest ih =>
    rw [List.foldl_cons, ih]
    constructor
    · rintro ⟨_, _, accepted, ⟨shares, bound, rfl⟩, rfl⟩
      obtain ⟨own, share, before, takes, rfl⟩ := accepts_add.mp accepted
      exact ⟨own, share + shares.sum, before, ⟨share :: shares, .cons takes bound, rfl⟩, by omega⟩
    · rintro ⟨own, _, before, ⟨_, bound, rfl⟩, rfl⟩
      obtain ⟨share, shares, takes, others, rfl⟩ := List.forall₂_cons_left_iff.mp bound
      refine ⟨own + share, shares.sum, accepts_add.mpr ⟨own, share, before, takes, rfl⟩,
        ⟨shares, others, rfl⟩, ?_⟩
      rw [List.sum_cons]
      omega

theorem accepts_ofParameters {parameters : List Parameter} {count : Nat} :
    (ofParameters parameters).accepts count = true ↔ Binds parameters count := by
  rw [ofParameters, accepts_foldl]
  simp only [accepts_empty]
  constructor
  · rintro ⟨_, share, rfl, binds, rfl⟩
    rwa [Nat.zero_add]
  · intro binds
    exact ⟨0, count, rfl, binds, Nat.zero_add count⟩

theorem add_right_comm (arity : Arity) (first second : ParameterKind) :
    (arity.add first).add second = (arity.add second).add first := by
  cases first <;> cases second <;> rfl

theorem ofParameters_perm {parameters other : List Parameter} (same : other.Perm parameters) :
    ofParameters other = ofParameters parameters :=
  have : RightCommutative fun (arity : Arity) (parameter : Parameter) =>
      arity.add parameter.kind := ⟨fun arity _ _ => arity.add_right_comm _ _⟩
  same.foldl_eq empty

end Arity

/-- That a row reports on a method called with so many arguments: the bounds beside the verdict
tell it, and it is whether the arguments can be shared out. -/
structure ArityCheck.ReportsOn (row : ArityCheck) (entry : Entry) (count : Nat) : Prop where
  location : row.location = entry.locationText
  owner : row.owner = entry.owner
  within_bounds : row.accepts = true ↔ row.required ≤ count ∧
    (row.maximum = none ∨ ∃ maximum, row.maximum = some maximum ∧ count ≤ maximum)
  binds : row.accepts = true ↔ Arity.Binds entry.parameters count

theorem Entry.accepts_of_isMethod {entry : Entry} (isMethod : entry.isMethod = true) (count : Nat) :
    entry.accepts count = (Arity.ofParameters entry.parameters).accepts count := by
  unfold Entry.isMethod at isMethod
  split at isMethod
  · rename_i kind
    simp only [accepts, parameters, kind]
  · cases isMethod

theorem ArityCheck.ofEntry_reportsOn {entry : Entry} (isMethod : entry.isMethod = true)
    (count : Nat) : (ofEntry count entry).ReportsOn entry count where
  location := rfl
  owner := rfl
  within_bounds := by
    simp only [ofEntry, Entry.accepts_of_isMethod isMethod]
    exact Arity.accepts_iff_maximum
  binds := by
    simp only [ofEntry, Entry.accepts_of_isMethod isMethod]
    exact Arity.accepts_ofParameters

/-- Accepting arguments is binding them, in whatever order the parameters stand; and the answer to
an arity command has a row for each method of the name that says so. -/
theorem Arity.accepts_iff_binds :
    (∀ parameters count, (ofParameters parameters).accepts count = true ↔
      Binds parameters count) ∧
    (∀ parameters other : List Parameter, other.Perm parameters →
      ofParameters other = ofParameters parameters) ∧
    ∀ (index : Index) (method : String) (count : Nat), ∃ rows : List ArityCheck,
      List.Forall₂ (fun entry row => row.ReportsOn entry count)
        ((index.get method).filter Entry.isMethod) rows ∧
      CommandLine.answer index .text (.arity method count) =
        CommandLine.printLines (CommandLine.linesOr ("No method named: " ++ method)
          (rows.map (ArityCheck.line method count))) ∧
      CommandLine.answer index .json (.arity method count) =
        (Json.array (rows.map ArityCheck.toJson)).pretty ++ "\n" := by
  refine ⟨fun _ _ => accepts_ofParameters, fun _ _ => ofParameters_perm, ?_⟩
  intro index method count
  refine ⟨_, ?_, rfl, rfl⟩
  rw [List.forall₂_map_right_iff, List.forall₂_same]
  exact fun entry member => ArityCheck.ofEntry_reportsOn (List.mem_filter.mp member).2 count

end DeclarationIndex

import DeclarationIndex.Proofs.Declaration.Arguments
import DeclarationIndex.Proofs.Declaration.Bodies

/-!
Visibility sections are lexical: a method gets the visibility of the last section that started
before it in its own body. A section started in another body has no say, be it nested, around or
beside.
-/

namespace DeclarationIndex

section
variable (file : FileContext)

/-- The visibility in force in a body after some visits: that of the last section among those in
the body itself, and public before the first. -/
def sectionIn (earlier : List Visit) (body : Option (List Nat)) : Visibility :=
  (((earlier.filter (·.body = body)).filterMap (Visit.section? file)).getLast?).getD .isPublic

variable {file}

theorem sectionIn_append_of_ne {earlier later : List Visit} {body : Option (List Nat)}
    (elsewhere : ∀ visit ∈ later, visit.body ≠ body) :
    sectionIn file (earlier ++ later) body = sectionIn file earlier body := by
  have none : later.filter (·.body = body) = [] := by
    simpa [List.filter_eq_nil_iff] using elsewhere
  simp only [sectionIn, List.filter_append, none, List.append_nil]

theorem sectionIn_of_ne {earlier : List Visit} {body : Option (List Nat)}
    (elsewhere : ∀ visit ∈ earlier, visit.body ≠ body) :
    sectionIn file earlier body = .isPublic := by
  have none : sectionIn file ([] ++ earlier) body = .isPublic := by
    rw [sectionIn_append_of_ne elsewhere]
    rfl
  exact none

def Fresh (earlier : List Visit) (path : List Nat) : Prop :=
  ∀ visit ∈ earlier, ¬ path <:+ visit.path

theorem Fresh.below {earlier : List Visit} {path : List Nat} (fresh : Fresh earlier path)
    (index : Nat) : Fresh earlier (index :: path) := by
  intro visit member inside
  exact fresh visit member ((List.suffix_cons ..).trans inside)

namespace Tour

variable (file) in
/-- Steps in a body, after some visits: each visit finds the section of its own body, and the steps
end with the sections that started on the way. -/
def Sectioned (body : Option (List Nat)) (earlier : List Visit) (steps : List Step) : Prop :=
  ∀ scope outer, scope.sections = sectionIn file earlier body :: outer →
    (∀ moment ∈ moments file earlier scope steps,
      moment.scope.current = sectionIn file moment.earlier moment.visit.body) ∧
    (scopeAfter file scope steps).sections =
      sectionIn file (earlier ++ visits steps) body :: outer

variable {body : Option (List Nat)} {earlier : List Visit} {steps first second : List Step}

theorem Sectioned.append (before : Sectioned file body earlier first)
    (after : Sectioned file body (earlier ++ visits first) second) :
    Sectioned file body earlier (first ++ second) := by
  intro scope outer inside
  obtain ⟨found, then'⟩ := before scope outer inside
  obtain ⟨foundLater, last⟩ := after _ outer then'
  rw [moments_append, scopeAfter_append, visits_append, ← List.append_assoc]
  refine ⟨fun moment member => ?_, last⟩
  rcases List.mem_append.mp member with early | late
  · exact found moment early
  · exact foundLater moment late

theorem Sectioned.enclosed {inner : Option (List Nat)} (name : Option String)
    (fresh : ∀ visit ∈ earlier, visit.body ≠ inner)
    (apart : ∀ visit ∈ visits steps, visit.body ≠ body)
    (steady : Sectioned file inner earlier steps) :
    Sectioned file body earlier (.enter name :: (steps ++ [.leave name])) := by
  intro scope outer inside
  have opened : ((Step.enter name).scope file scope).sections =
      sectionIn file earlier inner :: scope.sections := by
    rw [sectionIn_of_ne fresh]
    cases name <;> rfl
  obtain ⟨found, back⟩ := steady _ _ opened
  have visited : visits (.enter name :: (steps ++ [.leave name])) = visits steps := by
    simp [visits, Step.visit?]
  rw [visited, sectionIn_append_of_ne apart, ← inside]
  refine ⟨by simpa [moments, moments_append, Step.visit?] using found, ?_⟩
  have closed : ∀ after : Scope,
      ((Step.leave name).scope file after).sections = after.sections.tail := by
    intro after
    cases name <;> rfl
  simp only [scopeAfter, List.foldl_cons, List.foldl_append, List.foldl_nil] at back ⊢
  rw [closed, back, List.tail_cons]

section
variable {node : Node} {role : Role} {above : List Level} {indices : List Nat}

theorem Sectioned.inBody (unentered : ∀ visit ∈ earlier, visit.body ≠ some (Level.path above))
    (steady : Sectioned file ((role.form file node).bodyInside .after above) earlier
      (indices.flatMap (through file above role node .after))) :
    Sectioned file (Level.body above) earlier
      ((role.form file node).inBody (indices.flatMap (through file above role node .after))) := by
  cases opens : (role.form file node).opensBody with
  | true =>
    obtain ⟨name, enclosed⟩ := Form.inBody_of_opensBody opens
    rw [enclosed]
    have inner : (role.form file node).bodyInside .after above = some (Level.path above) := by
      simp [Form.bodyInside, opens]
    rw [inner] at steady
    exact steady.enclosed name unentered fun other member => body_ne_outer opens member
  | false =>
    rw [Form.inBody_of_not_opensBody opens]
    have inner : (role.form file node).bodyInside .after above = Level.body above := by
      simp [Form.bodyInside, opens]
    rwa [inner] at steady

end

end Tour

end

/-- A method after a private section and a nested class with a section of its own, over the lines
`module A`, `  private`, `  class B`, `    public`, `  end`, `  def c`, `  end`, `end`. -/
def sectionedTree : Node :=
  let privateWord : Node := ⟨.identifier, true, none, .onRow 11 18 1 2, []⟩
  let publicWord : Node := ⟨.identifier, true, none, .onRow 33 39 3 4, []⟩
  let className : Node := ⟨.constant, true, some .name, .onRow 27 28 2 8, []⟩
  let classBody : Node :=
    ⟨.bodyStatement, true, some (.other "body"), .onRow 33 39 3 4, [publicWord]⟩
  let nested : Node :=
    ⟨.classDefinition, true, none, ⟨21, 45, ⟨2, 2⟩, ⟨4, 5⟩⟩, [className, classBody]⟩
  let methodName : Node := ⟨.identifier, true, some .name, .onRow 52 53 5 6, []⟩
  let method : Node := ⟨.method, true, none, ⟨48, 59, ⟨5, 2⟩, ⟨6, 5⟩⟩, [methodName]⟩
  let moduleName : Node := ⟨.constant, true, some .name, .onRow 7 8 0 7, []⟩
  let moduleBody : Node :=
    ⟨.bodyStatement, true, some (.other "body"), ⟨11, 59, ⟨1, 2⟩, ⟨6, 5⟩⟩,
      [privateWord, nested, method]⟩
  let outer : Node :=
    ⟨.moduleDefinition, true, none, ⟨0, 63, ⟨0, 0⟩, ⟨7, 3⟩⟩, [moduleName, moduleBody]⟩
  ⟨.program, true, none, ⟨0, 64, ⟨0, 0⟩, ⟨8, 0⟩⟩, [outer]⟩

def sectionedFile : FileContext where
  path := "a.rb"
  source := SourceText.ofString
    "module A\n  private\n  class B\n    public\n  end\n  def c\n  end\nend\n"
  documentation := ⟨[], fun _ => false⟩

end DeclarationIndex

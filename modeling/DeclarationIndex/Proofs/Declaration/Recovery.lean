import DeclarationIndex.Proofs.Declaration.Nesting
import DeclarationIndex.Proofs.Naming.WellFormed

/-!
The names of constants in trees that were recovered from errors. Where a parser misses a name it
puts in a node without text, so any text may stand where a class, module or constant has its name.
Which of these texts make well-formed full names can be told from the texts alone.
-/

namespace DeclarationIndex

open Naming (IsWellFormed FitsIn isConstantPath)

section
variable (file : FileContext)

def FileContext.localName? (node : Node) : Option String :=
  if node.kind.isNamespace then some (file.fieldText node .name)
  else node.constantTarget?.map file.text

variable {file}

theorem isConstantPath_of_mem_enclosingNames {visit : Visit} {name : String}
    (around : name ∈ visit.enclosingNames file) : isConstantPath name = true := by
  obtain ⟨level, _, named⟩ := List.mem_filterMap.mp around
  simp only [Level.name?, Option.ite_none_right_eq_some, Bool.and_eq_true] at named
  obtain ⟨⟨⟨_, path⟩, _⟩, same⟩ := named
  exact Option.some.inj same ▸ path

theorem exists_localName_of_mem_entries {insertion : Insertion} {scope : Scope}
    (nesting : scope.nesting = insertion.visit.enclosingNames file)
    (inserted : insertion.entry ∈ insertion.visit.entries file scope)
    (isConstant : insertion.entry.isMethod = false) :
    ∃ name, file.localName? insertion.visit.node = some name ∧
      insertion.entry.name = Naming.qualify (insertion.visit.enclosingNames file) name := by
  obtain ⟨earlier, visit, entry⟩ := insertion
  simp only at nesting inserted isConstant
  rw [← nesting]
  have fits := visit.fits_form file
  cases inserts_of_mem_entries file inserted with
  | classOrModule form =>
    rw [form] at fits
    refine ⟨file.fieldText visit.node .name, if_pos fits.2.1, ?_⟩
    simp only [FileContext.entry, Scope.qualify]
  | @constant target form =>
    rw [form] at fits
    have other : visit.node.kind.isNamespace = false := by
      cases kind : visit.node.kind <;> simp_all [Form.Fits, NodeKind.isAssignment,
        NodeKind.isNamespace]
    have own : file.localName? visit.node = some (file.text target) := by
      simp [FileContext.localName?, other, fits.2]
    refine ⟨file.text target, own, ?_⟩
    simp only [FileContext.entry, Scope.qualify]
  | method form => cases isConstant
  | accessor form => cases isConstant

variable (file) in
/-- What a walk over any tree inserts, methods apart, has a well-formed name just where the local
name fits in with those of the bodies around it. -/
theorem names_well_formed_iff (root : Node) :
    (changesOf file root).filterMap Change.declared? =
      (insertionsOf file root).map Insertion.entry ∧
    ∀ insertion ∈ insertionsOf file root, insertion.entry.isMethod = false →
      ∃ name, file.localName? insertion.visit.node = some name ∧
        (IsWellFormed insertion.entry.name ↔
          FitsIn (insertion.visit.enclosingNames file) name) := by
  refine ⟨declared_eq_insertions file root, ?_⟩
  intro insertion member isConstant
  obtain ⟨moment, met, _, visit, inserted⟩ := mem_insertionsOf file member
  have nesting := nesting_eq_enclosingNames met
  rw [← visit] at nesting inserted
  obtain ⟨name, own, full⟩ := exists_localName_of_mem_entries nesting inserted isConstant
  refine ⟨name, own, ?_⟩
  rw [full]
  apply Naming.isWellFormed_qualify_iff
  intro outer around
  exact isConstantPath_of_mem_enclosingNames around

end

theorem alias_in_rooted_class_well_formed :
    ∃ insertion ∈ insertionsOf rootedClassFile rootedClassTree,
      insertion.entry.isMethod = false ∧
      insertion.visit.enclosingNames rootedClassFile = ["A", "::B"] ∧
      rootedClassFile.localName? insertion.visit.node = some "C" ∧
      FitsIn ["A", "::B"] "C" ∧ IsWellFormed insertion.entry.name := by
  let insertion := (insertionsOf rootedClassFile rootedClassTree).get ⟨2, by decide +kernel⟩
  have member : insertion ∈ insertionsOf rootedClassFile rootedClassTree := List.get_mem ..
  have isConstant : insertion.entry.isMethod = false := by decide +kernel
  have around : insertion.visit.enclosingNames rootedClassFile = ["A", "::B"] := by decide +kernel
  have own : rootedClassFile.localName? insertion.visit.node = some "C" := by decide +kernel
  have fits : FitsIn ["A", "::B"] "C" := by decide +kernel
  obtain ⟨name, same, wellFormed⟩ :=
    (names_well_formed_iff rootedClassFile rootedClassTree).2 insertion member isConstant
  obtain rfl : "C" = name := Option.some.inj (own.symm.trans same)
  rw [around] at wellFormed
  exact ⟨insertion, member, isConstant, around, own, fits, wellFormed.mpr fits⟩

/-- A class whose name was missed behind a separator, and a constant in it, on the single line
`class ::É; S = 1; end`: the parser takes the letter for the first thing in the body. -/
def missingNameTree : Node :=
  let missing : Node := ⟨.constant, true, some .name, .onRow 8 8 0 8, []⟩
  let className : Node := ⟨.scopeResolution, true, some .name, .onRow 6 8 0 6, [missing]⟩
  let letter : Node := ⟨.identifier, true, none, .onRow 8 10 0 8, []⟩
  let target : Node := ⟨.constant, true, some .left, .onRow 12 13 0 12, []⟩
  let value : Node := ⟨.other "integer", true, some .right, .onRow 16 17 0 16, []⟩
  let write : Node := ⟨.assignment, true, none, .onRow 12 17 0 12, [target, value]⟩
  let body : Node := ⟨.bodyStatement, true, some (.other "body"), .onRow 8 18 0 8, [letter, write]⟩
  let definition : Node := ⟨.classDefinition, true, none, .onRow 0 22 0 0, [className, body]⟩
  ⟨.program, true, none, .onRow 0 22 0 0, [definition]⟩

def missingNameFile : FileContext where
  path := "a.rb"
  source := SourceText.ofString "class ::É; S = 1; end"
  documentation := ⟨[], fun _ => false⟩

/-- The class is kept under no name, and the constant under one with a separator in front. -/
theorem missing_name_kept :
    (insertionsOf missingNameFile missingNameTree).map
        (fun insertion => (insertion.entry.name, insertion.entry.kind)) =
      [("", .classEntry none), ("::S", .constant)] ∧
    ¬ IsWellFormed "" ∧ ¬ IsWellFormed "::S" := by
  refine ⟨by decide +kernel, ?_, ?_⟩
  · intro wellFormed
    exact wellFormed.nonempty rfl
  · intro wellFormed
    exact wellFormed.start ⟨['S'], rfl⟩

end DeclarationIndex

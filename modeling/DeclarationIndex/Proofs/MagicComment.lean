import DeclarationIndex.Configuration.Basic
import DeclarationIndex.Proofs.MagicComment.Expression

/-!
Which texts are magic comments: those that the pattern of the markers matches, and these are a hash
sign, white space, a marker and a colon, with anything behind it. A marker may hold operators or
white space of its own, start like another one or be empty. All that counts is which markers there
are, and each marker more can only make more texts magic.
-/

namespace DeclarationIndex.MagicComment

/-- That a text is a hash sign, white space and one of the markers with a colon behind it, and
goes on in whatever way. -/
def IsDirective (markers : List String) (text : String) : Prop :=
  ∃ blanks marker rest : String, (∀ c ∈ blanks.toList, c ∈ Expression.whiteSpace) ∧
    marker ∈ markers ∧ text = "#" ++ blanks ++ marker ++ ":" ++ rest

theorem startsWithMarker_iff {markers : List String} {text : List Char} :
    startsWithMarker markers text = true ↔
      ∃ marker ∈ markers, ∃ rest, text = marker.toList ++ ':' :: rest := by
  rw [startsWithMarker, List.any_eq_true]
  apply exists_congr
  intro marker
  apply and_congr_right
  intro _
  rw [List.isPrefixOf_iff_prefix]
  constructor
  · intro ⟨rest, whole⟩
    exact ⟨rest, by rw [← whole, List.append_assoc, List.singleton_append]⟩
  · intro ⟨rest, whole⟩
    exact ⟨rest, by rw [whole, List.append_assoc, List.singleton_append]⟩

theorem markerAfterBlanks_iff {markers : List String} {text : List Char} :
    markerAfterBlanks markers text = true ↔
      ∃ blanks behind, (∀ c ∈ blanks, c ∈ Expression.whiteSpace) ∧
        startsWithMarker markers behind = true ∧ text = blanks ++ behind := by
  induction text with
  | nil =>
    rw [markerAfterBlanks]
    constructor
    · intro here
      exact ⟨[], [], by simp, here, rfl⟩
    · intro ⟨blanks, behind, _, here, whole⟩
      obtain ⟨_, rfl⟩ := List.append_eq_nil_iff.mp whole.symm
      exact here
  | cons c rest ih =>
    rw [markerAfterBlanks, Bool.or_eq_true, Bool.and_eq_true, Expression.isBlank_iff, ih]
    constructor
    · intro found
      rcases found with here | ⟨blank, blanks, behind, areBlank, there, whole⟩
      · exact ⟨[], c :: rest, by simp, here, rfl⟩
      · refine ⟨c :: blanks, behind, ?_, there, by rw [whole]; rfl⟩
        exact List.forall_mem_cons.mpr ⟨blank, areBlank⟩
    · intro ⟨blanks, behind, areBlank, there, whole⟩
      cases blanks with
      | nil =>
        obtain rfl : c :: rest = behind := whole
        exact Or.inl there
      | cons first blanks =>
        obtain ⟨rfl, rest⟩ := List.cons.inj whole
        obtain ⟨blank, areBlank⟩ := List.forall_mem_cons.mp areBlank
        exact Or.inr ⟨blank, blanks, behind, areBlank, there, rest⟩

theorem isDirective_iff {markers : List String} {text : String} :
    IsDirective markers text ↔
      ∃ blanks, (∀ c ∈ blanks, c ∈ Expression.whiteSpace) ∧ ∃ marker ∈ markers, ∃ rest,
        text.toList = '#' :: (blanks ++ (marker.toList ++ ':' :: rest)) := by
  have chars (blanks marker rest : String) :
      ("#" ++ blanks ++ marker ++ ":" ++ rest).toList =
        '#' :: (blanks.toList ++ (marker.toList ++ ':' :: rest.toList)) := by
    simp [String.toList_append]
  constructor
  · intro ⟨blanks, marker, rest, areBlank, listed, whole⟩
    exact ⟨blanks.toList, areBlank, marker, listed, rest.toList, by rw [whole, chars]⟩
  · intro ⟨blanks, areBlank, marker, listed, rest, whole⟩
    refine ⟨String.ofList blanks, marker, String.ofList rest, ?_, listed, ?_⟩
    · rwa [String.toList_ofList]
    · apply String.toList_injective
      rw [whole, chars, String.toList_ofList, String.toList_ofList]

theorem isMagic_iff {markers : List String} {text : String} :
    isMagic markers text = true ↔ IsDirective markers text := by
  rw [isDirective_iff, isMagic]
  constructor
  · intro magic
    split at magic
    · rename_i rest whole
      obtain ⟨blanks, behind, areBlank, there, rfl⟩ := markerAfterBlanks_iff.mp magic
      obtain ⟨marker, listed, rest, rfl⟩ := startsWithMarker_iff.mp there
      exact ⟨blanks, areBlank, marker, listed, rest, whole⟩
    · cases magic
  · intro ⟨blanks, areBlank, marker, listed, rest, whole⟩
    rw [whole]
    have there := startsWithMarker_iff.mpr ⟨marker, listed, rest, rfl⟩
    exact markerAfterBlanks_iff.mpr ⟨blanks, _, areBlank, there, rfl⟩

theorem exists_read?_pattern {markers : List String} (some : markers ≠ []) :
    ∃ expression, Expression.read? (pattern markers) = .some expression ∧
      ∀ text, text ∈ expression.matches' ↔
        ∃ blanks, (∀ c ∈ blanks, c ∈ Expression.whiteSpace) ∧ ∃ marker ∈ markers,
          text = '#' :: (blanks ++ (marker.toList ++ [':'])) := by
  obtain ⟨first, others, rfl⟩ := List.exists_cons_of_ne_nil some
  obtain ⟨alternatives, mem_alternatives, read⟩ := Expression.read?_pattern first others
  refine ⟨_, read, ?_⟩
  intro text
  simp only [RegularExpression.matches'_add, RegularExpression.matches'_mul,
    RegularExpression.matches'_zero, RegularExpression.matches'_char,
    RegularExpression.matches'_epsilon, zero_add, mul_one, Language.mem_mul,
    Expression.mem_matches'_star_anyOf, mem_alternatives]
  constructor
  · intro ⟨hash, isHash, _, ⟨blanks, areBlank, _, ⟨_, ⟨marker, listed, rfl⟩, colon, isColon, rfl⟩,
      rfl⟩, whole⟩
    obtain rfl : hash = ['#'] := isHash
    obtain rfl : colon = [':'] := isColon
    exact ⟨blanks, areBlank, marker, listed, whole.symm⟩
  · intro ⟨blanks, areBlank, marker, listed, whole⟩
    exact ⟨['#'], rfl, _, ⟨blanks, areBlank, _, ⟨_, ⟨marker, listed, rfl⟩, [':'], rfl, rfl⟩, rfl⟩,
      whole.symm⟩

theorem exists_pattern_matches {markers : List String} (some : markers ≠ []) :
    ∃ expression, Expression.read? (pattern markers) = .some expression ∧
      ∀ text, Expression.MatchesBeginning expression text ↔ IsDirective markers text := by
  obtain ⟨expression, read, mem_language⟩ := exists_read?_pattern some
  refine ⟨expression, read, ?_⟩
  intro text
  rw [isDirective_iff]
  constructor
  · intro ⟨beginning, member, rest, whole⟩
    obtain ⟨blanks, areBlank, marker, listed, rfl⟩ := (mem_language beginning).mp member
    exact ⟨blanks, areBlank, marker, listed, rest, by rw [← whole]; simp⟩
  · intro ⟨blanks, areBlank, marker, listed, rest, whole⟩
    refine ⟨_, (mem_language _).mpr ⟨blanks, areBlank, marker, listed, rfl⟩, rest, ?_⟩
    rw [whole]
    simp

theorem IsDirective.of_subset {few many : List String} (subset : few ⊆ many) {text : String}
    (directive : IsDirective few text) : IsDirective many text := by
  obtain ⟨blanks, marker, rest, areBlank, listed, whole⟩ := directive
  exact ⟨blanks, marker, rest, areBlank, subset listed, whole⟩

/-- With configured markers or without, a text is a magic comment just when the pattern of all
markers matches it, which is when it is a directive by a built-in marker or a configured one. So
markers in another order or told twice are the same, and further markers lose no magic comment. -/
theorem magic_comments_match_pattern (configuration : Configuration) :
    (∃ expression, Expression.read? (pattern configuration.markers) = some expression ∧
      ∀ text, isMagic configuration.markers text = true ↔
        Expression.MatchesBeginning expression text) ∧
    (∀ text, isMagic configuration.markers text = true ↔
      ∃ blanks marker rest : String, (∀ c ∈ blanks.toList, c ∈ Expression.whiteSpace) ∧
        (marker ∈ builtInMarkers ∨ marker ∈ configuration.excludedMagicComments) ∧
        text = "#" ++ blanks ++ marker ++ ":" ++ rest) ∧
    (∀ other : Configuration,
      (∀ marker, marker ∈ configuration.excludedMagicComments ↔
        marker ∈ other.excludedMagicComments) →
      isMagic configuration.markers = isMagic other.markers) ∧
    ∀ other : Configuration, configuration.excludedMagicComments ⊆ other.excludedMagicComments →
      ∀ text, isMagic configuration.markers text = true → isMagic other.markers text = true := by
  have grows {few many : Configuration}
      (subset : few.excludedMagicComments ⊆ many.excludedMagicComments) (text : String)
      (magic : isMagic few.markers text = true) : isMagic many.markers text = true := by
    have markers : few.markers ⊆ many.markers := by
      apply List.append_subset.mpr
      exact ⟨List.subset_append_left _ _, List.subset_append_of_subset_right _ subset⟩
    exact isMagic_iff.mpr ((isMagic_iff.mp magic).of_subset markers)
  refine ⟨?_, ?_, ?_, ?_⟩
  · have some : configuration.markers ≠ [] := List.cons_ne_nil _ _
    obtain ⟨expression, read, directives⟩ := exists_pattern_matches some
    exact ⟨expression, read, fun text => isMagic_iff.trans (directives text).symm⟩
  · intro text
    rw [isMagic_iff]
    simp only [IsDirective, Configuration.markers, List.mem_append]
  · intro other same
    funext text
    apply Bool.eq_iff_iff.mpr
    exact ⟨grows (fun _ => (same _).mp) text, grows (fun _ => (same _).mpr) text⟩
  · exact fun other => grows

end DeclarationIndex.MagicComment

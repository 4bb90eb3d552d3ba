import DeclarationIndex.Json.Read

/-!
Numbers in JSON text. Their grammar is stated on its own; a number that it derives is read as it
is written, up to the first character that cannot go on with it.
-/

namespace DeclarationIndex.Json

def IsDigits (digits : List Char) : Prop :=
  digits ≠ [] ∧ ∀ c ∈ digits, c.isDigit = true

inductive IsWhole : List Char → Prop where
  | zero : IsWhole ['0']
  | digits {first : Char} {rest : List Char} (nonzero : first ≠ '0')
      (digits : IsDigits (first :: rest)) : IsWhole (first :: rest)

inductive IsFraction : List Char → Prop where
  | absent : IsFraction []
  | point {places : List Char} (digits : IsDigits places) : IsFraction ('.' :: places)

inductive IsExponent : List Char → Prop where
  | absent : IsExponent []
  | unsigned {mark : Char} {power : List Char} (marked : mark = 'e' ∨ mark = 'E')
      (digits : IsDigits power) : IsExponent (mark :: power)
  | signed {mark sign : Char} {power : List Char} (marked : mark = 'e' ∨ mark = 'E')
      (signed : sign = '+' ∨ sign = '-') (digits : IsDigits power) :
      IsExponent (mark :: sign :: power)

inductive IsMagnitude : List Char → Prop where
  | parts {whole fraction exponent : List Char} (isWhole : IsWhole whole)
      (isFraction : IsFraction fraction) (isExponent : IsExponent exponent) :
      IsMagnitude (whole ++ fraction ++ exponent)

inductive IsNumber : List Char → Prop where
  | plain {magnitude : List Char} (isMagnitude : IsMagnitude magnitude) : IsNumber magnitude
  | negative {magnitude : List Char} (isMagnitude : IsMagnitude magnitude) :
      IsNumber ('-' :: magnitude)

def EndsDigits (rest : List Char) : Prop :=
  ∀ c ∈ rest.head?, c.isDigit = false

def EndsNumber (rest : List Char) : Prop :=
  ∀ c ∈ rest.head?, c.isDigit = false ∧ c ≠ '.' ∧ c ≠ 'e' ∧ c ≠ 'E'

theorem endsNumber_cons {first : Char} (rest : List Char)
    (ends : first.isDigit = false ∧ first ≠ '.' ∧ first ≠ 'e' ∧ first ≠ 'E') :
    EndsNumber (first :: rest) := by
  intro c front
  cases front
  exact ends

theorem EndsNumber.endsDigits {rest : List Char} (ends : EndsNumber rest) : EndsDigits rest :=
  fun c front => (ends c front).1

theorem ne_of_isDigit {c other : Char} (isDigit : c.isDigit = true)
    (notDigit : other.isDigit = false) : c ≠ other := by
  intro same
  rw [same, notDigit] at isDigit
  cases isDigit

theorem isDigits_toDigits (number : Nat) : IsDigits (Nat.toDigits 10 number) :=
  ⟨Nat.toDigits_ne_nil, fun _ member =>
    Nat.isDigit_of_mem_toDigits (by decide) (by decide) member⟩

theorem readDigits_append {digits rest : List Char} (isDigits : IsDigits digits)
    (ends : EndsDigits rest) : readDigits (digits ++ rest) = some (digits, rest) := by
  have front : rest.takeWhile Char.isDigit = [] ∧ rest.dropWhile Char.isDigit = rest := by
    cases rest with
    | nil => exact ⟨rfl, rfl⟩
    | cons first rest => simp [ends first rfl]
  have taken : (digits ++ rest).takeWhile Char.isDigit = digits := by
    rw [List.takeWhile_append_of_pos isDigits.2, front.1, List.append_nil]
  have left : (digits ++ rest).dropWhile Char.isDigit = rest := by
    rw [List.dropWhile_append_of_pos isDigits.2, front.2]
  simp [readDigits, taken, left, isDigits.1]

theorem readWhole_append {whole rest : List Char} (isWhole : IsWhole whole)
    (ends : EndsDigits rest) : readWhole (whole ++ rest) = some (whole, rest) := by
  cases isWhole with
  | zero => rfl
  | digits nonzero digits =>
    rw [List.cons_append, readWhole.eq_2 _ (by simpa using nonzero)]
    exact readDigits_append digits ends

theorem readFraction_append {fraction rest : List Char} (isFraction : IsFraction fraction)
    (ends : EndsDigits rest) (noPoint : ∀ c ∈ rest.head?, c ≠ '.') :
    readFraction (fraction ++ rest) = some (fraction, rest) := by
  cases isFraction with
  | absent =>
    rw [List.nil_append, readFraction.eq_2]
    rintro others rfl
    exact noPoint '.' rfl rfl
  | point digits =>
    rw [List.cons_append, readFraction, readDigits_append digits ends]
    rfl

theorem readExponent_append {exponent rest : List Char} (isExponent : IsExponent exponent)
    (ends : EndsNumber rest) : readExponent (exponent ++ rest) = some (exponent, rest) := by
  cases isExponent with
  | absent =>
    cases rest with
    | nil => rfl
    | cons first rest =>
      obtain ⟨_, _, small, capital⟩ := ends first rfl
      simp [readExponent, small, capital]
  | unsigned marked digits =>
    have read := readDigits_append digits ends.endsDigits
    obtain ⟨nonempty, isDigit⟩ := digits
    rename_i mark power
    obtain _ | ⟨first, others⟩ := power
    · exact absurd rfl nonempty
    have firstDigit := isDigit first (List.mem_cons_self ..)
    rw [List.cons_append] at read
    have marked : (mark == 'e' || mark == 'E') = true := by simpa using marked
    simp only [List.cons_append, readExponent, marked, if_true]
    split
    · rename_i same
      exact absurd (List.cons.inj same).1 (ne_of_isDigit firstDigit rfl)
    · rename_i same
      exact absurd (List.cons.inj same).1 (ne_of_isDigit firstDigit rfl)
    · rw [read]
      rfl
  | signed marked signed digits =>
    have read := readDigits_append digits ends.endsDigits
    rename_i mark sign power
    have marked : (mark == 'e' || mark == 'E') = true := by simpa using marked
    simp only [List.cons_append, readExponent, marked, if_true]
    rcases signed with rfl | rfl
    all_goals
      simp only [read]
      rfl

theorem readMagnitude_append {magnitude rest : List Char} (isMagnitude : IsMagnitude magnitude)
    (ends : EndsNumber rest) : readMagnitude (magnitude ++ rest) = some (magnitude, rest) := by
  obtain @⟨whole, fraction, exponent, isWhole, isFraction, isExponent⟩ := isMagnitude
  have afterFraction : ∀ c ∈ (exponent ++ rest).head?, c.isDigit = false ∧ c ≠ '.' := by
    intro c front
    cases isExponent with
    | absent => exact ⟨(ends c front).1, (ends c front).2.1⟩
    | unsigned marked | signed marked =>
      cases front
      rcases marked with rfl | rfl <;> decide
  have afterWhole : EndsDigits (fraction ++ (exponent ++ rest)) := by
    cases isFraction with
    | absent => exact fun c front => (afterFraction c front).1
    | point =>
      intro c front
      cases front
      decide
  have whole := readWhole_append isWhole afterWhole
  have fraction := readFraction_append isFraction (fun c front => (afterFraction c front).1)
    fun c front => (afterFraction c front).2
  have exponent := readExponent_append isExponent ends
  rw [readMagnitude, List.append_assoc, List.append_assoc, whole]
  simp [fraction, exponent]

theorem IsMagnitude.exists_eq_cons {magnitude : List Char} (isMagnitude : IsMagnitude magnitude) :
    ∃ first rest, magnitude = first :: rest ∧ first.isDigit = true := by
  obtain ⟨whole, _, _⟩ := isMagnitude
  cases whole with
  | zero => exact ⟨'0', _, rfl, rfl⟩
  | digits _ digits => exact ⟨_, _, rfl, digits.2 _ (List.mem_cons_self ..)⟩

theorem readNumber_append {literal rest : List Char} (isNumber : IsNumber literal)
    (ends : EndsNumber rest) : readNumber (literal ++ rest) = some (literal, rest) := by
  cases isNumber with
  | plain isMagnitude =>
    have read := readMagnitude_append isMagnitude ends
    obtain ⟨first, others, rfl, isDigit⟩ := isMagnitude.exists_eq_cons
    rw [readNumber.eq_2, read]
    intro _ same
    exact ne_of_isDigit isDigit rfl (List.cons.inj same).1
  | negative isMagnitude =>
    rw [List.cons_append, readNumber, readMagnitude_append isMagnitude ends]
    rfl

theorem IsNumber.exists_eq_cons {literal : List Char} (isNumber : IsNumber literal) :
    ∃ first rest, literal = first :: rest ∧ (first = '-' ∨ first.isDigit = true) := by
  cases isNumber with
  | plain isMagnitude =>
    obtain ⟨first, rest, same, isDigit⟩ := isMagnitude.exists_eq_cons
    exact ⟨first, rest, same, Or.inr isDigit⟩
  | negative => exact ⟨'-', _, rfl, Or.inl rfl⟩

theorem exists_toDigits_eq_cons (number : Nat) (positive : 0 < number) :
    ∃ first rest, Nat.toDigits 10 number = first :: rest ∧ first ≠ '0' := by
  induction number using Nat.strongRecOn with
  | ind number ih =>
    by_cases small : number < 10
    · refine ⟨Nat.digitChar number, [], Nat.toDigits_of_lt_base small, ?_⟩
      have nonzero : ∀ digit < 10, 0 < digit → Nat.digitChar digit ≠ '0' := by decide
      exact nonzero number small positive
    · obtain ⟨first, rest, same, nonzero⟩ := ih (number / 10) (by omega) (by omega)
      refine ⟨first, rest ++ [Nat.digitChar (number % 10)], ?_, nonzero⟩
      rw [Nat.toDigits_eq_if (by decide), if_neg small, same, List.cons_append]

theorem isWhole_toDigits (number : Nat) : IsWhole (Nat.toDigits 10 number) := by
  rcases Nat.eq_zero_or_pos number with rfl | positive
  · exact .zero
  · have digits := isDigits_toDigits number
    obtain ⟨first, rest, same, nonzero⟩ := exists_toDigits_eq_cons number positive
    rw [same] at digits ⊢
    exact .digits nonzero digits

theorem isNumber_toDigits (number : Nat) : IsNumber (Nat.toDigits 10 number) := by
  simpa using IsNumber.plain (.parts (isWhole_toDigits number) .absent .absent)

theorem natural?_natural (number : Nat) : (natural number).natural? = some number := by
  obtain ⟨nonempty, isDigit⟩ := isDigits_toDigits number
  have value : digitsToNat (Nat.toDigits 10 number) = number :=
    Nat.ofDigitChars_toDigits (by decide) (by decide)
  simpa [natural, natural?, nonempty, value] using isDigit

end DeclarationIndex.Json

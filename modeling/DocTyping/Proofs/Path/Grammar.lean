import DocTyping.Proofs.Path.Names
import Mathlib.Algebra.Group.Nat.Defs

namespace DocTyping

/-!
# The grammar of paths

A text is a path if each part between its dots is a name, a number or a placeholder.
The text of a path that was read is read as the same path.  It is the text that was
read, unless a number in it was padded with zeros.
-/

namespace Text

variable {separator : Char} {chars : List Char} {text : String} {parts : List String}

theorem separated_eq_splitOn : separated separator chars = chars.splitOn separator := by
  induction chars with
  | nil => rfl
  | cons char rest ih =>
      rw [List.splitOn_cons_eq_if_modifyHead]
      unfold separated
      by_cases ends : char = separator
      · simp [ends, ih]
      · cases between : separated separator rest with
        | nil => exact absurd between separated_ne_nil
        | cons first others => simp [ends, ← ih, between]

theorem joinDots_splitDots (text : String) : joinDots (splitDots text) = text := by
  apply String.toList_injective
  rw [joinDots, String.toList_intercalate, splitDots, partsBetween, List.map_map,
    separated_eq_splitOn]
  simp [Function.comp_def]

theorem splitDots_joinDots (filled : parts ≠ []) (dotless : ∀ part ∈ parts, '.' ∉ part.toList) :
    splitDots (joinDots parts) = parts := by
  have dotlessToo : ∀ chars ∈ parts.map String.toList, '.' ∉ chars :=
    List.forall_mem_map.mpr dotless
  have split := List.splitOn_intercalate '.' dotlessToo (by simpa using filled)
  rw [splitDots, partsBetween, joinDots, String.toList_intercalate, separated_eq_splitOn]
  simp [split, Function.comp_def]

theorem separated_append (more : List Char) :
    separated separator (chars ++ separator :: more) =
      separated separator chars ++ separated separator more := by
  induction chars with
  | nil => simp [separated]
  | cons char rest ih =>
      by_cases ends : char = separator
      · simp [separated, ends, ih]
      · have some : separated separator rest ≠ [] := separated_ne_nil
        obtain ⟨part, parts, between⟩ := List.exists_cons_of_ne_nil some
        simp [separated, ends, ih, between]

theorem splitDots_dotted (text rest : String) :
    splitDots (text ++ "." ++ rest) = splitDots text ++ splitDots rest := by
  have chars : (text ++ "." ++ rest).toList = text.toList ++ '.' :: rest.toList := by simp
  rw [splitDots, partsBetween, chars, separated_append, List.map_append]
  rfl

theorem splitDots_of_dotless (dotless : '.' ∉ text.toList) :
    splitDots text = [text] :=
  splitDots_joinDots (List.cons_ne_nil text []) (List.forall_mem_singleton.mpr dotless)

theorem startsWithDollar_dotted (text rest : String) :
    Text.startsWithDollar (text ++ "." ++ rest) = Text.startsWithDollar text := by
  cases chars : text.toList with
  | nil => simp [Text.startsWithDollar, chars]
  | cons first others => simp [Text.startsWithDollar, chars]

/-- The identifiers of array filters: a lower-case letter, then letters and digits. -/
def IsIdentifier (text : String) : Prop :=
  ∃ first rest, text.toList = first :: rest ∧ ('a' ≤ first ∧ first ≤ 'z') ∧
    ∀ char ∈ rest, ('a' ≤ char ∧ char ≤ 'z') ∨ ('A' ≤ char ∧ char ≤ 'Z') ∨
      ('0' ≤ char ∧ char ≤ '9')

theorem isLower_iff {char : Char} : char.isLower = true ↔ 'a' ≤ char ∧ char ≤ 'z' := by
  change (decide ('a' ≤ char) && decide (char ≤ 'z')) = true ↔ _
  simp

theorem isAlphanum_iff {char : Char} : char.isAlphanum = true ↔
    ('a' ≤ char ∧ char ≤ 'z') ∨ ('A' ≤ char ∧ char ≤ 'Z') ∨ ('0' ≤ char ∧ char ≤ '9') := by
  have upper : char.isUpper = true ↔ 'A' ≤ char ∧ char ≤ 'Z' := decide_eq_true_iff
  have digit : char.isDigit = true ↔ '0' ≤ char ∧ char ≤ '9' := by
    change (decide ('0' ≤ char) && decide (char ≤ '9')) = true ↔ _
    simp
  change (char.isUpper || char.isLower || char.isDigit) = true ↔ _
  rw [Bool.or_eq_true, Bool.or_eq_true, upper, isLower_iff, digit, or_assoc, or_left_comm]

theorem isIdentifier_iff : isIdentifier text = true ↔ IsIdentifier text := by
  unfold isIdentifier IsIdentifier
  cases text.toList with
  | nil => simp
  | cons first rest =>
      simp only [Bool.and_eq_true, List.all_eq_true, List.cons.injEq, isLower_iff, isAlphanum_iff]
      constructor
      · intro shaped
        exact ⟨first, rest, ⟨rfl, rfl⟩, shaped.1, shaped.2⟩
      · intro shaped
        obtain ⟨_, _, ⟨rfl, rfl⟩, head, tail⟩ := shaped
        exact ⟨head, tail⟩

theorem splitDots_of_dollar (dollar : startsWithDollar text = true) :
    ∃ part parts, splitDots text = part :: parts ∧ startsWithDollar part = true := by
  obtain ⟨rest, starts⟩ := List.head?_eq_some_iff.mp (beq_iff_eq.mp dollar)
  have first : ∃ part parts, separated '.' text.toList = ('$' :: part) :: parts := by
    rw [starts, separated, if_neg (by decide)]
    split
    · exact ⟨[], [], rfl⟩
    · exact ⟨_, _, rfl⟩
  obtain ⟨part, parts, separates⟩ := first
  refine ⟨String.ofList ('$' :: part), parts.map String.ofList, ?_, by simp [startsWithDollar]⟩
  rw [splitDots, partsBetween, separates]
  rfl

end Text

namespace Segment

variable {part : String} {segment : Segment} {digits : List Char} {char : Char} {total : Nat}

/-! ### Numbers -/

theorem decimal_eq_ofDigitChars (digits : List Char) :
    decimal digits = Nat.ofDigitChars 10 digits 0 := by
  simp [decimal, Nat.ofDigitChars_eq_foldl, Nat.mul_comm]

-- `Char.isDigit_iff_toNat` with the codes as numbers, which `omega` needs
theorem isDigit_iff : char.isDigit = true ↔ 48 ≤ char.toNat ∧ char.toNat ≤ 57 :=
  Char.isDigit_iff_toNat

theorem digitChar_of_isDigit (isDigit : char.isDigit = true) :
    Nat.digitChar (char.toNat - 48) = char := by
  have bounds := isDigit_iff.mp isDigit
  apply Char.toNat_inj.mp
  rw [Nat.toNat_digitChar_of_lt_ten (by omega)]
  omega

theorem toDigits_append_digits (positive : 0 < total)
    (each : ∀ digit ∈ digits, digit.isDigit = true) :
    Nat.toDigits 10 total ++ digits = Nat.toDigits 10 (Nat.ofDigitChars 10 digits total) := by
  induction digits generalizing total with
  | nil => simp
  | cons digit rest ih =>
      obtain ⟨isDigit, others⟩ := List.forall_mem_cons.mp each
      have bounds := isDigit_iff.mp isDigit
      have written := Nat.toDigits_append_toDigits (b := 10) (n := total) (d := digit.toNat - 48)
        (by decide) positive (by omega)
      rw [Nat.toDigits_of_lt_base (n := digit.toNat - 48) (by omega),
        digitChar_of_isDigit isDigit] at written
      calc
        Nat.toDigits 10 total ++ digit :: rest = (Nat.toDigits 10 total ++ [digit]) ++ rest := by
          simp
        _ = Nat.toDigits 10 (10 * total + (digit.toNat - 48)) ++ rest := by rw [written]
        _ = _ := by rw [ih (by omega) others, Nat.ofDigitChars_cons]; rfl

theorem ofDigitChars_lt (each : ∀ digit ∈ digits, digit.isDigit = true) :
    Nat.ofDigitChars 10 digits 0 < 10 ^ digits.length := by
  induction digits with
  | nil => simp
  | cons digit rest ih =>
      obtain ⟨isDigit, others⟩ := List.forall_mem_cons.mp each
      have bounds := isDigit_iff.mp isDigit
      have below := ih others
      have value : 10 * 0 + (digit.toNat - '0'.toNat) ≤ 9 := by
        change 10 * 0 + (digit.toNat - 48) ≤ 9
        omega
      have scaled := Nat.mul_le_mul_left (10 ^ rest.length) value
      rw [Nat.ofDigitChars_cons, Nat.ofDigitChars_eq_ofDigitChars_zero, List.length_cons,
        Nat.pow_succ]
      omega

theorem toDigits_decimal {first : Char} {rest : List Char}
    (each : ∀ digit ∈ first :: rest, digit.isDigit = true) (leading : first = '0' → rest = []) :
    Nat.toDigits 10 (decimal (first :: rest)) = first :: rest := by
  obtain ⟨isDigit, others⟩ := List.forall_mem_cons.mp each
  have bounds := isDigit_iff.mp isDigit
  rw [decimal_eq_ofDigitChars, Nat.ofDigitChars_cons]
  change Nat.toDigits 10 (Nat.ofDigitChars 10 rest (10 * 0 + (first.toNat - 48))) = _
  rw [Nat.mul_zero, Nat.zero_add]
  have written : Nat.toDigits 10 (first.toNat - 48) = [first] := by
    rw [Nat.toDigits_of_lt_base (by omega), digitChar_of_isDigit isDigit]
  by_cases zero : first = '0'
  · rw [leading zero]
    simpa using written
  · have positive : 0 < first.toNat - 48 := by
      have different : first.toNat ≠ 48 := fun same => zero (Char.toNat_inj.mp same)
      omega
    rw [← toDigits_append_digits positive others, written]
    rfl

theorem toDigits_decimal_padded (each : ∀ digit ∈ digits, digit.isDigit = true)
    (more : digits ≠ []) : Nat.toDigits 10 (decimal ('0' :: digits)) ≠ '0' :: digits := by
  intro same
  have bound := ofDigitChars_lt each
  have filled : 0 < digits.length := List.length_pos_of_ne_nil more
  have short := (Nat.length_toDigits_le_iff (by decide) filled).mpr bound
  have value : decimal ('0' :: digits) = Nat.ofDigitChars 10 digits 0 := by
    rw [decimal_eq_ofDigitChars, Nat.ofDigitChars_cons]
    rfl
  rw [← value, same, List.length_cons] at short
  omega

/-! ### The parts of a path -/

def IsNumeral (part : String) : Prop :=
  part.toList ≠ [] ∧ ∀ char ∈ part.toList, char.isDigit = true

theorem isNumeral_iff : IsNumeral part ↔
    part.toList ≠ [] ∧ part.toList.all Char.isDigit = true := by
  rw [IsNumeral, List.all_eq_true]

theorem IsNumeral.plain (numeral : IsNumeral part) : Text.startsWithDollar part = false := by
  obtain ⟨filled, digits⟩ := numeral
  cases chars : part.toList with
  | nil => contradiction
  | cons first rest =>
      have digit := digits first (chars ▸ List.mem_cons_self)
      have different : first ≠ '$' := by
        rintro rfl
        contradiction
      simp [Text.startsWithDollar, chars, different]

/-- A number for an index that is written with needless zeros in front. -/
structure IsPadded (part : String) : Prop where
  numeral : IsNumeral part
  fits : decimal part.toList < indexLimit
  zero : part.toList.head? = some '0'
  more : part ≠ "0"

/-- The parts of paths, each with the step that it writes. -/
inductive Spells : String → Segment → Prop
  | first : Spells "$" (.placeholder .first)
  | every : Spells "$[]" (.placeholder .every)
  | filtered {identifier : String} (sound : Text.IsIdentifier identifier) :
      Spells ("$[" ++ identifier ++ "]") (.placeholder (.filtered identifier))
  | index {part : String} (numeral : IsNumeral part) (fits : decimal part.toList < indexLimit) :
      Spells part (.index (decimal part.toList))
  | name {part : String} (filled : part ≠ "") (plain : Text.startsWithDollar part = false)
      (other : ¬ (IsNumeral part ∧ decimal part.toList < indexLimit)) :
      Spells part (.name part)

theorem spells_of_parseDollar {rest : List Char} (starts : part.toList = '$' :: rest)
    (parsed : parseDollar part rest = .ok segment) : Spells part segment := by
  unfold parseDollar at parsed
  split at parsed
  · cases parsed
    have same : part = "$" := String.toList_injective starts
    exact same ▸ .first
  · cases parsed
    have same : part = "$[]" := String.toList_injective starts
    exact same ▸ .every
  · rename_i inner _
    dsimp only at parsed
    split at parsed
    · rename_i closed
      split at parsed
      · rename_i sound
        cases parsed
        have whole : inner.dropLast ++ [']'] = inner := by
          obtain ⟨front, rfl⟩ := List.getLast?_eq_some_iff.mp closed
          simp
        have same : part = "$[" ++ String.ofList inner.dropLast ++ "]" := by
          apply String.toList_injective
          simpa using starts.trans (congrArg (fun inner => '$' :: '[' :: inner) whole.symm)
        rw [same]
        exact .filtered (Text.isIdentifier_iff.mp sound)
      · contradiction
    · contradiction
  · contradiction

theorem spells_of_parse (parsed : parse part = .ok segment) : Spells part segment := by
  unfold parse at parsed
  split at parsed
  · contradiction
  · rename_i rest starts
    exact spells_of_parseDollar starts parsed
  · rename_i filled plain
    have notEmpty : part ≠ "" := by
      intro empty
      exact filled (by simp [empty])
    split at parsed
    · rename_i number
      obtain ⟨digits, fits⟩ := number
      cases parsed
      exact .index ⟨filled, by simpa using digits⟩ fits
    · rename_i other
      cases parsed
      refine .name notEmpty ?_ fun number => other ⟨by simpa using number.1.2, number.2⟩
      cases chars : part.toList with
      | nil => simp [Text.startsWithDollar, chars]
      | cons first rest =>
          have different : first ≠ '$' := fun same => plain rest (same ▸ chars)
          simp [Text.startsWithDollar, chars, different]

theorem parseDollar_filtered {identifier : String} (sound : Text.IsIdentifier identifier) :
    parseDollar part ('[' :: (identifier.toList ++ [']'])) =
      .ok (.placeholder (.filtered identifier)) := by
  have filled : identifier.toList ≠ [] := by
    obtain ⟨first, rest, chars, _⟩ := sound
    simp [chars]
  unfold parseDollar
  split
  · contradiction
  · rename_i short
    simp [filled] at short
  · rename_i inner _ whole
    cases whole
    simp [Text.isIdentifier_iff.mpr sound]
  · rename_i other
    exact absurd rfl (other (identifier.toList ++ [']']))

theorem parse_of_spells (spells : Spells part segment) : parse part = .ok segment := by
  cases spells with
  | first => rfl
  | every => rfl
  | @filtered identifier sound =>
      have chars : ("$[" ++ identifier ++ "]").toList =
          '$' :: '[' :: (identifier.toList ++ [']']) := by
        simp
      simp only [parse, chars]
      exact parseDollar_filtered sound
  | index numeral fits =>
      obtain ⟨filled, digits⟩ := numeral
      unfold parse
      split
      · contradiction
      · rename_i rest starts
        have dollar := digits '$' (starts ▸ List.mem_cons_self)
        contradiction
      · rw [if_pos ⟨by simpa using digits, fits⟩]
  | name filled plain other =>
      unfold parse
      split
      · rename_i empty
        exact absurd (String.toList_injective empty) filled
      · rename_i rest starts
        simp [Text.startsWithDollar, starts] at plain
      · rename_i some _
        rw [if_neg fun number => other ⟨⟨some, by simpa using number.1⟩, number.2⟩]

theorem parse_eq_ok_iff : parse part = .ok segment ↔ Spells part segment :=
  ⟨spells_of_parse, parse_of_spells⟩

theorem exists_spells_iff :
    (∃ segment, Spells part segment) ↔
      part ≠ "" ∧ (Text.startsWithDollar part = false ∨ part = "$" ∨ part = "$[]" ∨
        ∃ identifier, Text.IsIdentifier identifier ∧ part = "$[" ++ identifier ++ "]") := by
  constructor
  · rintro ⟨segment, spells⟩
    cases spells with
    | first => exact ⟨by decide, .inr (.inl rfl)⟩
    | every => exact ⟨by decide, .inr (.inr (.inl rfl))⟩
    | @filtered identifier sound =>
        have filled : "$[" ++ identifier ++ "]" ≠ "" := by
          intro empty
          simpa using congrArg String.toList empty
        exact ⟨filled, .inr (.inr (.inr ⟨identifier, sound, rfl⟩))⟩
    | index numeral fits =>
        exact ⟨fun empty => numeral.1 (by simp [empty]), .inl numeral.plain⟩
    | name filled plain other => exact ⟨filled, .inl plain⟩
  · rintro ⟨filled, plain | rfl | rfl | ⟨identifier, sound, rfl⟩⟩
    · by_cases number : IsNumeral part ∧ decimal part.toList < indexLimit
      · exact ⟨_, .index number.1 number.2⟩
      · exact ⟨_, .name filled plain number⟩
    · exact ⟨_, .first⟩
    · exact ⟨_, .every⟩
    · exact ⟨_, .filtered sound⟩

/-! ### Written paths -/

/-- A number is written as it was read, without zeros that pad it. -/
theorem toString_decimal_eq_iff (numeral : IsNumeral part)
    (fits : decimal part.toList < indexLimit) :
    toString (decimal part.toList) = part ↔ ¬ IsPadded part := by
  obtain ⟨filled, digits⟩ := numeral
  cases chars : part.toList with
  | nil => contradiction
  | cons first rest =>
      rw [chars] at digits
      have written : toString (decimal (first :: rest)) = part ↔
          Nat.toDigits 10 (decimal (first :: rest)) = first :: rest := by
        rw [Nat.toString_eq_ofList_toDigits, ← String.toList_inj, String.toList_ofList, chars]
      rw [written]
      constructor
      · intro same padded
        have zero : first = '0' := by simpa [chars] using padded.zero
        subst zero
        have others := (List.forall_mem_cons.mp digits).2
        refine toDigits_decimal_padded others (fun short => padded.more ?_) same
        exact String.toList_injective (by simp [chars, short])
      · intro unpadded
        apply toDigits_decimal digits
        intro zero
        by_contra more
        have several : part ≠ "0" := by
          intro single
          have alone : first :: rest = ['0'] := by simpa [single] using chars.symm
          exact more (List.cons.inj alone).2
        exact unpadded ⟨⟨filled, chars ▸ digits⟩, fits, by simp [chars, zero], several⟩

theorem not_isPadded_of_dollar (dollar : Text.startsWithDollar part = true) :
    ¬ IsPadded part := by
  intro padded
  rw [padded.numeral.plain] at dollar
  contradiction

theorem Spells.render_eq_iff (spells : Spells part segment) :
    segment.render = part ↔ ¬ IsPadded part := by
  cases spells with
  | first | every => exact iff_of_true rfl (not_isPadded_of_dollar rfl)
  | filtered sound =>
      exact iff_of_true rfl (not_isPadded_of_dollar (by simp [Text.startsWithDollar]))
  | index numeral fits => exact toString_decimal_eq_iff numeral fits
  | name filled plain other =>
      exact iff_of_true rfl fun padded => other ⟨padded.numeral, padded.fits⟩

theorem isNumeral_toString (value : Nat) : IsNumeral (toString value) := by
  rw [IsNumeral, Nat.toString_eq_repr, Nat.toList_repr]
  exact ⟨Nat.toDigits_ne_nil, fun char => Nat.isDigit_of_mem_toDigits (by decide) (by decide)⟩

theorem spells_toString {value : Nat} (fits : value < indexLimit) :
    Spells (toString value) (.index value) := by
  have read : decimal (toString value).toList = value := by
    rw [Nat.toString_eq_repr, Nat.toList_repr, decimal_eq_ofDigitChars,
      Nat.ofDigitChars_ten_toDigits]
  have spells := Spells.index (isNumeral_toString value) (by rwa [read])
  rwa [read] at spells

/-- The text of a step that was read writes the same step. -/
theorem Spells.rendered (spells : Spells part segment) : Spells segment.render segment := by
  cases spells with
  | first => exact .first
  | every => exact .every
  | filtered sound => exact .filtered sound
  | index numeral fits => exact spells_toString fits
  | name filled plain other => exact .name filled plain other

theorem Spells.render_dotless (spells : Spells part segment) (dotless : '.' ∉ part.toList) :
    '.' ∉ segment.render.toList := by
  cases spells with
  | index numeral fits =>
      intro dot
      have digit := (isNumeral_toString (decimal part.toList)).2 '.' dot
      contradiction
  | _ => exact dotless

theorem parseAll_eq_ok_iff {parts : List String} {segments : List Segment} :
    parseAll parts = .ok segments ↔ List.Forall₂ Spells parts segments := by
  induction parts generalizing segments with
  | nil => simp [parseAll, eq_comm]
  | cons part rest ih =>
      simp only [parseAll, bind_eq_ok, pure_eq_ok, parse_eq_ok_iff, ih]
      constructor
      · rintro ⟨segment, head, later, tail, rfl⟩
        exact .cons head tail
      · intro spells
        cases spells with
        | cons head tail => exact ⟨_, head, _, tail, rfl⟩

theorem parseAll_append_eq_ok {front back : List String} {segments : List Segment} :
    parseAll (front ++ back) = .ok segments ↔
      ∃ first second, parseAll front = .ok first ∧ parseAll back = .ok second ∧
        segments = first ++ second := by
  induction front generalizing segments with
  | nil => simp [parseAll]
  | cons part rest ih =>
      simp only [List.cons_append, parseAll, bind_eq_ok, pure_eq_ok, ih]
      constructor
      · rintro ⟨segment, head, _, ⟨first, second, front, back, rfl⟩, rfl⟩
        exact ⟨_, second, ⟨segment, head, first, front, rfl⟩, back, rfl⟩
      · rintro ⟨_, second, ⟨segment, head, first, front, rfl⟩, back, rfl⟩
        exact ⟨segment, head, _, ⟨first, second, front, back, rfl⟩, rfl⟩

end Segment

namespace FieldPath

variable {text : String} {path : FieldPath} {parts : List String} {segments : List Segment}

theorem parse_eq_ok_iff :
    parse text = .ok path ↔ List.Forall₂ Segment.Spells (Text.splitDots text) path.segments := by
  rw [← Segment.parseAll_eq_ok_iff]
  refine ⟨parse_parts, fun read => ?_⟩
  have filled : text.isEmpty = false := by
    by_contra empty
    have same : text = "" := by simpa using empty
    rw [same] at read
    contradiction
  simp [parse, filled, read]

theorem parse_iff_parseAll :
    parse text = .ok path ↔ Segment.parseAll (Text.splitDots text) = .ok path.segments := by
  rw [parse_eq_ok_iff, Segment.parseAll_eq_ok_iff]

theorem render_eq_iff_of_spells (spells : List.Forall₂ Segment.Spells parts segments) :
    segments.map Segment.render = parts ↔ ∀ part ∈ parts, ¬ Segment.IsPadded part := by
  induction spells with
  | nil => simp
  | cons head _ ih => simp [head.render_eq_iff, ih]

theorem rendered_of_spells (spells : List.Forall₂ Segment.Spells parts segments) :
    List.Forall₂ Segment.Spells (segments.map Segment.render) segments := by
  induction spells with
  | nil => exact .nil
  | cons head _ ih => exact .cons head.rendered ih

/-- The parts of the text of a path that was read are the texts of its steps. -/
theorem splitDots_render (parsed : parse text = .ok path) :
    Text.splitDots path.render = path.segments.map Segment.render := by
  have filled := segments_ne_nil_of_parse parsed
  have spells := parse_eq_ok_iff.mp parsed
  apply Text.splitDots_joinDots (by simpa using filled)
  intro part member
  obtain ⟨segment, listed, rfl⟩ := List.mem_map.mp member
  obtain ⟨part, stated, spelled⟩ := (Segment.parseAll_eq_ok (parse_parts parsed)).2 segment listed
  have dotless := Text.not_mem_of_mem_splitDots stated
  exact (Segment.parse_eq_ok_iff.mp spelled).render_dotless dotless

theorem eq_splitDots_of_parse {names : List String} (parsed : parse text = .ok (.ofNames names)) :
    names = Text.splitDots text := by
  have spells := parse_eq_ok_iff.mp parsed
  have same : List.Forall₂ Eq (Text.splitDots text) names := by
    refine (List.forall₂_map_right_iff.mp spells).imp ?_
    intro part name spelled
    cases spelled
    rfl
  exact (List.forall₂_eq_eq_eq ▸ same).symm

theorem exists_placeholder_of_dollar (parsed : parse text = .ok path)
    (dollar : Text.startsWithDollar text = true) :
    ∃ form rest, path.segments = .placeholder form :: rest := by
  obtain ⟨part, parts, split, starts⟩ := Text.splitDots_of_dollar dollar
  have spells := parse_eq_ok_iff.mp parsed
  rw [split] at spells
  obtain ⟨segment, rest, head, _, same⟩ := List.forall₂_cons_left_iff.mp spells
  cases head with
  | first | every | filtered _ => exact ⟨_, rest, same⟩
  | index numeral _ =>
      rw [numeral.plain] at starts
      contradiction
  | name _ plain _ =>
      rw [plain] at starts
      contradiction

theorem undollared_of_parse {names : List String} (parsed : parse text = .ok (.ofNames names)) :
    Text.startsWithDollar text = false := by
  by_contra dollar
  obtain ⟨form, rest, same⟩ := exists_placeholder_of_dollar parsed (Bool.not_eq_false _ ▸ dollar)
  obtain ⟨name, others, _, different, _⟩ := List.map_eq_cons_iff.mp same
  contradiction

/-- A text is a path if it is not empty and each of its parts is not empty and starts with a dollar
sign only as a placeholder.  A path has a step for each part, and its text is read as the same
path.  This is the text that was read, unless a number in it was padded with zeros. -/
theorem parse_grammar (text : String) :
    ((∃ path, parse text = .ok path) ↔
      text ≠ "" ∧ ∀ part ∈ Text.splitDots text, part ≠ "" ∧
        (Text.startsWithDollar part = false ∨ part = "$" ∨ part = "$[]" ∨
          ∃ identifier, Text.IsIdentifier identifier ∧ part = "$[" ++ identifier ++ "]")) ∧
    ∀ path, parse text = .ok path →
      path.segments.length = (Text.splitDots text).length ∧
      parse path.render = .ok path ∧
      (path.render = text ↔ ∀ part ∈ Text.splitDots text, ¬ Segment.IsPadded part) := by
  constructor
  · have read : (∃ path, parse text = .ok path) ↔
        ∀ part ∈ Text.splitDots text, ∃ segment, Segment.Spells part segment := by
      rw [← exists_forall₂_iff]
      constructor
      · rintro ⟨path, parsed⟩
        exact ⟨_, parse_eq_ok_iff.mp parsed⟩
      · rintro ⟨segments, spells⟩
        exact ⟨⟨segments⟩, parse_eq_ok_iff.mpr spells⟩
    simp only [read, Segment.exists_spells_iff]
    constructor
    · intro each
      refine ⟨?_, each⟩
      rintro rfl
      exact (each "" (by decide)).1 rfl
    · exact And.right
  · intro path parsed
    have spells := parse_eq_ok_iff.mp parsed
    have split := splitDots_render parsed
    refine ⟨spells.length_eq.symm, ?_, ?_⟩
    · rw [parse_eq_ok_iff, split]
      exact rendered_of_spells spells
    · rw [← render_eq_iff_of_spells spells, ← split]
      constructor
      · intro same
        rw [same]
      · intro same
        rw [← Text.joinDots_splitDots path.render, same, Text.joinDots_splitDots]

theorem parse_grammar_padded :
    ∃ path, parse "rows.007.$[row]" = .ok path ∧ path.segments.length = 3 ∧
      parse path.render = .ok path ∧ path.render ≠ "rows.007.$[row]" := by
  have parts : Text.splitDots "rows.007.$[row]" = ["rows", "007", "$[row]"] := by decide
  have identifier : Text.IsIdentifier "row" := Text.isIdentifier_iff.mp (by decide)
  have padded : Segment.IsPadded "007" :=
    ⟨Segment.isNumeral_iff.mpr (by decide), by decide, by decide, by decide⟩
  obtain ⟨accepted, written⟩ := parse_grammar "rows.007.$[row]"
  rw [parts] at accepted written
  obtain ⟨path, parsed⟩ := accepted.mpr ⟨by decide, by
    simp only [List.forall_mem_cons]
    exact ⟨⟨by decide, .inl (by decide)⟩, ⟨by decide, .inl (by decide)⟩,
      ⟨by decide, .inr (.inr (.inr ⟨"row", identifier, by decide⟩))⟩, by simp⟩⟩
  obtain ⟨length, again, same⟩ := written path parsed
  exact ⟨path, parsed, length, again, fun kept => same.mp kept "007" (by simp) padded⟩

end FieldPath

end DocTyping

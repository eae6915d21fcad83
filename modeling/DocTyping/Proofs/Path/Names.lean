import DocTyping.Pipeline.Arguments
import DocTyping.Proofs.Checked
import DocTyping.Proofs.Schema.NamesFit

namespace DocTyping

/-!
# Names of written paths

A path that stages write to consists of names, and of at least one.  Each is a
part of its text between dots that is neither an index nor a placeholder, so a
schema may declare it.
-/

namespace Text

variable {separator : Char} {chars part : List Char}

theorem separated_ne_nil : separated separator chars ≠ [] := by
  cases chars with
  | nil => simp [separated]
  | cons char rest =>
      unfold separated
      split
      · simp
      · split <;> simp

theorem not_mem_of_mem_separated (member : part ∈ separated separator chars) :
    separator ∉ part := by
  induction chars generalizing part with
  | nil => simp_all [separated]
  | cons char rest ih =>
      unfold separated at member
      split at member
      · rcases List.mem_cons.mp member with rfl | later
        · simp
        · exact ih later
      · rename_i different
        split at member
        · rename_i empty
          exact absurd empty separated_ne_nil
        · rename_i first others parts
          rcases List.mem_cons.mp member with rfl | later
          · have apart := @ih first (by simp [parts])
            simp [Ne.symm different, apart]
          · exact ih (parts ▸ List.mem_cons_of_mem _ later)

theorem not_mem_of_mem_splitDots {text name : String} (member : name ∈ splitDots text) :
    '.' ∉ name.toList := by
  obtain ⟨chars, separated, rfl⟩ := List.mem_map.mp member
  simpa using not_mem_of_mem_separated separated

end Text

namespace Segment

variable {part name : String} {parts : List String} {segments : List Segment}

theorem parseDollar_ne_name {rest : List Char} : parseDollar part rest ≠ .ok (.name name) := by
  unfold parseDollar
  split
  · simp
  · simp
  · dsimp only
    split
    · split <;> simp
    · simp
  · simp

theorem parse_eq_name (parsed : parse part = .ok (.name name)) :
    name = part ∧ part.toList ≠ [] ∧ part.toList.head? ≠ some '$' := by
  unfold parse at parsed
  split at parsed
  · contradiction
  · exact absurd parsed parseDollar_ne_name
  · rename_i filled plain
    split at parsed
    · cases parsed
    · cases parsed
      refine ⟨rfl, filled, fun dollar => ?_⟩
      obtain ⟨rest, stated⟩ := List.head?_eq_some_iff.mp dollar
      exact plain rest stated

theorem parseAll_eq_ok (parsed : parseAll parts = .ok segments) :
    segments.length = parts.length ∧
      ∀ segment ∈ segments, ∃ part ∈ parts, parse part = .ok segment := by
  induction parts generalizing segments with
  | nil =>
      cases parsed
      simp
  | cons part rest ih =>
      simp only [parseAll, bind_eq_ok, pure_eq_ok] at parsed
      obtain ⟨segment, first, later, others, rfl⟩ := parsed
      obtain ⟨length, each⟩ := ih others
      refine ⟨by simp [length], List.forall_mem_cons.mpr ⟨⟨part, by simp, first⟩, ?_⟩⟩
      intro segment member
      obtain ⟨held, listed, reads⟩ := each segment member
      exact ⟨held, List.mem_cons_of_mem _ listed, reads⟩

end Segment

section Parsing

variable {stage text name : String} {path : FieldPath} {names : List String}

theorem FieldPath.parse_parts (parsed : parse text = .ok path) :
    Segment.parseAll (Text.splitDots text) = .ok path.segments := by
  unfold parse at parsed
  split at parsed
  · contradiction
  · split at parsed
    · rename_i segments read
      cases parsed
      exact read
    · contradiction

theorem FieldPath.segments_ne_nil_of_parse (parsed : parse text = .ok path) :
    path.segments ≠ [] := by
  obtain ⟨length, _⟩ := Segment.parseAll_eq_ok (parse_parts parsed)
  intro empty
  rw [empty] at length
  have parts : Text.splitDots text = [] := List.eq_nil_of_length_eq_zero length.symm
  exact Text.separated_ne_nil (List.map_eq_nil_iff.mp parts)

theorem FieldPath.flawless_of_parse (parsed : parse text = .ok path)
    (member : .name name ∈ path.segments) : NameFlaw.of? name = none := by
  obtain ⟨part, listed, reads⟩ := (Segment.parseAll_eq_ok (parse_parts parsed)).2 _ member
  obtain ⟨rfl, filled, plain⟩ := Segment.parse_eq_name reads
  exact NameFlaw.of?_eq_none_iff.mpr ⟨filled, plain, Text.not_mem_of_mem_splitDots listed⟩

theorem nameSegments_eq_ok {segments : List Segment} :
    nameSegments stage text segments = .ok names ↔ segments = names.map .name := by
  induction segments generalizing names with
  | nil => simp [nameSegments, eq_comm]
  | cons segment rest ih =>
      cases segment with
      | name first =>
          simp only [nameSegments, bind_eq_ok, pure_eq_ok, ih]
          constructor
          · rintro ⟨later, rfl, rfl⟩
            rfl
          · intro same
            cases names with
            | nil => contradiction
            | cons head tail =>
                cases same
                exact ⟨tail, rfl, rfl⟩
      | _ =>
          simp only [nameSegments]
          constructor
          · intro refused
            contradiction
          · intro same
            cases names <;> cases same

theorem fieldNames_eq_ok :
    fieldNames stage text = .ok names ↔ FieldPath.parse text = .ok (.ofNames names) := by
  simp only [fieldNames, bind_eq_ok, mapError_eq_ok, nameSegments_eq_ok]
  constructor
  · rintro ⟨path, parsed, same⟩
    rw [parsed, FieldPath.ofNames, ← same]
  · intro parsed
    exact ⟨_, parsed, rfl⟩

theorem fieldNames_ne_nil (read : fieldNames stage text = .ok names) : names ≠ [] := by
  have filled := FieldPath.segments_ne_nil_of_parse (fieldNames_eq_ok.mp read)
  simpa [FieldPath.ofNames] using filled

theorem fieldNames_flawless (read : fieldNames stage text = .ok names) :
    ∀ name ∈ names, NameFlaw.of? name = none := by
  intro name member
  refine FieldPath.flawless_of_parse (fieldNames_eq_ok.mp read) ?_
  exact List.mem_map_of_mem member

theorem checkFieldName_eq_ok {result : Unit} :
    checkFieldName stage name = .ok result ↔ NameFlaw.of? name = none := by
  simp [checkFieldName, demand_eq_ok]

end Parsing

end DocTyping

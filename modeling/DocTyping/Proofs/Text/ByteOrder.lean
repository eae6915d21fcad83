import Mathlib.Data.List.Basic
import Mathlib.Order.Basic

namespace DocTyping.Text

/-!
# Order of texts

Texts are compared by their characters.  That is the order of their UTF-8 bytes: of two characters
the later one has the greater first byte, or the greater one of two that follow equal bytes.
-/

def bytes (text : String) : List UInt8 := text.toUTF8.data.toList

variable {first second : Char} {firsts seconds : List Char} {former latter : List UInt8}

theorem bytes_eq (text : String) : bytes text = text.toList.flatMap String.utf8EncodeChar := by
  have spelled : text.toUTF8 = text.toList.utf8Encode := by
    rw [← String.toByteArray_ofList, String.ofList_toList]
    rfl
  rw [bytes, spelled, List.utf8Encode, List.toList_data_toByteArray]

/-- The codes of characters are in the order of their digits to base 64. -/
theorem digits_lt {code other : Nat} (less : code < other) (bound : other < 1114112) :
    code / 262144 % 8 < other / 262144 % 8 ∨ code / 262144 % 8 = other / 262144 % 8 ∧
      (code / 4096 % 64 < other / 4096 % 64 ∨ code / 4096 % 64 = other / 4096 % 64 ∧
        (code / 64 % 64 < other / 64 % 64 ∨ code / 64 % 64 = other / 64 % 64 ∧
          code % 64 < other % 64)) := by
  have first : ∀ number, number < 1114112 → number / 262144 % 8 = number / 262144 := by omega
  rw [first code (Nat.lt_trans less bound), first other bound]
  omega

/-- A byte is a marker of its place above one digit of a character. -/
theorem marked_byte {digits size marker : Nat} (positive : 0 < size)
    (small : size + marker ≤ 256) : (digits % size + marker) % 256 = digits % size + marker := by
  have bound : digits % size < size := Nat.mod_lt digits positive
  omega

/-- A later character has greater bytes, whatever follows. -/
theorem encode_lt (less : first < second) :
    String.utf8EncodeChar first ++ former < String.utf8EncodeChar second ++ latter := by
  have codes : first.val.toNat < second.val.toNat := less
  have bound : second.val.toNat < 1114112 := by
    rcases second.valid with low | high
    · omega
    · omega
  have digits := digits_lt codes bound
  simp only [String.utf8EncodeChar]
  -- a case for each pair of lengths; between equal lengths the digits to base 64 decide
  split_ifs <;>
    simp (disch := decide) only [List.cons_append, List.nil_append, List.cons_lt_cons_iff,
      UInt8.lt_iff_toNat_lt, ← UInt8.toNat_inj, UInt8.toNat_ofNat', Nat.reducePow, marked_byte] <;>
    omega

theorem flatMap_encode_lt (less : firsts < seconds) :
    firsts.flatMap String.utf8EncodeChar < seconds.flatMap String.utf8EncodeChar := by
  induction firsts generalizing seconds with
  | nil =>
      cases seconds with
      | nil => exact absurd less (List.lt_irrefl [])
      | cons second rest =>
          have filled : String.utf8EncodeChar second ≠ [] := String.utf8EncodeChar_ne_nil
          obtain ⟨byte, others, stated⟩ := List.exists_cons_of_ne_nil filled
          rw [List.flatMap_cons, stated]
          exact List.nil_lt_cons _ _
  | cons first rest ih =>
      cases seconds with
      | nil => exact absurd less (List.not_lt_nil _)
      | cons second others =>
          rw [List.flatMap_cons, List.flatMap_cons]
          rcases List.cons_lt_cons_iff.mp less with earlier | ⟨rfl, later⟩
          · exact encode_lt earlier
          · exact List.append_left_lt (ih later)

/-- Texts are in the order of their UTF-8 bytes. -/
theorem bytes_lt_iff {former latter : String} : bytes former < bytes latter ↔ former < latter := by
  rw [bytes_eq, bytes_eq, String.lt_iff]
  refine ⟨?_, flatMap_encode_lt⟩
  intro ordered
  by_contra reversed
  rcases List.le_iff_lt_or_eq.mp (List.not_lt.mp reversed) with turned | same
  · exact List.lt_asymm ordered (flatMap_encode_lt turned)
  · rw [same] at ordered
    exact List.lt_irrefl _ ordered

end DocTyping.Text

import Mathlib.Tactic.SplitIfs

/-! Texts are ordered as their bytes in UTF-8 are. The code of a lesser character differs from
that of a greater one before either ends, and is less where it does, whatever follows. -/

namespace DistanceField.Text

/-- The bytes of a text. -/
def bytes (text : String) : List UInt8 :=
  text.toUTF8.data.toList

/-- The bytes of one text come before those of another. -/
def ByteBefore (a b : String) : Prop :=
  bytes a < bytes b

theorem bytes_eq (text : String) : bytes text = text.toList.flatMap String.utf8EncodeChar := by
  have encoded : text.toUTF8 = text.toList.utf8Encode := by
    rw [String.toUTF8_eq_toByteArray, ← String.toByteArray_ofList, String.ofList_toList]
  rw [bytes, encoded, List.utf8Encode, List.toList_data_toByteArray]

theorem code_lt (c : Char) : c.val.toNat < 0x110000 := by
  have valid := c.valid
  simp only [UInt32.isValidChar, Nat.isValidChar] at valid
  omega

theorem encode_append_lt {c d : Char} (below : c < d) (x y : List UInt8) :
    String.utf8EncodeChar c ++ x < String.utf8EncodeChar d ++ y := by
  have less : c.val.toNat < d.val.toNat := below
  have range := code_lt d
  simp only [String.utf8EncodeChar]
  generalize c.val.toNat = m at less ⊢
  generalize d.val.toNat = n at less range ⊢
  -- The leading digits of a code to the base 64 are what its last digits leave.
  have middle : ∀ code, code / 64 / 64 = code / 4096 :=
    fun code => Nat.div_div_eq_div_mul code 64 64
  have upper : ∀ code, code / 4096 / 64 = code / 262144 :=
    fun code => Nat.div_div_eq_div_mul code 4096 64
  have quotients := And.intro (middle m) (middle n)
  have leading := And.intro (upper m) (upper n)
  clear middle upper
  split_ifs <;>
    simp (disch := omega) only [List.cons_append, List.nil_append, List.cons_lt_cons_iff,
      UInt8.lt_iff_toNat_lt, ← UInt8.toNat_inj, UInt8.toNat_ofNat', Nat.reducePow,
      Nat.mod_eq_of_lt]
  all_goals omega

theorem append_lt_append_iff (shared x y : List UInt8) :
    shared ++ x < shared ++ y ↔ x < y := by
  induction shared with
  | nil => rfl
  | cons byte rest ih => simp [ih]

theorem encode_lt {a b : List Char} (below : a < b) :
    a.flatMap String.utf8EncodeChar < b.flatMap String.utf8EncodeChar := by
  induction a generalizing b with
  | nil =>
      cases b with
      | nil => cases below
      | cons d more =>
          have some := String.utf8EncodeChar_ne_nil (c := d)
          obtain ⟨byte, others, code⟩ := List.exists_cons_of_ne_nil some
          rw [List.flatMap_cons, code]
          exact List.nil_lt_cons byte _
  | cons c rest ih =>
      cases b with
      | nil => cases below
      | cons d more =>
          rw [List.flatMap_cons, List.flatMap_cons]
          rcases List.cons_lt_cons_iff.mp below with less | ⟨rfl, less⟩
          · exact encode_append_lt less _ _
          · exact (append_lt_append_iff _ _ _).mpr (ih less)

theorem byteBefore_of_lt {a b : String} (below : a < b) : ByteBefore a b := by
  rw [ByteBefore, bytes_eq, bytes_eq]
  exact encode_lt (String.lt_iff.mp below)

/-- The two orders agree. -/
theorem byteBefore_iff_lt {a b : String} : ByteBefore a b ↔ a < b := by
  refine ⟨fun before => ?_, byteBefore_of_lt⟩
  by_cases below : a < b
  · exact below
  · by_cases above : b < a
    · exact absurd before (List.lt_asymm (byteBefore_of_lt above))
    · have same := String.le_antisymm (String.not_lt.mp above) (String.not_lt.mp below)
      exact absurd (same ▸ before) (List.lt_irrefl _)

end DistanceField.Text

import Mathlib.Order.Nat
import DeadCode.Copy

/-!
Stretches of a source text between two boundaries of characters. Such a stretch decodes to its text
(`decode_slice`), and the texts of stretches that meet join (`textAt_append`).
-/

namespace DeadCode.Outline

/-- An offset at which a character of the source starts, or its end. -/
def Boundary (source : String) (offset : Nat) : Prop := String.Pos.Raw.IsValid source ⟨offset⟩

instance (source : String) (offset : Nat) : Decidable (Boundary source offset) :=
  inferInstanceAs (Decidable (String.Pos.Raw.IsValid source ⟨offset⟩))

variable {source : String} {i j k : Nat}

theorem boundary_iff :
    Boundary source i ↔ ∃ before behind, source = before ++ behind ∧ before.utf8ByteSize = i := by
  rw [Boundary, String.Pos.Raw.isValid_iff_exists_append]
  refine exists_congr fun before => exists_congr fun behind => and_congr_right fun _ => ?_
  rw [String.Pos.Raw.ext_iff]
  exact eq_comm

theorem boundary_zero (source : String) : Boundary source 0 :=
  boundary_iff.mpr ⟨"", source, by simp, by simp⟩

theorem boundary_size (source : String) : Boundary source source.toUTF8.size :=
  boundary_iff.mpr ⟨source, "", by simp, by simp [String.toUTF8]⟩

theorem Boundary.le_size (h : Boundary source i) : i ≤ source.toUTF8.size := by
  obtain ⟨before, behind, rfl, rfl⟩ := boundary_iff.mp h
  simp [String.toUTF8]

/-- Two boundaries cut a text in three. -/
theorem Boundary.cut (hi : Boundary source i) (hj : Boundary source j) (hij : i ≤ j) :
    ∃ before inside behind, source = before ++ inside ++ behind ∧ before.utf8ByteSize = i ∧
      i + inside.utf8ByteSize = j := by
  obtain ⟨a, b, hab, rfl⟩ := boundary_iff.mp hi
  obtain ⟨c, d, hcd, rfl⟩ := boundary_iff.mp hj
  have hlist : a.toList ++ b.toList = c.toList ++ d.toList := by
    rw [← String.toList_append, ← String.toList_append, ← hab, hcd]
  rcases List.append_eq_append_iff.mp hlist with ⟨inside, hc, _⟩ | ⟨rest, ha, _⟩
  · have hc : c = a ++ String.ofList inside := by
      rw [← String.toList_inj, String.toList_append, String.toList_ofList, hc]
    refine ⟨a, String.ofList inside, d, by rw [hcd, hc], rfl, ?_⟩
    rw [hc, String.utf8ByteSize_append]
  · have ha : a = c ++ String.ofList rest := by
      rw [← String.toList_inj, String.toList_append, String.toList_ofList, ha]
    have hsize : a.utf8ByteSize = c.utf8ByteSize + (String.ofList rest).utf8ByteSize := by
      rw [ha, String.utf8ByteSize_append]
    exact ⟨a, "", b, by simpa using hab, rfl, by simp; omega⟩

/-- The stretch between two boundaries is the code of a text. -/
theorem Boundary.exists_slice (hi : Boundary source i) (hj : Boundary source j) (hij : i ≤ j) :
    ∃ inside : String, slice source.toUTF8 (i, j) = inside.toUTF8 := by
  obtain ⟨before, inside, behind, rfl, rfl, rfl⟩ := hi.cut hj hij
  refine ⟨inside, ?_⟩
  rw [slice, String.toUTF8, String.toUTF8, String.append_assoc, String.toByteArray_append,
    String.toByteArray_append, ByteArray.extract_append, String.size_toByteArray, Nat.sub_self,
    Nat.add_sub_cancel_left, ByteArray.extract_append_eq_left (by rw [String.size_toByteArray])]
  refine ByteArray.ext ?_
  simp [ByteArray.data_extract]

theorem fromUTF8?_toUTF8 (s : String) : String.fromUTF8? s.toUTF8 = some s := by
  rw [String.fromUTF8?, String.toUTF8_eq_toByteArray, dif_pos s.isValidUTF8]
  rfl

theorem decode_slice (hi : Boundary source i) (hj : Boundary source j) (hij : i ≤ j) :
    Text.Utf8.decode (slice source.toUTF8 (i, j)) = .ok (textAt source.toUTF8 i j) := by
  obtain ⟨inside, hslice⟩ := hi.exists_slice hj hij
  rw [Text.Utf8.decode, textAt, hslice, fromUTF8?_toUTF8]
  rfl

theorem toUTF8_textAt (hi : Boundary source i) (hj : Boundary source j) (hij : i ≤ j) :
    (textAt source.toUTF8 i j).toUTF8 = slice source.toUTF8 (i, j) := by
  obtain ⟨inside, hslice⟩ := hi.exists_slice hj hij
  rw [textAt, hslice, fromUTF8?_toUTF8]
  rfl

/-- Stretches that meet. -/
theorem textAt_append (hi : Boundary source i) (hj : Boundary source j) (hk : Boundary source k)
    (hij : i ≤ j) (hjk : j ≤ k) :
    textAt source.toUTF8 i j ++ textAt source.toUTF8 j k = textAt source.toUTF8 i k := by
  refine String.toByteArray_inj.mp ?_
  have hbytes : ∀ {a b}, Boundary source a → Boundary source b → a ≤ b →
      (textAt source.toUTF8 a b).toByteArray = source.toUTF8.extract a b := fun ha hb hab =>
    toUTF8_textAt ha hb hab
  rw [String.toByteArray_append, hbytes hi hj hij, hbytes hj hk hjk, hbytes hi hk (hij.trans hjk)]
  exact (ByteArray.extract_eq_extract_append_extract j hij hjk).symm

theorem textAt_self (bytes : ByteArray) (i : Nat) : textAt bytes i i = "" := by
  have hslice : slice bytes (i, i) = ("" : String).toUTF8 := by
    refine ByteArray.ext ?_
    simp [slice, String.toUTF8]
  rw [textAt, hslice, fromUTF8?_toUTF8]
  rfl

/-- Only a stretch without length has no text. -/
theorem eq_of_textAt_eq_empty (hi : Boundary source i) (hj : Boundary source j) (hij : i ≤ j)
    (h : textAt source.toUTF8 i j = "") : i = j := by
  have hsize := congrArg ByteArray.size (toUTF8_textAt hi hj hij)
  rw [h, slice, ByteArray.size_extract] at hsize
  have hle := hj.le_size
  change 0 = min j source.toUTF8.size - i at hsize
  omega

theorem textAt_all (source : String) : textAt source.toUTF8 0 source.toUTF8.size = source := by
  rw [textAt, slice, ByteArray.extract_zero_size, fromUTF8?_toUTF8]
  rfl

end DeadCode.Outline

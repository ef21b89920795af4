import Mathlib.Order.Basic

/-!
# Texts byte by byte

A database compares texts by the bytes of their UTF-8. This is the order of the texts themselves,
character by character (`Text.bytes_lt_iff`): of two characters the lesser one is encoded in as many
bytes or in fewer, the first byte grows with the number of bytes, and the bytes of one number are
its digits in base 64. So the bytes of a character are never the beginning of those of another one,
and the first characters that differ decide (`Text.encode_lt`).
-/

namespace Bom.Text

/-- The bytes of a text in UTF-8. -/
def bytes (s : String) : List UInt8 := s.toByteArray.data.toList

theorem bytes_eq (s : String) : bytes s = s.toList.flatMap String.utf8EncodeChar := by
  have hencoded : (String.ofList s.toList).toByteArray = s.toList.utf8Encode :=
    String.toByteArray_ofList
  rw [String.ofList_toList] at hencoded
  unfold bytes
  rw [hencoded]
  unfold List.utf8Encode
  simp

/-- Different texts have different bytes. -/
theorem bytes_inj {s t : String} : bytes s = bytes t ↔ s = t := by
  refine ⟨fun h => String.toByteArray_inj.1 (ByteArray.ext (Array.toList_inj.1 h)), ?_⟩
  rintro rfl
  rfl

/-! ## Characters -/

theorem byte_lt_iff {m n : Nat} (hm : m < 256) (hn : n < 256) :
    UInt8.ofNat m < UInt8.ofNat n ↔ m < n := by
  rw [UInt8.lt_iff_toNat_lt, UInt8.toNat_ofNat', UInt8.toNat_ofNat']
  omega

theorem byte_inj {m n : Nat} (hm : m < 256) (hn : n < 256) :
    UInt8.ofNat m = UInt8.ofNat n ↔ m = n := by
  rw [← UInt8.toNat_inj, UInt8.toNat_ofNat', UInt8.toNat_ofNat']
  omega

/-- The lesser character comes first, whatever follows it. -/
theorem encode_lt {c d : Char} (h : c < d) (xs ys : List UInt8) :
    String.utf8EncodeChar c ++ xs < String.utf8EncodeChar d ++ ys := by
  have hlt : c.val.toNat < d.val.toNat := h
  have hvalid : d.val.toNat < 1114112 := by
    rcases d.valid with hd | ⟨-, hd⟩ <;> omega
  unfold String.utf8EncodeChar
  generalize c.val.toNat = m at hlt ⊢
  generalize d.val.toNat = n at hlt hvalid ⊢
  -- numbers are compared by their digits in base 64, from the first to the last
  have hdigits (a b : Nat) : a < b ↔ a / 64 < b / 64 ∨ a / 64 = b / 64 ∧ a % 64 < b % 64 := by
    omega
  have hplaces (v : Nat) : v / 4096 = v / 64 / 64 ∧ v / 262144 = v / 64 / 64 / 64 := by omega
  have hlt' := hlt
  rw [hdigits m n, hdigits (m / 64), hdigits (m / 64 / 64)] at hlt'
  dsimp only
  simp only [hplaces]
  split_ifs <;> simp (disch := omega) only [List.cons_append, List.nil_append,
    List.cons_lt_cons_iff, byte_lt_iff, byte_inj] <;> omega

/-! ## Texts -/

theorem append_lt_append_iff (xs ys zs : List UInt8) : xs ++ ys < xs ++ zs ↔ ys < zs := by
  induction xs with
  | nil => rfl
  | cons x xs ih => simp [ih]

/-- Where the first characters are the same, what follows them decides, and otherwise they do. -/
theorem flatMap_encode_lt_iff (cs ds : List Char) :
    cs.flatMap String.utf8EncodeChar < ds.flatMap String.utf8EncodeChar ↔ cs < ds := by
  induction cs generalizing ds with
  | nil =>
    cases ds with
    | nil => simp
    | cons d ds =>
      have hsome : 0 < (String.utf8EncodeChar d).length := by
        rw [String.length_utf8EncodeChar]
        exact d.utf8Size_pos
      obtain ⟨b, bs, hbytes⟩ := List.exists_cons_of_length_pos hsome
      rw [List.flatMap_cons, hbytes]
      simp
  | cons c cs ih =>
    cases ds with
    | nil => simp
    | cons d ds =>
      rw [List.flatMap_cons, List.flatMap_cons, List.cons_lt_cons_iff]
      rcases Nat.lt_trichotomy c.val.toNat d.val.toNat with hlt | heq | hgt
      · exact iff_of_true (encode_lt hlt _ _) (.inl hlt)
      · obtain rfl : c = d := Char.ext (UInt32.toNat_inj.1 heq)
        simp only [append_lt_append_iff, ih, Char.lt_irrefl, false_or, true_and]
      · refine iff_of_false (fun hlt => List.lt_asymm hlt (encode_lt hgt _ _)) ?_
        rintro (hlt | ⟨rfl, -⟩)
        · exact Nat.lt_asymm hgt hlt
        · exact Nat.lt_irrefl _ hgt

/-- Byte by byte, texts are ordered like themselves. -/
theorem bytes_lt_iff {s t : String} : bytes s < bytes t ↔ s < t := by
  rw [bytes_eq, bytes_eq, flatMap_encode_lt_iff, String.lt_iff]

theorem bytes_le_iff {s t : String} : bytes s ≤ bytes t ↔ s ≤ t := by
  change ¬ bytes t < bytes s ↔ ¬ t < s
  rw [bytes_lt_iff]

end Bom.Text

import HttpSuite.Lexer

/-!
# Characters as the lexer meets them

The lexer reads the UTF-8 bytes of a text. An ASCII character is one byte, below `0x80`; all bytes of
any other character lie above that, so no part of it is taken for a quote, a backslash or a blank.

* `ofText_eq`: the reads of a text.
* `bytesOf_cons`: an ASCII character is read as itself.
* `ofBytes_bytesOf`: bytes that were gathered from characters make up their text again.
-/

namespace HttpSuite

/-- The UTF-8 bytes of characters. -/
def bytesOf (cs : List Char) : List UInt8 := cs.flatMap String.utf8EncodeChar

/-- A character of one byte. -/
def IsAscii (c : Char) : Prop := c.toNat < 128

instance (c : Char) : Decidable (IsAscii c) := inferInstanceAs (Decidable (_ < _))

/-- What holds of the first 128 characters, checked one by one, holds of every ASCII character. -/
theorem IsAscii.check {c : Char} (hc : IsAscii c) {P : Char → Prop}
    (first : ∀ n < 128, P (Char.ofNat n)) : P c :=
  Char.ofNat_toNat c ▸ first c.toNat hc

theorem ofUInt8_toUInt8 {c : Char} (hc : IsAscii c) : Char.ofUInt8 c.toUInt8 = c :=
  hc.check (P := fun c => Char.ofUInt8 c.toUInt8 = c) (by decide +kernel)

theorem utf8EncodeChar_of_isAscii {c : Char} (hc : IsAscii c) :
    String.utf8EncodeChar c = [c.toUInt8] :=
  hc.check (P := fun c => String.utf8EncodeChar c = [c.toUInt8]) (by decide +kernel)

/-- The bytes of a character that is not ASCII are not ASCII. -/
theorem le_of_mem_utf8EncodeChar {c : Char} (hc : ¬ IsAscii c) {b : UInt8}
    (hb : b ∈ String.utf8EncodeChar c) : 128 ≤ b.toNat := by
  have large : ¬ c.val.toNat ≤ 0x7f := fun le => hc (Nat.lt_succ_of_le le)
  unfold String.utf8EncodeChar at hb
  simp only [large, if_false] at hb
  split at hb
  · simp only [List.mem_cons, List.not_mem_nil, or_false] at hb
    rcases hb with rfl | rfl <;> simp only [UInt8.toNat_ofNat'] <;> omega
  · split at hb
    · simp only [List.mem_cons, List.not_mem_nil, or_false] at hb
      rcases hb with rfl | rfl | rfl <;> simp only [UInt8.toNat_ofNat'] <;> omega
    · simp only [List.mem_cons, List.not_mem_nil, or_false] at hb
      rcases hb with rfl | rfl | rfl | rfl <;> simp only [UInt8.toNat_ofNat'] <;> omega

/-! ## Texts -/

@[simp] theorem bytesOf_nil : bytesOf [] = [] := rfl

@[simp] theorem bytesOf_append (cs ds : List Char) : bytesOf (cs ++ ds) = bytesOf cs ++ bytesOf ds :=
  List.flatMap_append

theorem bytesOf_cons {c : Char} (hc : IsAscii c) (cs : List Char) :
    bytesOf (c :: cs) = c.toUInt8 :: bytesOf cs := by
  rw [bytesOf, List.flatMap_cons, utf8EncodeChar_of_isAscii hc]
  rfl

theorem data_toByteArray (text : String) : text.toByteArray.data.toList = bytesOf text.toList := by
  have chars : text.toByteArray = text.toList.utf8Encode := by
    rw [← String.toByteArray_ofList, String.ofList_toList]
  rw [chars, List.utf8Encode, List.data_toByteArray]
  rfl

/-- The reads of a text are those of its characters. -/
theorem ofText_eq (text : String) : Read.ofText text = (bytesOf text.toList).map .byte := by
  rw [Read.ofText, Read.ofBytes, data_toByteArray]

/-- Bytes that were gathered from characters, backwards, make up their text again. -/
theorem ofBytes_bytesOf (kind : TokenKind) (cs : List Char) :
    Verdict.ofBytes kind (bytesOf cs).reverse = .ok (kind, String.ofList cs) := by
  have valid : (bytesOf cs).toByteArray.IsValidUTF8 := ⟨cs, rfl⟩
  have text : String.fromUTF8? (bytesOf cs).toByteArray = some (String.ofList cs) := by
    rw [String.fromUTF8?, dif_pos valid]
    rfl
  rw [Verdict.ofBytes, List.reverse_reverse, text]

end HttpSuite

/-
Which texts have bytes.

A text has bytes just if no half of a surrogate pair stands in it on its own.  So every text of
characters has them, and a digest, and a key to look for its results by.
-/
import SourceView.Digest.Algorithm
import Mathlib.Data.List.Basic

namespace SourceView

/-! ### Bytes -/

namespace Digest

theorem toList_loop (bytes : ByteArray) (i : Nat) (found : List UInt8) :
    ByteArray.toList.loop bytes i found = found.reverse ++ bytes.data.toList.drop i := by
  induction i, found using ByteArray.toList.loop.induct bytes with
  | case1 i found hi ih =>
      have hsize : i < bytes.data.toList.length := hi
      rw [ByteArray.toList.loop, if_pos hi, ih, List.drop_eq_getElem_cons hsize, List.reverse_cons,
        List.append_assoc, List.singleton_append]
      congr 2
      exact getElem!_pos bytes.data i hi
  | case2 i found hi =>
      have hsize : bytes.data.toList.length ≤ i := Nat.le_of_not_lt hi
      rw [ByteArray.toList.loop, if_neg hi, List.drop_of_length_le hsize, List.append_nil]

theorem toList_eq (bytes : ByteArray) : bytes.toList = bytes.data.toList :=
  toList_loop bytes 0 []

/-- The bytes of a text are those of its characters. -/
theorem textBytes_eq (text : String) :
    textBytes text = text.toList.flatMap fun c => (String.utf8EncodeChar c).map UInt8.toNat := by
  have hbytes : text.toUTF8.data.toList = text.toList.flatMap String.utf8EncodeChar := by
    conv => lhs; rw [← String.ofList_toList (s := text)]
    exact congrArg Array.toList List.data_toByteArray
  rw [textBytes, toList_eq, hbytes, List.map_flatMap]

/-- No two texts have the same bytes. -/
theorem textBytes_inj {s t : String} : textBytes s = textBytes t ↔ s = t := by
  refine ⟨fun h => ?_, congrArg textBytes⟩
  have hlist : s.toUTF8.toList = t.toUTF8.toList :=
    List.map_injective_iff.mpr (fun _ _ => UInt8.toNat_inj.mp) h
  rw [toList_eq, toList_eq] at hlist
  have hbytes : s.toUTF8 = t.toUTF8 := ByteArray.ext (Array.toList_inj.mp hlist)
  exact String.toByteArray_inj.mp hbytes

end Digest

/-! ### Code points -/

namespace Text

theorem encodeFrom_char (position : Nat) (c : Char) (rest : List CodePoint) :
    encodeFrom position (.char c :: rest)
      = (encodeFrom (position + 1) rest).map ((String.utf8EncodeChar c).map UInt8.toNat ++ ·) := by
  rw [encodeFrom]
  cases encodeFrom (position + 1) rest <;> rfl

theorem encodeFrom_chars (position : Nat) (chars : List Char) :
    encodeFrom position (chars.map .char)
      = .ok (chars.flatMap fun c => (String.utf8EncodeChar c).map UInt8.toNat) := by
  induction chars generalizing position with
  | nil => rfl
  | cons c chars ih => rw [List.map_cons, encodeFrom_char, ih, List.flatMap_cons]; rfl

/-- **A text of characters has bytes.** -/
theorem encode_codePoints (text : String) : encode (codePoints text) = .ok (Digest.textBytes text) := by
  rw [encode, codePoints, encodeFrom_chars, Digest.textBytes_eq]

/-- **A text has no bytes just if half of a surrogate pair stands in it on its own.** -/
theorem encodeFrom_eq_error_iff (position : Nat) (codes : List CodePoint) :
    (∃ failure, encodeFrom position codes = .error failure)
      ↔ ∃ half, CodePoint.surrogate half ∈ codes := by
  induction codes generalizing position with
  | nil => simp [encodeFrom]
  | cons code rest ih =>
      cases code with
      | surrogate half => exact ⟨fun _ => ⟨half, List.mem_cons_self⟩, fun _ => ⟨_, rfl⟩⟩
      | char c =>
          have hrest : (∃ half, CodePoint.surrogate half ∈ .char c :: rest)
              ↔ ∃ half, CodePoint.surrogate half ∈ rest := by simp
          rw [encodeFrom_char, hrest, ← ih (position + 1)]
          cases encodeFrom (position + 1) rest with
          | ok bytes => simp [Except.map]
          | error failure => simp [Except.map]

end Text

namespace Digest

/-- A text of characters has a digest. -/
theorem contentHash_codePoints (text : String) :
    contentHash (Text.codePoints text) = .ok (ofText .sha256 text none) := by
  rw [contentHash, ofCodePoints, Text.encode_codePoints]
  rfl

/-- A text has no digest where half of a surrogate pair stands on its own. -/
theorem contentHash_eq_error_iff (codes : List CodePoint) :
    (∃ failure, contentHash codes = .error failure)
      ↔ ∃ half, CodePoint.surrogate half ∈ codes := by
  rw [← Text.encodeFrom_eq_error_iff 0, contentHash, ofCodePoints, Text.encode]
  cases Text.encodeFrom 0 codes with
  | ok message => simp [bind, Except.bind, pure, Except.pure]
  | error failure => exact ⟨fun _ => ⟨failure, rfl⟩, fun _ => ⟨failure, rfl⟩⟩

end Digest

end SourceView

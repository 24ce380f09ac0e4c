import Mathlib.Data.String.Basic
import Mathlib.Tactic.SplitIfs

/-!
# Texts in the order of their bytes

Texts are ordered by their characters. Their encodings have the same order byte by byte
(`bytes_lt_bytes`): the more bytes a character has, the greater the first of them, and characters
of one length are ordered by the bits in their bytes from left to right (`utf8EncodeChar_lt`).
-/

namespace Fieldmark

/-- The bytes of a text. -/
def bytes (text : String) : List UInt8 := text.toUTF8.data.toList

theorem bytes_eq (text : String) : bytes text = text.toList.flatMap String.utf8EncodeChar := by
  have encoded : text.toUTF8 = text.toList.utf8Encode := String.utf8Encode_toList.symm
  rw [bytes, encoded]
  simp [List.utf8Encode]

theorem ofNat_lt_ofNat_iff {m n : Nat} (small : m < 256) (small' : n < 256) :
    UInt8.ofNat m < UInt8.ofNat n ↔ m < n := by
  rw [UInt8.lt_iff_toNat_lt, UInt8.toNat_ofNat', UInt8.toNat_ofNat', Nat.mod_eq_of_lt small,
    Nat.mod_eq_of_lt small']

theorem ofNat_eq_ofNat_iff {m n : Nat} (small : m < 256) (small' : n < 256) :
    UInt8.ofNat m = UInt8.ofNat n ↔ m = n := by
  rw [← UInt8.toNat_inj, UInt8.toNat_ofNat', UInt8.toNat_ofNat', Nat.mod_eq_of_lt small,
    Nat.mod_eq_of_lt small']

/-- A lesser character has the lesser encoding, whatever follows either. -/
theorem utf8EncodeChar_lt {c d : Char} (lt : c < d) (a b : List UInt8) :
    String.utf8EncodeChar c ++ a < String.utf8EncodeChar d ++ b := by
  have lt : c.val.toNat < d.val.toNat := lt
  have bound : d.val.toNat < 0x110000 := by
    rcases d.valid with low | ⟨_, high⟩
    · exact Nat.lt_trans low (by decide)
    · exact high
  unfold String.utf8EncodeChar
  generalize c.val.toNat = m at lt
  generalize d.val.toNat = n at lt bound
  -- bits are cut off six at a time
  have twelve (k : Nat) : k / 4096 = k / 64 / 64 := by omega
  have eighteen (k : Nat) : k / 262144 = k / 64 / 64 / 64 := by omega
  simp only [twelve, eighteen]
  split_ifs <;>
    simp (disch := omega) only [List.cons_append, List.nil_append, List.cons_lt_cons_iff,
      ofNat_lt_ofNat_iff, ofNat_eq_ofNat_iff] <;>
    omega

theorem bytes_lt_bytes {s t : String} (lt : s < t) : bytes s < bytes t := by
  rw [String.lt_iff_toList_lt] at lt
  rw [bytes_eq, bytes_eq]
  generalize s.toList = a at lt
  generalize t.toList = b at lt
  induction lt with
  | @nil c b =>
    obtain ⟨first, rest, whole⟩ := List.exists_cons_of_ne_nil (String.utf8EncodeChar_ne_nil (c := c))
    rw [List.flatMap_cons, whole]
    exact .nil
  | @cons c a b _ ih => exact List.append_left_lt ih
  | rel lt => exact utf8EncodeChar_lt lt _ _

end Fieldmark

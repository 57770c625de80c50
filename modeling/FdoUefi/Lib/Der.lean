import FdoUefi.Lib.Bytes
import Mathlib.Data.Nat.Log

/-!
# DER

An element is a tag of one byte, the length of its content and the content: bytes, or elements one after the other. The length
has the definite form, in as few bytes as there are.
-/

namespace Prog

/-- The length of a content: below 128 one byte, and else the number of bytes of the length and these. -/
def derLength (n : Nat) : Bytes :=
  if n < 128 then [UInt8.ofNat n]
  else
    let count := Nat.log 256 n + 1
    UInt8.ofNat (0x80 + count) :: beBytes count n

/-- What stands before a content of `n` bytes. -/
def derHeader (tag : UInt8) (n : Nat) : Bytes := tag :: derLength n

/-- An element. -/
inductive Der where
  | prim (tag : UInt8) (content : Bytes)
  | node (tag : UInt8) (elements : List Der)

mutual

/-- The bytes of an element. -/
def Der.encode : Der → Bytes
  | .prim tag content => derHeader tag content.length ++ content
  | .node tag elements => derHeader tag (Der.encodeAll elements).length ++ Der.encodeAll elements

/-- The bytes of elements one after the other. -/
def Der.encodeAll : List Der → Bytes
  | [] => []
  | e :: es => e.encode ++ Der.encodeAll es

end

/-! ## Lengths -/

/-- A length below 128 is one byte. -/
theorem derLength_of_lt_128 {n : Nat} (h : n < 128) : derLength n = [UInt8.ofNat n] := if_pos h

/-- A length below 256 is two bytes. -/
theorem derLength_of_lt_256 {n : Nat} (h : 128 ≤ n) (h' : n < 256) : derLength n = [0x81, UInt8.ofNat n] := by
  have hlog : Nat.log 256 n = 0 := Nat.log_of_lt h'
  rw [derLength, if_neg (by omega), hlog]
  rfl

/-- A length below 2^16 is three bytes. -/
theorem derLength_of_lt_65536 {n : Nat} (h : 256 ≤ n) (h' : n < 65536) :
    derLength n = [0x82, UInt8.ofNat (n >>> 8), UInt8.ofNat n] := by
  have hlog : Nat.log 256 n = 1 := (Nat.log_eq_iff (by omega)).2 ⟨by omega, by omega⟩
  rw [derLength, if_neg (by omega), hlog]
  rfl

/-- A header with a short length has two bytes. -/
theorem derHeader_length_of_lt_128 (tag : UInt8) {n : Nat} (h : n < 128) : (derHeader tag n).length = 2 := by
  rw [derHeader, derLength_of_lt_128 h]
  rfl

/-- A header has a byte for the tag and one for the length. -/
theorem two_le_derHeader_length (tag : UInt8) (n : Nat) : 2 ≤ (derHeader tag n).length := by
  unfold derHeader derLength
  split <;> simp

/-- From 128 on one byte is too few for the length. -/
theorem three_le_derHeader_length (tag : UInt8) {n : Nat} (h : 128 ≤ n) : 3 ≤ (derHeader tag n).length := by
  rw [derHeader, derLength, if_neg (by omega)]
  simp

/-- From 256 on two bytes are too few for the length. -/
theorem four_le_derHeader_length (tag : UInt8) {n : Nat} (h : 256 ≤ n) : 4 ≤ (derHeader tag n).length := by
  have hlog : 1 ≤ Nat.log 256 n := Nat.log_pos (by omega) h
  rw [derHeader, derLength, if_neg (by omega)]
  simp only [List.length_cons, beBytes_length]
  omega

namespace Der

/-- A primitive element is its content behind a header. -/
@[simp] theorem encode_prim (tag : UInt8) (content : Bytes) :
    (prim tag content).encode = derHeader tag content.length ++ content := by rw [encode]

/-- A constructed element is its elements behind a header. -/
@[simp] theorem encode_node (tag : UInt8) (elements : List Der) :
    (node tag elements).encode = derHeader tag (encodeAll elements).length ++ encodeAll elements := by rw [encode]

/-- No elements have no bytes. -/
@[simp] theorem encodeAll_nil : encodeAll [] = [] := by rw [encodeAll]

/-- Elements are written one after the other. -/
@[simp] theorem encodeAll_cons (e : Der) (es : List Der) : encodeAll (e :: es) = e.encode ++ encodeAll es := by
  rw [encodeAll]

end Der

end Prog

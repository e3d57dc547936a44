import CssPrune.Text.Basic

/-!
# UTF-8

Bytes are decoded to text, or refused with the first byte that starts no character.
-/

namespace CssPrune.Text

/-- Decodes the bytes from `start` on; `done` holds the characters before it, the last one
first. -/
def decodeFrom (bytes : ByteArray) (start : Nat) (done : Text) : Except UInt8 Text :=
  if h : start < bytes.size then
    match bytes.utf8DecodeChar? start with
    | some c => decodeFrom bytes (start + c.utf8Size) (c :: done)
    | none => .error bytes[start]
  else
    .ok done.reverse
termination_by bytes.size - start
decreasing_by
  have := c.utf8Size_pos
  omega

/-- The text that the bytes encode, or the byte at the first offset where they stop being
UTF-8. -/
def decode (bytes : ByteArray) : Except UInt8 Text :=
  decodeFrom bytes 0 []

/-- The UTF-8 form of a text. -/
def encode (text : Text) : ByteArray :=
  (String.ofList text).toUTF8

end CssPrune.Text

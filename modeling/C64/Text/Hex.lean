/-!
# Numbers in hexadecimal text

Addresses, registers and cycle counts are written in hexadecimal, either as short as
possible or padded with zeros to a fixed number of digits.
-/

namespace C64.Text

/-- The digits of `n` in base sixteen with small letters, as few as possible. -/
def hexLower (n : Nat) : String :=
  String.ofList (Nat.toDigits 16 n)

/-- The digits of `n` in base sixteen with capital letters, as few as possible. -/
def hexUpper (n : Nat) : String :=
  String.ofList ((Nat.toDigits 16 n).map Char.toUpper)

/-- `text` with zeros in front until it has at least `width` characters. -/
def zeroPad (width : Nat) (text : String) : String :=
  String.ofList (List.replicate (width - text.length) '0') ++ text

/-- `n` behind the mark `0x`, in capital digits padded to `width` of them. -/
def hexMarked (width n : Nat) : String :=
  "0x" ++ zeroPad width (hexUpper n)

/-- A byte as two small hexadecimal digits. -/
def byteHex (b : UInt8) : String :=
  zeroPad 2 (hexLower b.toNat)

/-- Bytes one after another. -/
def bytesHex (bytes : List UInt8) : String :=
  bytes.foldl (fun text b => text ++ byteHex b) ""

/-- A word as four capital hexadecimal digits. -/
def word (w : UInt16) : String :=
  zeroPad 4 (hexUpper w.toNat)

end C64.Text

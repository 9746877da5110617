import SharedClipboard.Bytes

/-!
# Base64

Bytes as text in the standard alphabet, padded with `=` to whole groups of four characters.
-/

namespace SharedClipboard.Text.Base64

/-- The character of a six-bit value. -/
def symbol (n : Nat) : Char :=
  if n < 26 then Char.ofNat (65 + n)
  else if n < 52 then Char.ofNat (97 + (n - 26))
  else if n < 62 then Char.ofNat (48 + (n - 52))
  else if n = 62 then '+'
  else '/'

/-- Three bytes are four characters; one or two left over are filled up with `=`. -/
def encodeChars : Bytes → List Char
  | a :: b :: c :: rest =>
    let n := (a.toNat * 256 + b.toNat) * 256 + c.toNat
    symbol (n / 2 ^ 18) :: symbol (n / 2 ^ 12 % 64) :: symbol (n / 64 % 64) :: symbol (n % 64)
      :: encodeChars rest
  | [a, b] =>
    let n := (a.toNat * 256 + b.toNat) * 4
    [symbol (n / 2 ^ 12), symbol (n / 64 % 64), symbol (n % 64), '=']
  | [a] =>
    let n := a.toNat * 16
    [symbol (n / 64), symbol (n % 64), '=', '=']
  | [] => []

def encode (b : Bytes) : String := String.ofList (encodeChars b)

example : encodeChars [0x66, 0x6f] = ['Z', 'm', '8', '='] := by decide

end SharedClipboard.Text.Base64

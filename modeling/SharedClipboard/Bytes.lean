/-!
# Byte strings

A byte string is a list of bytes. The only number that the wire format and the content digest
write is a length, in four bytes with the most significant first; `Bytes.ofLength` and
`Bytes.toLength` are the two directions.
-/

namespace SharedClipboard

/-- A byte string. -/
abbrev Bytes := List UInt8

namespace Bytes

/-- The number of lengths that four bytes can tell apart. -/
def lengthLimit : Nat := 0x100000000

/-- The four bytes of a length, most significant first. A length of `lengthLimit` or more is
written modulo `lengthLimit`. -/
def ofLength (n : Nat) : Bytes :=
  [UInt8.ofNat (n / 0x1000000), UInt8.ofNat (n / 0x10000), UInt8.ofNat (n / 0x100), UInt8.ofNat n]

/-- The length that four bytes spell, most significant first. -/
def toLength (a b c d : UInt8) : Nat :=
  ((a.toNat * 256 + b.toNat) * 256 + c.toNat) * 256 + d.toNat

theorem toLength_lt (a b c d : UInt8) : toLength a b c d < lengthLimit := by
  have ha := a.toNat_lt
  have hb := b.toNat_lt
  have hc := c.toNat_lt
  have hd := d.toNat_lt
  simp only [toLength, lengthLimit]
  omega

/-- Reading back the four bytes of a length gives the length modulo `lengthLimit`. -/
theorem toLength_ofLength (n : Nat) :
    toLength (UInt8.ofNat (n / 0x1000000)) (UInt8.ofNat (n / 0x10000)) (UInt8.ofNat (n / 0x100))
      (UInt8.ofNat n) = n % lengthLimit := by
  simp only [toLength, lengthLimit, UInt8.toNat_ofNat']
  omega

/-- Four bytes are what `ofLength` writes for the length that they spell. -/
theorem ofLength_toLength (a b c d : UInt8) : ofLength (toLength a b c d) = [a, b, c, d] := by
  have ha := a.toNat_lt
  have hb := b.toNat_lt
  have hc := c.toNat_lt
  have hd := d.toNat_lt
  simp only [ofLength, toLength, List.cons.injEq, and_true]
  refine ⟨?_, ?_, ?_, ?_⟩ <;> (apply UInt8.toNat_inj.1; simp only [UInt8.toNat_ofNat']; omega)

end Bytes

end SharedClipboard

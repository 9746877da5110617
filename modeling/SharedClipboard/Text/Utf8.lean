import SharedClipboard.Bytes

/-!
# Text as bytes

`Text.utf8` writes a text as UTF-8 and `Text.ofUtf8?` reads it back; the second accepts exactly
what the first writes (`Text.ofUtf8?_eq_some_iff`). `Text.lossy` reads any bytes: each maximal
run of bytes that starts a sequence but does not finish it, and each byte that starts none,
becomes one replacement character.
-/

namespace SharedClipboard.Text

def utf8 (s : String) : Bytes := s.toByteArray.data.toList

/-- The text that the bytes spell, if they are UTF-8. -/
def ofUtf8? (b : Bytes) : Option String := String.fromUTF8? ⟨b.toArray⟩

theorem ofUtf8?_eq_some_iff {b : Bytes} {s : String} : ofUtf8? b = some s ↔ b = utf8 s := by
  unfold ofUtf8? String.fromUTF8? utf8
  constructor
  · intro h
    split at h
    · cases h
      simp [String.fromUTF8]
    · cases h
  · intro h
    have hb : (⟨b.toArray⟩ : ByteArray) = s.toByteArray := by rw [h]
    rw [hb]
    simp [String.fromUTF8, s.isValidUTF8]

theorem utf8_injective {s t : String} (h : utf8 s = utf8 t) : s = t := by
  have hs := ofUtf8?_eq_some_iff.2 (rfl : utf8 s = utf8 s)
  rw [h, ofUtf8?_eq_some_iff.2 rfl] at hs
  exact (Option.some.inj hs).symm

@[simp] theorem ofUtf8?_utf8 (s : String) : ofUtf8? (utf8 s) = some s :=
  ofUtf8?_eq_some_iff.2 rfl

/-- Number of bytes that follow a lead byte, if it is one. -/
def following (lead : Nat) : Option Nat :=
  if lead < 0x80 then some 0
  else if 0xC2 ≤ lead ∧ lead ≤ 0xDF then some 1
  else if 0xE0 ≤ lead ∧ lead ≤ 0xEF then some 2
  else if 0xF0 ≤ lead ∧ lead ≤ 0xF4 then some 3
  else none

/-- The values that the second byte of a sequence may take: those that neither spell a character
that a shorter sequence spells, nor a surrogate, nor a character past the last one. -/
def secondRange (lead : Nat) : Nat × Nat :=
  if lead = 0xE0 then (0xA0, 0xBF)
  else if lead = 0xED then (0x80, 0x9F)
  else if lead = 0xF0 then (0x90, 0xBF)
  else if lead = 0xF4 then (0x80, 0x8F)
  else (0x80, 0xBF)

/-- The bits of the lead byte that belong to the character. -/
def leadBits (lead : Nat) : Nat :=
  if lead < 0x80 then lead
  else if lead < 0xE0 then lead % 32
  else if lead < 0xF0 then lead % 16
  else lead % 8

/-- Reads `n` more bytes of a sequence, the first of them within the range given; stops at the
first byte that does not belong to it. -/
def finish : Nat → Nat × Nat → Nat → Bytes → Option Nat × Bytes
  | 0, _, code, rest => (some code, rest)
  | _ + 1, _, _, [] => (none, [])
  | n + 1, (lo, hi), code, b :: rest =>
    if lo ≤ b.toNat ∧ b.toNat ≤ hi then
      finish n (0x80, 0xBF) (code * 64 + b.toNat % 64) rest
    else (none, b :: rest)

theorem length_finish_le (n : Nat) (range : Nat × Nat) (code : Nat) (b : Bytes) :
    (finish n range code b).2.length ≤ b.length := by
  induction n generalizing range code b with
  | zero => simp [finish]
  | succ n ih =>
    cases b with
    | nil => simp [finish]
    | cons x r =>
      obtain ⟨lo, hi⟩ := range
      simp only [finish]
      split
      · exact Nat.le_succ_of_le (ih _ _ r)
      · simp

/-- What stands for bytes that spell no character. -/
def replacement : Char := '\uFFFD'

/-- The characters that the bytes spell, with a replacement character for each maximal run of
bytes that is no character. -/
def lossyChars : Bytes → List Char
  | [] => []
  | b :: rest =>
    match following b.toNat with
    | none => replacement :: lossyChars rest
    | some n =>
      let r := finish n (secondRange b.toNat) (leadBits b.toNat) rest
      (r.1.map Char.ofNat).getD replacement :: lossyChars r.2
termination_by b => b.length
decreasing_by
  · simp
  · have := length_finish_le n (secondRange b.toNat) (leadBits b.toNat) rest
    simp only [List.length_cons]
    omega

/-- The text that the bytes spell, faults replaced. -/
def lossy (b : Bytes) : String := String.ofList (lossyChars b)

end SharedClipboard.Text

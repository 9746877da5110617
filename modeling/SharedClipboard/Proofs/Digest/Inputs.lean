import SharedClipboard.Auth.Challenge
import SharedClipboard.Group.History

/-!
# What digests are taken of

A digest stands for the bytes of which it is taken as far as it tells them apart from other bytes
(`Sha256.Separates`). What the bytes stand for is another question: both inputs of digests put parts
of any length one after the other.

* The input of a content hash has the length of the content type in front, so it determines the
  type and the data (`ContentHash.input_eq_iff`).
* The input of an answer has no lengths, but a challenge is always 32 bytes long, so what follows it
  is the fingerprint (`Challenge.answerInput_eq_iff`).
-/

namespace SharedClipboard

/-- The digests of the two byte strings differ, unless they are the same byte string. -/
def Sha256.Separates (x y : Bytes) : Prop := digest x = digest y → x = y

theorem Sha256.Separates.digest_eq_iff {x y : Bytes} (h : Separates x y) :
    digest x = digest y ↔ x = y := ⟨h, congrArg digest⟩

/-- The four bytes of a length that is not too large tell it. -/
theorem Bytes.ofLength_inj {m n : Nat} (hm : m < lengthLimit) (hn : n < lengthLimit)
    (h : ofLength m = ofLength n) : m = n := by
  have hm' := toLength_ofLength m
  have hn' := toLength_ofLength n
  rw [Nat.mod_eq_of_lt hm] at hm'
  rw [Nat.mod_eq_of_lt hn] at hn'
  simp only [ofLength, List.cons.injEq, and_true] at h
  obtain ⟨h₁, h₂, h₃, h₄⟩ := h
  rw [← hm', ← hn', h₁, h₂, h₃, h₄]

/-- However the same bytes are split between a content type and the data, the inputs differ. -/
theorem ContentHash.input_eq_iff {mime mime' : String} {data data' : Bytes}
    (hmime : (Text.utf8 mime).length < Bytes.lengthLimit)
    (hmime' : (Text.utf8 mime').length < Bytes.lengthLimit) :
    input mime data = input mime' data' ↔ mime = mime' ∧ data = data' := by
  constructor
  · intro h
    rw [input, input, List.append_assoc, List.append_assoc] at h
    obtain ⟨hlengths, hrest⟩ := List.append_inj h rfl
    obtain ⟨htexts, hdata⟩ := List.append_inj hrest (Bytes.ofLength_inj hmime hmime' hlengths)
    exact ⟨Text.utf8_injective htexts, hdata⟩
  · rintro ⟨rfl, rfl⟩
    rfl

/-- Contents of one hash are the same, as far as the digest tells their inputs apart. -/
theorem ContentHash.of_eq_iff {mime mime' : String} {data data' : Bytes}
    (hdigest : Sha256.Separates (input mime data) (input mime' data'))
    (hmime : (Text.utf8 mime).length < Bytes.lengthLimit)
    (hmime' : (Text.utf8 mime').length < Bytes.lengthLimit) :
    of mime data = of mime' data' ↔ mime = mime' ∧ data = data' := by
  rw [of, of, mk.injEq, hdigest.digest_eq_iff, input_eq_iff hmime hmime']

/-- The bytes of the fingerprint that is presented; none are presented without a certificate. -/
def Challenge.presented (f : Option Fingerprint) : Bytes := (f.map Fingerprint.bytes).getD []

/-- Challenges of one length are not confused with the fingerprints that follow them. -/
theorem Challenge.answerInput_eq_iff {n m : Bytes} (hlength : n.length = m.length)
    (f g : Option Fingerprint) :
    answerInput n f = answerInput m g ↔ n = m ∧ presented f = presented g := by
  constructor
  · intro h
    rw [answerInput, answerInput, List.append_assoc, List.append_assoc] at h
    exact List.append_inj (List.append_cancel_left h) hlength
  · rintro ⟨rfl, hbytes⟩
    exact congrArg (context ++ n ++ ·) hbytes

end SharedClipboard

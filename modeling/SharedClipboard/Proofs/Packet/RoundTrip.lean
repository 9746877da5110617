import SharedClipboard.Node.Basic
import SharedClipboard.Packet.Codec

/-!
# Decoding what was encoded

**Theorem (`decode_encode`).** A codec decodes the bytes of every packet whose fields are within its
bound to that packet.

A field that fits is read back whole and leaves the bytes after it (`nextField_encodeField`), so a
packet is read back field by field. A clipboard content that a node does not refuse makes a packet
that fits (`checkContent_eq_ok_iff`).
-/

namespace SharedClipboard.Codec

theorem nextField_encodeField {c : Codec} {f : Bytes} (hmax : f.length ≤ c.maxPayload)
    (hlimit : f.length < Bytes.lengthLimit) (rest : Bytes) :
    c.nextField (Packet.encodeField f ++ rest) = .ok (f, rest) := by
  have hlength := Bytes.toLength_ofLength f.length
  rw [Nat.mod_eq_of_lt hlimit] at hlength
  have hbody : ¬ (f ++ rest).length < f.length := by simp
  simp only [Packet.encodeField, Bytes.ofLength, List.cons_append, List.nil_append, nextField,
    hlength, checkLength_of_le hmax, if_neg hbody, List.take_left, List.drop_left]
  rfl

/-- A field that is too long is refused, whatever comes after it. -/
theorem nextField_of_tooLong {c : Codec} {f : Bytes} (hmax : c.maxPayload < f.length)
    (hlimit : f.length < Bytes.lengthLimit) (rest : Bytes) :
    c.nextField (Packet.encodeField f ++ rest) =
      .error (.lengthOverflow f.length c.maxPayload) := by
  have hlength := Bytes.toLength_ofLength f.length
  rw [Nat.mod_eq_of_lt hlimit] at hlength
  simp only [Packet.encodeField, Bytes.ofLength, List.cons_append, List.nil_append, nextField,
    hlength, checkLength_of_lt hmax]
  rfl

/-- **Decoding undoes encoding** on every packet whose fields are within the bound. -/
theorem decode_encode {c : Codec} {p : Packet} (h : c.Fits p) : c.decode p.encode = .ok p := by
  have htag : ∀ body, c.decode (p.type.tag :: body) = c.decodeFields body p.type := fun body => by
    rw [decode, PacketType.ofTag_eq_ok_iff.2 rfl]
    rfl
  have hfield : ∀ f ∈ p.fields, ∀ rest,
      c.nextField (Packet.encodeField f ++ rest) = .ok (f, rest) :=
    fun f hf rest => nextField_encodeField (h f hf).1 (h f hf).2 rest
  rw [Packet.encode, htag]
  cases p with
  | invalid => rfl
  | ping => rfl
  | syncRequest mime data =>
    have hmime := hfield (Text.utf8 mime) (by simp [Packet.fields])
    have hdata := hfield data (by simp [Packet.fields]) []
    rw [List.append_nil] at hdata
    simp [Packet.fields, Packet.type, decodeFields, hmime, hdata, finished, bind, Except.bind]
  | challengeRequest nonce =>
    have hnonce := hfield nonce (by simp [Packet.fields]) []
    rw [List.append_nil] at hnonce
    simp [Packet.fields, Packet.type, decodeFields, hnonce, finished, bind, Except.bind]
  | challengeResponse answer =>
    have hanswer := hfield answer (by simp [Packet.fields]) []
    rw [List.append_nil] at hanswer
    simp [Packet.fields, Packet.type, decodeFields, hanswer, finished, bind, Except.bind]

theorem checkField_eq_ok_iff (c : Codec) (field : String) (size : Nat) :
    c.checkField field size = .ok () ↔ size ≤ c.maxPayload ∧ size < Bytes.lengthLimit := by
  have hmin : size > min c.maxPayload (Bytes.lengthLimit - 1) ↔
      ¬ (size ≤ c.maxPayload ∧ size < Bytes.lengthLimit) := by
    simp only [Bytes.lengthLimit]
    omega
  unfold checkField
  by_cases h : size ≤ c.maxPayload ∧ size < Bytes.lengthLimit <;> simp [hmin, h]

/-- A content is not refused exactly when the packet that carries it fits. -/
theorem checkContent_eq_ok_iff {c : Codec} {mime : String} {data : Bytes} :
    c.checkContent mime data = .ok () ↔ c.Fits (.syncRequest mime data) := by
  simp only [Fits, Packet.fields, List.mem_cons, List.not_mem_nil, or_false, forall_eq_or_imp,
    forall_eq, ← checkField_eq_ok_iff c "mime type" (Text.utf8 mime).length,
    ← checkField_eq_ok_iff c "clipboard data" data.length]
  unfold checkContent
  cases c.checkField "mime type" (Text.utf8 mime).length <;> simp [bind, Except.bind]

end SharedClipboard.Codec

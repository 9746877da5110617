import SharedClipboard.Proofs.Packet.RoundTrip

/-!
# Every packet has one written form

**Theorem (`decode_iff_encode`).** A codec decodes some bytes to a packet exactly when they are the
encoding of the packet and each of its fields is within the bound.

All kinds of packets are decoded alike: as many fields are taken off the front as the kind has
(`takeFields`), and the packet is made of them (`Packet.ofFields?`). One field is taken exactly when
its encoding stands in front (`nextField_eq_ok_iff`), so some fields are taken exactly when their
encodings do (`takeFields_eq_ok_iff`). A tag says which kind it is, and a packet is made of its own
fields only.
-/

namespace SharedClipboard

/-- The packet of a kind that has the given fields. There is none if their number is wrong or the
content type is no text. -/
def Packet.ofFields? : PacketType → List Bytes → Option Packet
  | .invalid, [] => some .invalid
  | .ping, [] => some .ping
  | .syncRequest, [mime, data] => (Text.ofUtf8? mime).map (.syncRequest · data)
  | .challengeRequest, [nonce] => some (.challengeRequest nonce)
  | .challengeResponse, [answer] => some (.challengeResponse answer)
  | _, _ => none

theorem Packet.ofFields?_eq_some_iff {t : PacketType} {fs : List Bytes} {p : Packet} :
    ofFields? t fs = some p ↔ p.type = t ∧ p.fields = fs := by
  constructor
  · intro h
    unfold ofFields? at h
    split at h
    case h_3 mime data =>
      obtain ⟨text, htext, rfl⟩ := Option.map_eq_some_iff.1 h
      exact ⟨rfl, by rw [fields, Text.ofUtf8?_eq_some_iff.1 htext]⟩
    case h_6 => cases h
    all_goals
      cases h
      exact ⟨rfl, rfl⟩
  · rintro ⟨rfl, rfl⟩
    cases p with
    | syncRequest mime data => simp [ofFields?, type, fields]
    | invalid | ping | challengeRequest _ | challengeResponse _ => rfl

namespace Codec

variable {c : Codec}

/-! ## Taking fields off the front -/

/-- What a field of any kind has to satisfy. -/
def FitsField (c : Codec) (f : Bytes) : Prop :=
  f.length ≤ c.maxPayload ∧ f.length < Bytes.lengthLimit

theorem nextField_eq_ok_iff {b f rest : Bytes} :
    c.nextField b = .ok (f, rest) ↔ b = Packet.encodeField f ++ rest ∧ c.FitsField f := by
  constructor
  · intro h
    unfold nextField at h
    split at h
    · rename_i x y z w body
      have hlimit := Bytes.toLength_lt x y z w
      obtain ⟨-, hcheck⟩ | ⟨hmax, hcheck⟩ := c.checkLength_cases (Bytes.toLength x y z w) <;>
        simp only [hcheck] at h
      · cases h
      · change (if body.length < Bytes.toLength x y z w then _ else _) = _ at h
        split at h
        · cases h
        · rename_i hbody
          cases h
          have hlength : (body.take (Bytes.toLength x y z w)).length = Bytes.toLength x y z w :=
            List.length_take_of_le (Nat.not_lt.1 hbody)
          refine ⟨?_, ?_⟩
          · rw [Packet.encodeField, hlength, Bytes.ofLength_toLength, List.append_assoc,
              List.take_append_drop]
            rfl
          · rw [FitsField, hlength]
            exact ⟨hmax, hlimit⟩
    · cases h
  · rintro ⟨rfl, hmax, hlimit⟩
    exact nextField_encodeField hmax hlimit rest

/-- A field is refused because it claims to be too long or because it is cut off. -/
theorem nextField_error {b : Bytes} {e : DecodeError} (h : c.nextField b = .error e) :
    (∃ declared, e = .lengthOverflow declared c.maxPayload) ∨
      ∃ needed available, e = .truncated needed available := by
  unfold nextField at h
  split at h
  · rename_i x y z w body
    obtain ⟨-, hcheck⟩ | ⟨-, hcheck⟩ := c.checkLength_cases (Bytes.toLength x y z w) <;>
      simp only [hcheck] at h
    · cases h
      exact .inl ⟨_, rfl⟩
    · change (if body.length < Bytes.toLength x y z w then _ else _) = _ at h
      split at h
      · cases h
        exact .inr ⟨_, _, rfl⟩
      · cases h
  · cases h
    exact .inr ⟨_, _, rfl⟩

/-- Takes some fields off the front. -/
def takeFields (c : Codec) : Nat → Bytes → Except DecodeError (List Bytes × Bytes)
  | 0, b => .ok ([], b)
  | n + 1, b =>
    match c.nextField b with
    | .error e => .error e
    | .ok (f, b) => (takeFields c n b).map fun r => (f :: r.1, r.2)

theorem takeFields_eq_ok_iff {n : Nat} {b : Bytes} {fs : List Bytes} {rest : Bytes} :
    c.takeFields n b = .ok (fs, rest) ↔
      fs.length = n ∧ b = fs.flatMap Packet.encodeField ++ rest ∧ ∀ f ∈ fs, c.FitsField f := by
  induction n generalizing b fs with
  | zero =>
    simp only [takeFields, Except.ok.injEq, Prod.mk.injEq, List.length_eq_zero_iff]
    constructor
    · rintro ⟨rfl, rfl⟩
      simp
    · rintro ⟨rfl, hb, -⟩
      exact ⟨rfl, hb⟩
  | succ n ih =>
    simp only [takeFields]
    constructor
    · intro h
      cases hf : c.nextField b with
      | error e => simp [hf] at h
      | ok r =>
        obtain ⟨f, b'⟩ := r
        cases hfs : c.takeFields n b' with
        | error e => simp [hf, hfs, Except.map] at h
        | ok r =>
          simp only [hf, hfs, Except.map, Except.ok.injEq, Prod.mk.injEq] at h
          obtain ⟨rfl, rfl⟩ := h
          obtain ⟨rfl, hfit⟩ := nextField_eq_ok_iff.1 hf
          obtain ⟨hlength, rfl, hfits⟩ := ih.1 hfs
          exact ⟨by simp [hlength], by simp, by simpa using ⟨hfit, hfits⟩⟩
    -- Conversely the fields are taken off one by one, each by its own length.
    · rintro ⟨hlength, rfl, hfits⟩
      cases fs with
      | nil => simp at hlength
      | cons f fs =>
        rw [List.forall_mem_cons] at hfits
        have hf : c.nextField ((f :: fs).flatMap Packet.encodeField ++ rest) =
            .ok (f, fs.flatMap Packet.encodeField ++ rest) :=
          nextField_eq_ok_iff.2 ⟨by simp, hfits.1⟩
        have hfs := ih.2 ⟨Nat.succ.inj hlength, rfl, hfits.2⟩
        simp only [hf, hfs, Except.map]

/-- The fields of a packet that fits are taken, and nothing after them. -/
theorem takeFields_of_fits {p : Packet} (hp : c.Fits p) (rest : Bytes) :
    c.takeFields p.type.fieldCount (p.fields.flatMap Packet.encodeField ++ rest) =
      .ok (p.fields, rest) :=
  takeFields_eq_ok_iff.2 ⟨p.length_fields, rfl, hp⟩

/-- If not all of some fields are within the bound, the first that is not is refused. -/
theorem takeFields_of_tooLong {fs : List Bytes} (hlimit : ∀ f ∈ fs, f.length < Bytes.lengthLimit)
    (hlong : ∃ f ∈ fs, c.maxPayload < f.length) (rest : Bytes) :
    ∃ f ∈ fs, c.maxPayload < f.length ∧
      c.takeFields fs.length (fs.flatMap Packet.encodeField ++ rest) =
        .error (.lengthOverflow f.length c.maxPayload) := by
  induction fs with
  | nil => simp at hlong
  | cons f fs ih =>
    rw [List.forall_mem_cons] at hlimit
    rw [List.flatMap_cons, List.append_assoc, List.length_cons, takeFields]
    obtain hf | hf := Nat.lt_or_ge c.maxPayload f.length
    · exact ⟨f, List.mem_cons_self, hf, by rw [nextField_of_tooLong hf hlimit.1]⟩
    · have hrest : ∃ g ∈ fs, c.maxPayload < g.length := by
        simpa [Nat.not_lt.2 hf] using hlong
      obtain ⟨g, hg, hlt, hrefused⟩ := ih hlimit.2 hrest
      refine ⟨g, List.mem_cons_of_mem _ hg, hlt, ?_⟩
      simp only [nextField_encodeField hf hlimit.1, hrefused]
      rfl

theorem takeFields_error {n : Nat} {b : Bytes} {e : DecodeError} (h : c.takeFields n b = .error e) :
    (∃ declared, e = .lengthOverflow declared c.maxPayload) ∨
      ∃ needed available, e = .truncated needed available := by
  induction n generalizing b with
  | zero => cases h
  | succ n ih =>
    simp only [takeFields] at h
    cases hf : c.nextField b with
    | error e' =>
      rw [hf] at h
      cases h
      exact nextField_error hf
    | ok r =>
      cases hfs : c.takeFields n r.2 with
      | error e' =>
        simp only [hf, hfs, Except.map] at h
        cases h
        exact ih hfs
      | ok r' => simp [hf, hfs, Except.map] at h

/-! ## Decoding by fields -/

/-- The packet that taken fields make, if nothing is left. -/
def assemble (t : PacketType) (fs : List Bytes) (rest : Bytes) : Except DecodeError Packet :=
  match Packet.ofFields? t fs with
  | none => .error .invalidMimeType
  | some p => finished p rest

theorem finished_eq_ok_iff {p q : Packet} {rest : Bytes} :
    finished p rest = .ok q ↔ p = q ∧ rest = [] := by
  cases rest <;> simp [finished]

/-- Packets of all kinds are decoded alike. -/
theorem decodeFields_eq (c : Codec) (body : Bytes) (t : PacketType) :
    c.decodeFields body t = (c.takeFields t.fieldCount body).bind fun r => assemble t r.1 r.2 := by
  cases t with
  | invalid | ping => rfl
  | challengeRequest | challengeResponse =>
    simp only [decodeFields, PacketType.fieldCount, takeFields]
    cases c.nextField body <;> rfl
  -- The content type is looked at only when both fields are taken, as `assemble` does.
  | syncRequest =>
    simp only [decodeFields, PacketType.fieldCount, takeFields]
    cases c.nextField body with
    | error e => rfl
    | ok r =>
      obtain ⟨mime, rest⟩ := r
      show (c.nextField rest >>= _) = _
      cases hdata : c.nextField rest with
      | error e => simp [hdata, Except.map, Except.bind, bind]
      | ok r =>
        simp only [hdata, Except.map, Except.bind, bind, assemble, Packet.ofFields?]
        cases Text.ofUtf8? mime <;> rfl

theorem decode_cons_tag (c : Codec) (t : PacketType) (body : Bytes) :
    c.decode (t.tag :: body) = c.decodeFields body t := by
  rw [decode, PacketType.ofTag_eq_ok_iff.2 rfl]
  rfl

/-- What follows the fields of a packet decides whether they are the whole of it. -/
theorem decode_of_takeFields {t : PacketType} {body rest : Bytes} {fs : List Bytes}
    (h : c.takeFields t.fieldCount body = .ok (fs, rest)) :
    c.decode (t.tag :: body) = assemble t fs rest := by
  rw [decode_cons_tag, decodeFields_eq, h]
  rfl

theorem encode_of_decode {b : Bytes} {p : Packet} (h : c.decode b = .ok p) :
    b = p.encode ∧ c.Fits p := by
  cases b with
  | nil => cases h
  | cons tag body =>
    cases ht : PacketType.ofTag tag with
    | error e =>
      rw [decode, ht] at h
      cases h
    | ok t =>
      obtain rfl := PacketType.ofTag_eq_ok_iff.1 ht
      cases hfs : c.takeFields t.fieldCount body with
      | error e =>
        rw [decode_cons_tag, decodeFields_eq, hfs] at h
        cases h
      | ok r =>
        obtain ⟨fs, rest⟩ := r
        rw [decode_of_takeFields hfs, assemble] at h
        split at h
        · cases h
        · rename_i q hq
          obtain ⟨rfl, rfl⟩ := finished_eq_ok_iff.1 h
          -- The tag, the fields and the end are each read in one way only.
          obtain ⟨-, rfl, hfits⟩ := takeFields_eq_ok_iff.1 hfs
          obtain ⟨rfl, rfl⟩ := Packet.ofFields?_eq_some_iff.1 hq
          exact ⟨by rw [Packet.encode, List.append_nil], hfits⟩

/-- **One written form.** Some bytes are decoded to a packet exactly when they are its encoding and
each of its fields is within the bound and within what a length prefix can tell. -/
theorem decode_iff_encode (c : Codec) (b : Bytes) (p : Packet) :
    c.decode b = .ok p ↔
      p.encode = b ∧ ∀ f ∈ p.fields, f.length ≤ min c.maxPayload (Bytes.lengthLimit - 1) := by
  have hfits : (∀ f ∈ p.fields, f.length ≤ min c.maxPayload (Bytes.lengthLimit - 1)) ↔
      c.Fits p := by
    refine forall₂_congr fun f _ => ?_
    rw [Bytes.lengthLimit]
    omega
  rw [hfits]
  constructor
  · intro h
    obtain ⟨hb, hp⟩ := encode_of_decode h
    exact ⟨hb.symm, hp⟩
  · rintro ⟨rfl, hp⟩
    exact decode_encode hp

end Codec

end SharedClipboard

import SharedClipboard.Proofs.Packet.CutStream

/-!
# No packet begins another

**Theorem (`encodings_delimit_themselves`).** Of the encoding of a packet that fits, every part from
the front is refused as cut off, and with anything after it the encoding is refused for what
trails it. So no encoding begins another one, and the bytes of several packets are cut into packets
in one way only.

What follows a packet is left over by the reader, which takes the packet off the front of any stream
(`FrameReader.feed_encode`); two packets at the front of the same bytes are therefore the same, and
so is what follows them (`encode_append_inj`). A part from the front leaves the reader within a
frame (`FrameReader.feed_of_cut`), and of all that the codec says about some bytes only that they
are cut off agrees with that (`FrameReader.feed_agrees`): neither the length nor the text of a field
is found at fault before the rest of the packet is missed.
-/

namespace SharedClipboard

open Packet (stream)

namespace Codec

variable {c : Codec} {p q : Packet}

/-- What trails a packet is counted. -/
theorem decode_encode_append (hp : c.Fits p) {rest : Bytes} (hrest : rest ≠ []) :
    c.decode (p.encode ++ rest) = .error (.trailingBytes rest.length) := by
  have hpacket : Packet.ofFields? p.type p.fields = some p :=
    Packet.ofFields?_eq_some_iff.2 ⟨rfl, rfl⟩
  rw [Packet.encode, List.cons_append, decode_of_takeFields (takeFields_of_fits hp rest), assemble,
    hpacket]
  cases rest with
  | nil => exact absurd rfl hrest
  | cons b rest => rfl

/-- A packet that lacks something is cut off, whatever else could be said about what there is. -/
theorem decode_of_cut (hp : c.Fits p) {read missing : Bytes} (hcut : p.encode = read ++ missing)
    (hmissing : missing ≠ []) :
    ∃ needed available, c.decode read = .error (.truncated needed available) := by
  obtain ⟨r, hfed, -⟩ := FrameReader.feed_of_cut hp hcut hmissing
  have hwaits : (∀ x, r.atEnd ≠ .packet x) ∧ ∀ e, r.atEnd ≠ .undecodable e := by
    cases r <;> simp [FrameReader.atEnd]
  have hagrees := FrameReader.feed_agrees c read
  rw [hfed, FrameReader.Agrees] at hagrees
  -- Of what the codec can say, all but one has the reader done with a frame or at fault.
  split at hagrees
  · exact absurd hagrees.1 (hwaits.1 _)
  · exact ⟨_, _, by assumption⟩
  · obtain ⟨x, -, hgot, -⟩ := hagrees
    exact absurd hgot (hwaits.1 x)
  · exact absurd hagrees (hwaits.2 _)

/-- Packets at the front of the same bytes are the same, and the same bytes follow them. -/
theorem encode_append_inj (hp : c.Fits p) (hq : c.Fits q) {rest rest' : Bytes}
    (h : p.encode ++ rest = q.encode ++ rest') : p = q ∧ rest = rest' := by
  have hread := FrameReader.feed_encode hp rest
  rw [h, FrameReader.feed_encode hq rest'] at hread
  cases hread
  exact ⟨rfl, rfl⟩

theorem stream_inj {ps qs : List Packet} (hps : ∀ x ∈ ps, c.Fits x) (hqs : ∀ x ∈ qs, c.Fits x)
    (h : stream ps = stream qs) : ps = qs := by
  -- Every packet has a tag, so only the stream of no packets is empty.
  have hne : ∀ (x : Packet) (xs : List Packet), stream (x :: xs) ≠ [] := by simp [Packet.encode]
  induction ps generalizing qs with
  | nil =>
    cases qs with
    | nil => rfl
    | cons q qs => exact absurd h.symm (hne q qs)
  | cons p ps ih =>
    cases qs with
    | nil => exact absurd h (hne p ps)
    | cons q qs =>
      rw [List.forall_mem_cons] at hps hqs
      obtain ⟨rfl, hrest⟩ := encode_append_inj hps.1 hqs.1 h
      rw [ih hps.2 hqs.2 hrest]

/-- A packet whose fields can be told by their length prefixes fits a codec with no other bound. -/
theorem fits_widest (hp : ∀ f ∈ p.fields, f.length < Bytes.lengthLimit) :
    Fits ⟨Bytes.lengthLimit⟩ p := fun f hf => ⟨Nat.le_of_lt (hp f hf), hp f hf⟩

/-- **Encodings delimit themselves.** Let the fields of a packet be within the bound of a codec and
within what a length prefix can tell. Every part of its encoding from the front that is not the
whole is cut off to the codec, and if anything follows the encoding, it is the number of bytes that
trail which the codec reports. Whatever the codec, no encoding begins that of another packet, and
packets whose encodings make up the same bytes are the same packets. -/
theorem encodings_delimit_themselves (c : Codec) {p : Packet} (hp : c.Fits p) :
    (∀ read : Bytes, read <+: p.encode → read ≠ p.encode →
        ∃ needed available, c.decode read = .error (.truncated needed available)) ∧
      (∀ rest : Bytes, rest ≠ [] →
        c.decode (p.encode ++ rest) = .error (.trailingBytes rest.length)) ∧
      (∀ q : Packet, (∀ f ∈ q.fields, f.length < Bytes.lengthLimit) →
        p.encode <+: q.encode → p = q) ∧
      ∀ ps qs : List Packet, (∀ x ∈ ps ++ qs, ∀ f ∈ x.fields, f.length < Bytes.lengthLimit) →
        stream ps = stream qs → ps = qs := by
  refine ⟨fun read hread hne => ?_, fun rest hrest => decode_encode_append hp hrest,
    fun q hq hbegins => ?_, fun ps qs hfits => ?_⟩
  · obtain ⟨missing, hcut⟩ := hread
    refine decode_of_cut hp hcut.symm fun hnone => hne ?_
    rw [← hcut, hnone, List.append_nil]
  · obtain ⟨rest, hrest⟩ := hbegins
    have hp' := fits_widest fun f hf => (hp f hf).2
    exact (encode_append_inj hp' (fits_widest hq) (hrest.trans (List.append_nil _).symm)).1
  · exact stream_inj (fun x hx => fits_widest (hfits x (List.mem_append_left qs hx)))
      fun x hx => fits_widest (hfits x (List.mem_append_right ps hx))

/-- A content that is cut within its type, one that two bytes follow, and the streams that begin
with it. -/
theorem encodings_delimit_themselves_content :
    let p := Packet.syncRequest "text/plain" [1, 2, 3]
    Codec.default.Fits p ∧
      (∃ needed available,
        Codec.default.decode (p.encode.take 9) = .error (.truncated needed available)) ∧
      Codec.default.decode (p.encode ++ [2, 2]) = .error (.trailingBytes 2) ∧
      ¬ p.encode <+: (Packet.syncRequest "text/plain" [1, 2, 3, 4]).encode ∧
      ∀ qs, (∀ x ∈ qs, ∀ f ∈ x.fields, f.length < Bytes.lengthLimit) →
        stream [p, .ping] = stream qs → qs = [p, .ping] := by
  intro p
  have hp : Codec.default.Fits p := by decide +kernel
  have htwo : ∀ x ∈ [p, .ping], ∀ f ∈ x.fields, f.length < Bytes.lengthLimit := by decide +kernel
  obtain ⟨hcut, htrails, hbegins, hstreams⟩ := encodings_delimit_themselves Codec.default hp
  refine ⟨hp, hcut _ (List.take_prefix 9 _) (by decide +kernel), htrails [2, 2] (by simp),
    fun h => ?_, fun qs hqs h => (hstreams _ qs ?_ h).symm⟩
  · exact absurd (hbegins _ (by decide +kernel) h) (by decide +kernel)
  · intro x hx
    obtain hx | hx := List.mem_append.1 hx
    · exact htwo x hx
    · exact hqs x hx

end Codec

end SharedClipboard

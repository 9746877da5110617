import SharedClipboard.Packet.FrameReader
import SharedClipboard.Proofs.Packet.Canonical

/-!
# Streams and whole packets

**Theorem (`stream_agrees_with_decoding`).** What a receiver gets from a stream depends only on the
bytes, however they are cut into chunks, and the first thing that it gets is what the codec makes of
all of the bytes at once.

The reader that takes byte after byte and the codec that sees all bytes read the same fields: a
reader at the start of some fields runs through the bytes that `Codec.takeFields` takes off the
front (`resume_nextField`), and where that fails it stops for the same reason or runs out of bytes
(`reflects_nextField`). Chunks do not matter because the reader carries its state across a cut
(`feed_append`), so receiving from chunks is feeding the reader with their concatenation
(`receive_eq_feed`).
-/

namespace SharedClipboard

namespace FrameReader

variable {c : Codec}

/-! ## Feeding a reader -/

/-- What becomes of the bytes after the one that led to the progress. -/
def Progress.resume (c : Codec) (rest : Bytes) : Progress → Progress × Bytes
  | .more r => r.feed c rest
  | .done got => (.done got, rest)

theorem feed_cons (c : Codec) (r : FrameReader) (b : UInt8) (rest : Bytes) :
    r.feed c (b :: rest) = (r.push c b).resume c rest := by
  rw [feed]
  cases r.push c b <;> rfl

theorem rest_of_more {r r' : FrameReader} {b : Bytes} (h : (r.feed c b).1 = .more r') :
    (r.feed c b).2 = [] := by
  induction b generalizing r with
  | nil => rfl
  | cons x b ih =>
    rw [feed_cons] at h ⊢
    cases hp : r.push c x with
    | more r'' =>
      rw [hp] at h
      exact ih h
    | done got =>
      rw [hp] at h
      cases h

/-- The state of the reader carries across a cut. -/
theorem feed_append (c : Codec) (r : FrameReader) (a b : Bytes) :
    r.feed c (a ++ b) = (r.feed c a).1.resume c ((r.feed c a).2 ++ b) := by
  induction a generalizing r with
  | nil => rfl
  | cons x a ih =>
    rw [List.cons_append, feed_cons, feed_cons]
    cases r.push c x with
    | more r' => exact ih r'
    | done got => rfl

/-! ## One field -/

theorem feed_inField (frame : Bytes) (left : Nat) {f : Bytes} {missing : Nat}
    (h : f.length = missing + 1) (rest : Bytes) :
    (inField frame left missing).feed c (f ++ rest) =
      (nextField c (f.reverse ++ frame) left).resume c rest := by
  -- Byte by byte, while the frame that is read grows by the bytes that are no longer missing.
  induction f generalizing frame missing with
  | nil => simp at h
  | cons b f ih =>
    rw [List.cons_append, feed_cons]
    cases missing with
    | zero =>
      have hf : f = [] := by simpa using h
      subst hf
      rfl
    | succ missing =>
      have hf : f.length = missing + 1 := by simpa using h
      have hframe : (b :: f).reverse ++ frame = f.reverse ++ (b :: frame) := by simp
      rw [hframe]
      exact ih (b :: frame) hf

theorem feed_inField_of_short (frame : Bytes) (left : Nat) {b : Bytes} {missing : Nat}
    (h : b.length ≤ missing) :
    ∃ frame' missing', ((inField frame left missing).feed c b).1 =
      .more (inField frame' left missing') := by
  induction b generalizing frame missing with
  | nil => exact ⟨frame, missing, rfl⟩
  | cons x b ih =>
    rw [feed_cons]
    cases missing with
    | zero => simp at h
    | succ missing => exact ih (x :: frame) (by simpa using h)

/-- After four bytes the reader knows the length. -/
theorem feed_length (c : Codec) (frame : Bytes) (left : Nat) (x y z w : UInt8) (body : Bytes) :
    (inLength frame left []).feed c (x :: y :: z :: w :: body) =
      ((inLength (z :: y :: x :: frame) left [x, y, z]).push c w).resume c body := by
  simp only [feed_cons, push, Progress.resume, List.nil_append, List.cons_append]

/-- A field that the codec takes off the front is one that the reader runs through. -/
theorem feed_inLength (frame : Bytes) (left : Nat) {body f rest : Bytes}
    (h : c.nextField body = .ok (f, rest)) :
    (inLength frame left []).feed c body =
      (nextField c ((Packet.encodeField f).reverse ++ frame) left).resume c rest := by
  obtain ⟨rfl, hmax, hlimit⟩ := Codec.nextField_eq_ok_iff.1 h
  have hlength := Bytes.toLength_ofLength f.length
  rw [Nat.mod_eq_of_lt hlimit] at hlength
  simp only [Packet.encodeField, Bytes.ofLength, List.cons_append, List.nil_append, feed_length,
    push, hlength, Codec.checkLength_of_le hmax]
  cases f with
  | nil => rfl
  | cons b f =>
    have hmore := feed_inField (c := c) (UInt8.ofNat (b :: f).length ::
      UInt8.ofNat ((b :: f).length / 0x100) :: UInt8.ofNat ((b :: f).length / 0x10000) ::
      UInt8.ofNat ((b :: f).length / 0x1000000) :: frame) left
      (rfl : (b :: f).length = f.length + 1) rest
    simp only [List.length_cons, Progress.resume] at hmore ⊢
    rw [hmore]
    simp

/-- The reader stops for the reason for which the codec refuses the bytes; if they are cut off it
is within a frame and waits. -/
def Progress.Reflects (p : Progress) : DecodeError → Prop
  | .truncated _ _ => ∃ r, p = .more r ∧ r ≠ .atTag
  | e => p = .done (.undecodable e)

theorem reflects_inLength {frame body : Bytes} {left : Nat} {e : DecodeError}
    (h : c.nextField body = .error e) : ((inLength frame left []).feed c body).1.Reflects e := by
  unfold Codec.nextField at h
  split at h
  · rename_i x y z w body
    rw [feed_length, push]
    obtain ⟨-, hcheck⟩ | ⟨-, hcheck⟩ := c.checkLength_cases (Bytes.toLength x y z w) <;>
      simp only [hcheck] at h ⊢
    · cases h
      rfl
    · change (if body.length < Bytes.toLength x y z w then _ else _) = _ at h
      split at h
      · rename_i hshort
        cases h
        cases hlength : Bytes.toLength x y z w with
        | zero => simp [hlength] at hshort
        | succ missing =>
          rw [hlength] at hshort
          obtain ⟨frame', missing', hmore⟩ := feed_inField_of_short (c := c)
            (w :: z :: y :: x :: frame) left (Nat.le_of_lt_succ hshort)
          exact ⟨_, hmore, by simp⟩
      · cases h
  · rename_i hshort
    cases h
    match body with
    | [] => exact ⟨_, rfl, by simp⟩
    | [x] => exact ⟨_, rfl, by simp⟩
    | [x, y] => exact ⟨_, rfl, by simp⟩
    | [x, y, z] => exact ⟨_, rfl, by simp⟩
    | x :: y :: z :: w :: body => exact absurd rfl (hshort x y z w body)

/-! ## All fields of a frame -/

/-- A frame is complete after as many fields as its kind has. -/
theorem resume_nextField {n : Nat} {frame body rest : Bytes} {fs : List Bytes}
    (h : c.takeFields n body = .ok (fs, rest)) :
    (nextField c frame n).resume c body =
      (.done (received (c.decode (frame.reverse ++ fs.flatMap Packet.encodeField))), rest) := by
  -- On the fields that are left. The frame read so far is kept, since it is decoded as a whole.
  induction n generalizing frame body fs with
  | zero =>
    cases h
    simp [nextField, Progress.resume]
  | succ n ih =>
    rw [Codec.takeFields] at h
    cases hf : c.nextField body with
    | error e => simp [hf] at h
    | ok r =>
      obtain ⟨f, body'⟩ := r
      cases hfs : c.takeFields n body' with
      | error e => simp [hf, hfs, Except.map] at h
      | ok r =>
        simp only [hf, hfs, Except.map, Except.ok.injEq, Prod.mk.injEq] at h
        obtain ⟨rfl, rfl⟩ := h
        have hfield := feed_inLength frame n hf
        rw [ih hfs] at hfield
        rw [nextField, Progress.resume, hfield]
        simp

theorem reflects_nextField {n : Nat} {frame body : Bytes} {e : DecodeError}
    (h : c.takeFields n body = .error e) : ((nextField c frame n).resume c body).1.Reflects e := by
  induction n generalizing frame body with
  | zero => cases h
  | succ n ih =>
    rw [Codec.takeFields] at h
    rw [nextField, Progress.resume]
    cases hf : c.nextField body with
    | error e' =>
      rw [hf] at h
      cases h
      exact reflects_inLength hf
    | ok r =>
      obtain ⟨f, body'⟩ := r
      cases hfs : c.takeFields n body' with
      | error e' =>
        simp only [hf, hfs, Except.map] at h
        cases h
        rw [feed_inLength frame n hf]
        exact ih hfs
      | ok r => simp [hf, hfs, Except.map] at h

theorem feed_tag (c : Codec) (t : PacketType) (body : Bytes) :
    atTag.feed c (t.tag :: body) = (nextField c [t.tag] t.fieldCount).resume c body := by
  rw [feed_cons, push, PacketType.ofTag_eq_ok_iff.2 rfl]

/-! ## Agreement with the codec -/

/-- What a receiver has, once the stream is over if need be. -/
def Progress.result (end? : StreamEnd) : Progress → Received
  | .more r => r.stopped end?
  | .done got => got

theorem atEnd_of_ne {r : FrameReader} (h : r ≠ .atTag) : r.atEnd = .failed .closed := by
  cases r with
  | atTag => exact absurd rfl h
  | inLength _ _ _ | inField _ _ _ => rfl

/-- What was received, and what is left of the stream, is what the codec makes of all the bytes. A
packet cut off is a lost connection, and bytes that trail a packet are left in the stream. -/
def Agrees (c : Codec) (b : Bytes) (got : Received) (left : Bytes) : Prop :=
  match c.decode b with
  | .ok p => got = .packet p ∧ left = []
  | .error (.truncated _ _) => got = if b = [] then .finished else .failed .closed
  | .error (.trailingBytes n) =>
    ∃ p read, got = .packet p ∧ b = read ++ left ∧ left.length = n ∧ c.decode read = .ok p
  | .error e => got = .undecodable e

theorem agrees_of_takeFields {t : PacketType} {body rest : Bytes} {fs : List Bytes}
    (h : c.takeFields t.fieldCount body = .ok (fs, rest)) :
    Agrees c (t.tag :: body)
      (received (c.decode (t.tag :: fs.flatMap Packet.encodeField))) rest := by
  obtain ⟨hcount, hbody, hfits⟩ := Codec.takeFields_eq_ok_iff.1 h
  -- The reader decodes the frame alone, and the codec the frame with what follows it.
  have hframe : c.takeFields t.fieldCount (fs.flatMap Packet.encodeField) = .ok (fs, []) :=
    Codec.takeFields_eq_ok_iff.2 ⟨hcount, (List.append_nil _).symm, hfits⟩
  have hread := Codec.decode_of_takeFields hframe
  rw [Agrees, Codec.decode_of_takeFields h, hread]
  simp only [Codec.assemble] at hread ⊢
  cases hp : Packet.ofFields? t fs with
  | none => rfl
  | some p =>
    rw [hp] at hread
    cases rest with
    | nil => exact ⟨rfl, rfl⟩
    | cons x rest =>
      exact ⟨p, t.tag :: fs.flatMap Packet.encodeField, rfl, by rw [hbody]; rfl, rfl, hread⟩

theorem agrees_of_error {t : PacketType} {body : Bytes} {e : DecodeError} {p : Progress}
    {left : Bytes} (h : c.takeFields t.fieldCount body = .error e) (hp : p.Reflects e) :
    Agrees c (t.tag :: body) (p.result none) left := by
  rw [Agrees, Codec.decode_cons_tag, Codec.decodeFields_eq, h]
  obtain ⟨declared, rfl⟩ | ⟨needed, available, rfl⟩ := Codec.takeFields_error h
  · rw [show p = _ from hp]
    rfl
  · obtain ⟨r, rfl, hr⟩ := hp
    exact atEnd_of_ne hr

theorem feed_agrees (c : Codec) (b : Bytes) :
    Agrees c b ((atTag.feed c b).1.result none) (atTag.feed c b).2 := by
  cases b with
  | nil => rfl
  | cons tag body =>
    cases ht : PacketType.ofTag tag with
    | error e =>
      have he : e = .unknownType tag := by
        unfold PacketType.ofTag at ht
        repeat' split at ht
        all_goals cases ht
        rfl
      subst he
      rw [Agrees, feed_cons, push, Codec.decode, ht]
      rfl
    | ok t =>
      obtain rfl := PacketType.ofTag_eq_ok_iff.1 ht
      rw [feed_tag]
      cases hfs : c.takeFields t.fieldCount body with
      | error e => exact agrees_of_error hfs (reflects_nextField hfs)
      | ok r =>
        obtain ⟨fs, rest⟩ := r
        rw [resume_nextField hfs]
        exact agrees_of_takeFields hfs

/-! ## Packets that fit and packets that do not -/

/-- The reader takes a packet that fits off the front of a stream, and nothing after it. -/
theorem feed_encode {p : Packet} (h : c.Fits p) (rest : Bytes) :
    atTag.feed c (p.encode ++ rest) = (.done (.packet p), rest) := by
  have hdecoded : c.decode (p.type.tag :: p.fields.flatMap Packet.encodeField) = .ok p :=
    Codec.decode_encode h
  rw [Packet.encode, List.cons_append, feed_tag, resume_nextField (Codec.takeFields_of_fits h rest),
    List.reverse_singleton, List.singleton_append, hdecoded]
  rfl

/-- The reader refuses a packet that does not fit at the first field that is too long, whatever
comes after it. -/
theorem feed_of_tooLong {p : Packet} (hlimit : ∀ f ∈ p.fields, f.length < Bytes.lengthLimit)
    (hlong : ¬ c.Fits p) (rest : Bytes) :
    ∃ f ∈ p.fields, c.maxPayload < f.length ∧ (atTag.feed c (p.encode ++ rest)).1 =
      .done (.undecodable (.lengthOverflow f.length c.maxPayload)) := by
  have hexists : ∃ f ∈ p.fields, c.maxPayload < f.length := by
    apply Decidable.byContradiction
    intro hnone
    exact hlong fun f hf => ⟨Nat.not_lt.1 fun hlt => hnone ⟨f, hf, hlt⟩, hlimit f hf⟩
  obtain ⟨f, hf, hlt, hrefused⟩ := Codec.takeFields_of_tooLong hlimit hexists rest
  rw [p.length_fields] at hrefused
  refine ⟨f, hf, hlt, ?_⟩
  rw [Packet.encode, List.cons_append, feed_tag]
  exact reflects_nextField hrefused

end FrameReader

/-! ## Chunks -/

/-- Receiving from chunks is feeding the reader with all of their bytes. -/
theorem receive_eq_feed (c : Codec) (end? : StreamEnd) (r : FrameReader) (chunks : List Bytes) :
    (receive c end? r chunks).1 = (r.feed c chunks.flatten).1.result end? ∧
      (receive c end? r chunks).2.flatten = (r.feed c chunks.flatten).2 := by
  -- Where the stream is cut does not matter, because the reader keeps what it has read.
  induction chunks generalizing r with
  | nil => exact ⟨rfl, rfl⟩
  | cons chunk chunks ih =>
    rw [List.flatten_cons, FrameReader.feed_append, receive]
    cases hfeed : r.feed c chunk with
    | mk p rest =>
      cases p with
      | more r' =>
        have hrest : (r.feed c chunk).2 = [] := FrameReader.rest_of_more (by rw [hfeed])
        rw [hfeed] at hrest
        cases hrest
        exact ih r'
      | done got => exact ⟨rfl, rfl⟩

/-- What a receiver gets when it asks so many times, whatever it gets. -/
def receiveTimes (c : Codec) : Nat → List Bytes → List Received
  | 0, _ => []
  | n + 1, chunks =>
    (receive c none .atTag chunks).1 :: receiveTimes c n (receive c none .atTag chunks).2

section Chunks

variable {chunks chunks' : List Bytes} (h : chunks.flatten = chunks'.flatten)

include h

theorem receive_congr (c : Codec) (end? : StreamEnd) (r : FrameReader) :
    (receive c end? r chunks).1 = (receive c end? r chunks').1 ∧
      (receive c end? r chunks).2.flatten = (receive c end? r chunks').2.flatten := by
  have hleft := receive_eq_feed c end? r chunks
  have hright := receive_eq_feed c end? r chunks'
  rw [h] at hleft
  exact ⟨hleft.1.trans hright.1.symm, hleft.2.trans hright.2.symm⟩

theorem receiveTimes_congr (c : Codec) (n : Nat) :
    receiveTimes c n chunks = receiveTimes c n chunks' := by
  induction n generalizing chunks chunks' with
  | zero => rfl
  | succ n ih =>
    obtain ⟨hgot, hrest⟩ := receive_congr h c none .atTag
    rw [receiveTimes, receiveTimes, hgot, ih hrest]

theorem receiveAll_congr (c : Codec) (end? : StreamEnd) (keepOn : Bool) (n : Nat) :
    receiveAll c end? keepOn n chunks = receiveAll c end? keepOn n chunks' := by
  induction n generalizing chunks chunks' with
  | zero => rfl
  | succ n ih =>
    obtain ⟨hgot, hrest⟩ := receive_congr h c end? .atTag
    simp only [receiveAll]
    cases hleft : receive c end? .atTag chunks with
    | mk got rest =>
      cases hright : receive c end? .atTag chunks' with
      | mk got' rest' =>
        rw [hleft, hright] at hgot hrest
        cases hgot
        cases got <;> simp only [ih hrest]

end Chunks

/-- **Streams.** A stream of chunks that ends gives its receiver the same results, as often as it
asks, as any other chunks of the same bytes; and the first result is what the codec makes of the
bytes as a whole. -/
theorem stream_agrees_with_decoding (c : Codec) (chunks : List Bytes) :
    (∀ chunks' : List Bytes, chunks'.flatten = chunks.flatten → ∀ n,
        receiveTimes c n chunks' = receiveTimes c n chunks ∧
          ∀ keepOn, receiveAll c none keepOn n chunks' = receiveAll c none keepOn n chunks) ∧
      FrameReader.Agrees c chunks.flatten (receive c none .atTag chunks).1
        (receive c none .atTag chunks).2.flatten := by
  refine ⟨fun chunks' h n => ⟨?_, fun keepOn => ?_⟩, ?_⟩
  · exact receiveTimes_congr h c n
  · exact receiveAll_congr h c none keepOn n
  · obtain ⟨hgot, hrest⟩ := receive_eq_feed c none .atTag chunks
    rw [hgot, hrest]
    exact FrameReader.feed_agrees c chunks.flatten

end SharedClipboard

import SharedClipboard.Packet.Sink
import SharedClipboard.Proofs.Packet.Stream

/-!
# A stream that is cut off

**Theorem (`cut_stream_is_received`).** Packets are sent to a sink that takes so many bytes, a few
at a time or all at once, and then fails. What was written are the first bytes of the stream of all
the packets, sending succeeds exactly for the packets that lie wholly within them, and a receiver of
these bytes gets exactly those packets, in order, and then the end of the stream or a lost
connection.

A sink with room for `n` more bytes takes the first `n` of what it is offered, whatever the sizes in
which it takes them (`writeAll_eq`). Every packet has at least a tag, so a sink that could not take
a packet has no room for the ones after it, and the packets that were taken are the first ones
(`sendAll_eq`). On the other side the reader stops within the packet that was cut: had it finished
with some bytes of it, it would have left the others unread, but it reads the whole packet
(`feed_of_cut`).
-/

namespace SharedClipboard

namespace Packet

/-- The bytes of some packets, one after the other. -/
def stream (ps : List Packet) : Bytes := ps.flatMap encode

@[simp] theorem stream_nil : stream [] = [] := rfl

@[simp] theorem stream_cons (p : Packet) (ps : List Packet) :
    stream (p :: ps) = p.encode ++ stream ps := rfl

/-- A packet has at least a tag. -/
theorem length_encode_pos (p : Packet) : 0 < p.encode.length := by
  rw [encode, List.length_cons]
  exact Nat.succ_pos _

/-- How many packets lie wholly within the first `n` bytes of their stream. -/
def wholeWithin (n : Nat) : List Packet → Nat
  | [] => 0
  | p :: ps => if p.encode.length ≤ n then wholeWithin (n - p.encode.length) ps + 1 else 0

theorem wholeWithin_le (n : Nat) (ps : List Packet) : wholeWithin n ps ≤ ps.length := by
  induction ps generalizing n with
  | nil => exact Nat.le_refl 0
  | cons p ps ih =>
    rw [wholeWithin, List.length_cons]
    split
    · exact Nat.succ_le_succ (ih _)
    · exact Nat.zero_le _

theorem wholeWithin_zero (ps : List Packet) : wholeWithin 0 ps = 0 := by
  cases ps with
  | nil => rfl
  | cons p ps => exact if_neg (Nat.not_le.2 p.length_encode_pos)

/-- The packet at a place is among those that lie wholly within the first `n` bytes exactly when the
stream up to its end is that short. -/
theorem lt_wholeWithin_iff {n i : Nat} {ps : List Packet} (hi : i < ps.length) :
    i < wholeWithin n ps ↔ (stream (ps.take (i + 1))).length ≤ n := by
  induction ps generalizing n i with
  | nil => cases hi
  | cons p ps ih =>
    rw [wholeWithin, List.take_succ_cons, stream_cons, List.length_append]
    by_cases hp : p.encode.length ≤ n
    · rw [if_pos hp]
      cases i with
      | zero => simpa using hp
      | succ i =>
        rw [Nat.succ_lt_succ_iff, ih (Nat.lt_of_succ_lt_succ hi)]
        omega
    · rw [if_neg hp]
      omega

end Packet

open Packet (stream wholeWithin)

/-! ## Writing -/

namespace Sink

/-- A sink that takes `n` bytes and then fails. The grains bound how many it takes at a time. -/
def failingAfter (n : Nat) (grains : List Nat) (fault : Option IoError) : Sink :=
  { budget := some n, grains, fault }

/-- The sink after it was offered some bytes with room for `n`: it took as many as there was room
for. In how many pieces it took them shows only in the grains that are left. -/
def offered (s : Sink) (n : Nat) (b : Bytes) (grains : List Nat) : Sink :=
  { s with budget := some (n - b.length), grains, written := s.written ++ b.take n }

theorem takes_le {s : Sink} {n : Nat} (hs : s.budget = some n) (m : Nat) :
    s.takes m ≤ m ∧ s.takes m ≤ n := by
  unfold takes
  rw [hs]
  cases s.grains with
  | nil => simp only; omega
  | cons g gs => simp only; omega

theorem takes_pos {s : Sink} {n m : Nat} (hs : s.budget = some n) (hm : 0 < m) :
    0 < s.takes m ↔ 0 < n := by
  unfold takes
  rw [hs]
  cases s.grains with
  | nil => simp only; omega
  | cons g gs => simp only; omega

/-- A sink with room for `n` bytes takes the first `n` of what it is offered, and that is a success
if there are no more. -/
theorem writeAll_eq {s : Sink} {n : Nat} (hs : s.budget = some n) (b : Bytes) :
    ∃ grains, s.writeAll b =
      (if b.length ≤ n then .ok () else .error s.failure, s.offered n b grains) := by
  -- By the recursion of `writeAll`: nothing is left, the sink takes a part, or it takes no more.
  fun_induction writeAll s b generalizing n with
  | case1 s b hempty =>
    rw [List.isEmpty_iff] at hempty
    subst hempty
    exact ⟨s.grains, by simp [offered, ← hs]⟩
  | case2 s b hne k hk =>
    rename_i ih
    obtain ⟨hle, hroom⟩ : k ≤ b.length ∧ k ≤ n := takes_le hs b.length
    have hlength : (b.take k).length = k := List.length_take_of_le hle
    obtain ⟨grains, hrest⟩ := ih (n := n - k) (by simp [took, hs, hlength])
    refine ⟨grains, hrest.trans (Prod.ext ?_ ?_)⟩
    · show (if (b.drop k).length ≤ n - k then _ else _) = if b.length ≤ n then _ else _
      rw [List.length_drop]
      have hiff : b.length - k ≤ n - k ↔ b.length ≤ n := by omega
      simp only [hiff]
      rfl
    · have hroom' : n - k - (b.length - k) = n - b.length := by omega
      have hbytes : b.take k ++ (b.drop k).take (n - k) = b.take n := by
        rw [← List.take_add, Nat.add_sub_cancel' hroom]
      simp only [offered, took, List.length_drop, hroom', List.append_assoc, hbytes]
  | case3 s b hne k =>
    rename_i hk
    have hpos : 0 < b.length := List.length_pos_iff.2 (by simpa using hne)
    have hfull : n = 0 := Nat.eq_zero_of_not_pos (mt (takes_pos hs hpos).2 hk)
    subst hfull
    refine ⟨s.grains, Prod.ext ?_ ?_⟩
    · exact (if_neg (Nat.not_le.2 hpos)).symm
    · simp [offered, ← hs]

/-- Of packets sent in order, as many are taken as lie wholly within what the sink has room for, and
all others fail. -/
theorem sendAll_eq {s : Sink} {n : Nat} (hs : s.budget = some n) (ps : List Packet) :
    (s.sendAll ps).1 = List.replicate (wholeWithin n ps) (.ok ()) ++
        List.replicate (ps.length - wholeWithin n ps) (.error s.failure) ∧
      (s.sendAll ps).2.written = s.written ++ (stream ps).take n := by
  induction ps generalizing s n with
  | nil => exact ⟨rfl, by simp [sendAll]⟩
  | cons p ps ih =>
    obtain ⟨grains, hsend⟩ := writeAll_eq hs p.encode
    obtain ⟨hresults, hwritten⟩ := ih (s := s.offered n p.encode grains) rfl
    have hfailure : (s.offered n p.encode grains).failure = s.failure := rfl
    rw [hfailure] at hresults
    simp only [sendAll, send, hsend, hresults, hwritten]
    constructor
    · rw [wholeWithin]
      by_cases hp : p.encode.length ≤ n
      · rw [if_pos hp, if_pos hp, List.replicate_succ, List.cons_append, List.length_cons,
          Nat.succ_sub_succ]
      · rw [if_neg hp, if_neg hp, Nat.sub_eq_zero_of_le (Nat.le_of_not_le hp),
          Packet.wholeWithin_zero]
        rfl
    · rw [Packet.stream_cons, List.take_append, ← List.append_assoc]
      rfl

end Sink

/-! ## Reading -/

namespace FrameReader

variable {c : Codec}

theorem ne_atTag_of_nextField {r : FrameReader} {frame : Bytes} {left : Nat}
    (h : nextField c frame left = .more r) : r ≠ .atTag := by
  cases left with
  | zero => cases h
  | succ left =>
    cases h
    simp

theorem ne_atTag_of_push {r r' : FrameReader} {b : UInt8} (h : r.push c b = .more r') :
    r' ≠ .atTag := by
  unfold push at h
  split at h
  · split at h
    · cases h
    · exact ne_atTag_of_nextField h
  · simp only at h
    split at h
    · cases h
    · split at h
      · exact ne_atTag_of_nextField h
      · cases h
        simp
  · cases h
    simp
  · exact ne_atTag_of_nextField h
  · cases h
    simp

/-- A reader that has read something of a frame and waits is within the frame. -/
theorem ne_atTag_of_feed {r r' : FrameReader} {b : Bytes} (hb : b ≠ [])
    (h : (r.feed c b).1 = .more r') : r' ≠ .atTag := by
  induction b generalizing r with
  | nil => exact absurd rfl hb
  | cons x b ih =>
    rw [feed_cons] at h
    cases hp : r.push c x with
    | done got =>
      rw [hp] at h
      cases h
    | more r'' =>
      rw [hp] at h
      cases b with
      | nil =>
        cases h
        exact ne_atTag_of_push hp
      | cons y b => exact ih (by simp) h

/-- The reader waits within a packet that was cut off. -/
theorem feed_of_cut {p : Packet} (h : c.Fits p) {read missing : Bytes}
    (hp : p.encode = read ++ missing) (hmissing : missing ≠ []) :
    ∃ r, atTag.feed c read = (.more r, []) ∧ (read ≠ [] → r ≠ .atTag) := by
  cases hfed : atTag.feed c read with
  | mk progress rest =>
    cases progress with
    | more r =>
      have hrest := rest_of_more (r := atTag) (b := read) (c := c) (by rw [hfed])
      rw [hfed] at hrest
      cases hrest
      exact ⟨r, rfl, fun hread => ne_atTag_of_feed hread (by rw [hfed])⟩
    | done got =>
      have hwhole := feed_encode h []
      rw [List.append_nil, hp, feed_append, hfed] at hwhole
      have hnone : rest ++ missing = [] := congrArg Prod.snd hwhole
      exact absurd (List.append_eq_nil_iff.1 hnone).2 hmissing

end FrameReader

theorem receiveAll_of_packet {c : Codec} {chunks : List Bytes} {p : Packet}
    (h : (receive c none .atTag chunks).1 = .packet p) (keepOn : Bool) (m : Nat) :
    receiveAll c none keepOn (m + 1) chunks =
      .packet p :: receiveAll c none keepOn m (receive c none .atTag chunks).2 := by
  rw [receiveAll]
  cases hreceived : receive c none .atTag chunks with
  | mk got rest =>
    rw [hreceived] at h
    cases h
    rfl

/-- A receiver stops at the first thing that is not a packet. -/
theorem receiveAll_of_last {c : Codec} {chunks : List Bytes} {got : Received}
    (h : (receive c none .atTag chunks).1 = got) (hlast : ∀ p, got ≠ .packet p) (m : Nat) :
    receiveAll c none false (m + 1) chunks = [got] := by
  rw [receiveAll]
  cases hreceived : receive c none .atTag chunks with
  | mk got' rest =>
    rw [hreceived] at h
    cases h
    cases got' with
    | packet p => exact absurd rfl (hlast p)
    | finished | undecodable _ | failed _ => rfl

/-- What a receiver gets after the last whole packet. -/
def afterWhole (whole written : Bytes) : Received :=
  if written = whole then .finished else .failed .closed

theorem afterWhole_append (b whole written : Bytes) :
    afterWhole (b ++ whole) (b ++ written) = afterWhole whole written := by
  simp [afterWhole]

theorem afterWhole_ne_packet (whole written : Bytes) (p : Packet) :
    afterWhole whole written ≠ .packet p := by
  unfold afterWhole
  split <;> simp

/-- A stream that ends within its first packet, or before it, gives its receiver no packet. -/
theorem receive_of_cut {c : Codec} {p : Packet} (h : c.Fits p) {n : Nat}
    (hn : ¬ p.encode.length ≤ n) {chunks : List Bytes}
    (hchunks : chunks.flatten = p.encode.take n) :
    (receive c none .atTag chunks).1 = afterWhole [] (p.encode.take n) := by
  have hmissing : p.encode.drop n ≠ [] := by
    rw [Ne, List.drop_eq_nil_iff]
    exact hn
  obtain ⟨r, hfed, hwithin⟩ :=
    FrameReader.feed_of_cut h (List.take_append_drop n p.encode).symm hmissing
  rw [(receive_eq_feed c none .atTag chunks).1, hchunks, afterWhole]
  by_cases hread : p.encode.take n = []
  · rw [if_pos hread, hread]
    rfl
  · rw [if_neg hread, hfed]
    exact FrameReader.atEnd_of_ne (hwithin hread)

/-- A receiver of the first `n` bytes of a stream gets the packets that lie wholly within them. -/
theorem receiveAll_cut {c : Codec} {ps : List Packet} (hfits : ∀ p ∈ ps, c.Fits p) (n : Nat)
    {m : Nat} (hm : wholeWithin n ps < m) {chunks : List Bytes}
    (hchunks : chunks.flatten = (stream ps).take n) :
    receiveAll c none false m chunks = (ps.take (wholeWithin n ps)).map .packet ++
      [afterWhole (stream (ps.take (wholeWithin n ps))) ((stream ps).take n)] := by
  obtain ⟨m, rfl⟩ := Nat.exists_eq_succ_of_ne_zero (Nat.ne_zero_of_lt hm)
  -- Packet by packet: the first lies within the cut and is received, or the cut goes through it.
  induction ps generalizing n m chunks with
  | nil =>
    have hempty : chunks.flatten = [] := by rw [hchunks, Packet.stream_nil, List.take_nil]
    refine receiveAll_of_last (Eq.trans ?_ (if_pos List.take_nil).symm) (afterWhole_ne_packet _ _) m
    rw [(receive_eq_feed c none .atTag chunks).1, hempty]
    rfl
  | cons p ps ih =>
    rw [List.forall_mem_cons] at hfits
    rw [Packet.stream_cons, List.take_append] at hchunks ⊢
    rw [wholeWithin] at hm ⊢
    by_cases hp : p.encode.length ≤ n
    · rw [if_pos hp] at hm ⊢
      rw [List.take_of_length_le hp] at hchunks ⊢
      obtain ⟨hgot, hrest⟩ := receive_eq_feed c none .atTag chunks
      rw [hchunks, FrameReader.feed_encode hfits.1] at hgot hrest
      have hfew : wholeWithin (n - p.encode.length) ps < m := Nat.lt_of_succ_lt_succ hm
      obtain ⟨m, rfl⟩ := Nat.exists_eq_succ_of_ne_zero (Nat.ne_zero_of_lt hfew)
      rw [receiveAll_of_packet hgot, ih hfits.2 _ hrest m hfew, List.take_succ_cons,
        Packet.stream_cons, afterWhole_append]
      rfl
    · rw [if_neg hp]
      have hnone : (stream ps).take (n - p.encode.length) = [] := by
        rw [Nat.sub_eq_zero_of_le (Nat.le_of_not_le hp), List.take_zero]
      rw [hnone, List.append_nil] at hchunks ⊢
      exact receiveAll_of_last (receive_of_cut hfits.1 hp hchunks) (afterWhole_ne_packet _ _) m

/-! ## From one side to the other -/

/-- **A stream that is cut off.** Packets whose fields are within the bound are sent to a sink that
takes `n` bytes, in pieces of any size, and then fails or takes no more. The first `n` bytes of the
stream are written. Sending succeeds exactly for the packets that lie wholly within them, which are
the first ones, and fails with what the sink reports for the others. A receiver of these bytes, in
any chunks, gets those packets in order, and then the end of the stream if it was cut between two
packets and a lost connection if not. -/
theorem cut_stream_is_received (c : Codec) {ps : List Packet} (hfits : ∀ p ∈ ps, c.Fits p)
    (n : Nat) (grains : List Nat) (fault : Option IoError) :
    ((Sink.failingAfter n grains fault).sendAll ps).2.written = (stream ps).take n ∧
      ∃ k ≤ ps.length,
        (∀ i < ps.length, i < k ↔ (stream (ps.take (i + 1))).length ≤ n) ∧
        ((Sink.failingAfter n grains fault).sendAll ps).1 = List.replicate k (.ok ()) ++
          List.replicate (ps.length - k) (.error (.ofIo (fault.getD (.plain .writeZero)))) ∧
        ∀ chunks : List Bytes, chunks.flatten = (stream ps).take n → ∀ m > k,
          receiveAll c none false m chunks = (ps.take k).map .packet ++
            [if (stream ps).take n = stream (ps.take k) then .finished else .failed .closed] := by
  obtain ⟨hresults, hwritten⟩ := Sink.sendAll_eq (s := .failingAfter n grains fault) rfl ps
  exact ⟨hwritten, wholeWithin n ps, Packet.wholeWithin_le n ps,
    fun i hi => Packet.lt_wholeWithin_iff hi, hresults,
    fun chunks hchunks m hm => receiveAll_cut hfits n hm hchunks⟩

/-- A clipboard content, a ping and a challenge. -/
def threePackets : List Packet :=
  [.syncRequest "text/plain" [1, 2, 3], .ping, .challengeRequest (List.replicate 32 7)]

/-- A sink that takes one byte, three, and then all there is room for fails within the challenge:
its receiver gets the content, the ping and a lost connection. -/
theorem cut_stream_is_received_torn :
    (∀ p ∈ threePackets, Codec.default.Fits p) ∧
      ((Sink.failingAfter 30 [0, 2] none).sendAll threePackets).1 =
        [.ok (), .ok (), .error (.ioFailure "write zero")] ∧
      receiveAll Codec.default none false 9
          [(stream threePackets).take 7, ((stream threePackets).take 30).drop 7] =
        [.packet (.syncRequest "text/plain" [1, 2, 3]), .packet .ping, .failed .closed] := by
  have hfits : ∀ p ∈ threePackets, Codec.default.Fits p := by decide +kernel
  obtain ⟨-, k, hle, hwhole, hresults, hreceived⟩ :=
    cut_stream_is_received Codec.default hfits 30 [0, 2] none
  have htwo : 1 < k := (hwhole 1 (by decide)).2 (by decide +kernel)
  have hcut : ¬ 2 < k := mt (hwhole 2 (by decide)).1 (by decide +kernel)
  obtain rfl : k = 2 := by omega
  refine ⟨hfits, hresults, (hreceived _ (by decide +kernel) 9 (by decide)).trans ?_⟩
  decide +kernel

end SharedClipboard

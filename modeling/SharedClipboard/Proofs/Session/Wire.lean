import SharedClipboard.Session.Task
import Mathlib.Data.List.Infix

/-!
# What a writer writes

**Theorem (`writes_what_is_queued`).** Whenever frames are put into the outbox of a session,
whenever the session ends and wherever a write fails, the bytes that its writer has written are the
frames that were put into the outbox, in their order, up to a part of the next one. When the writer
stops without a failed write it has written them all, and it comes to those that were put in before
the end of the session within a number of steps that is known. It has reported the updates of the
frames that were complete when it took up the end of the session, each once.

A `Desk` is a writer with its outbox, and it keeps the books: what was put in (`queued`), what went
out (`wire`), and how many frames are complete (`done`). The end of the session reaches the writer
between two frames. It may be taken up while frames still wait (`Desk.heed`), because the writer
waits for a frame and for the end at once. `Desk.Sound` is the invariant: what is not complete of
what was put in is the frame that is under way and the outbox behind it.
-/

namespace SharedClipboard

/-- The bytes of frames, one after another. -/
def Outgoing.frames (xs : List Outgoing) : Bytes := xs.flatMap (·.frame)

open Outgoing (frames)

theorem Outgoing.frames_append (xs ys : List Outgoing) :
    frames (xs ++ ys) = frames xs ++ frames ys :=
  List.flatMap_append

theorem Outgoing.frames_mono {xs ys : List Outgoing} (h : xs <+: ys) : frames xs <+: frames ys := by
  obtain ⟨zs, rfl⟩ := h
  rw [frames_append]
  exact List.prefix_append _ _

namespace Writer

/-- What is left of the frame that is under way. -/
def rest? : Writer → Option Bytes
  | writing rest _ | drainingFrame rest => some rest
  | idle | draining | finished | failed => none

/-- The writer has taken up that the session ended. -/
def drains : Writer → Bool
  | draining | drainingFrame _ | finished => true
  | idle | writing _ _ | failed => false

end Writer

/-- A writer with its outbox, and what became of the frames. -/
structure Desk where
  writer : Writer := .idle
  outbox : Outbox
  /-- The session has ended. -/
  ended : Bool := false
  /-- The frames that were put into the outbox. -/
  queued : List Outgoing := []
  /-- The bytes that were written. -/
  wire : Bytes := []
  /-- How many frames are written completely. -/
  done : Nat := 0
  /-- The updates that were reported as written. -/
  reported : List Nat := []
  /-- How many frames were written completely when the writer took up the end of the session. -/
  signal : Option Nat := none
  /-- A write failed. -/
  failure : Bool := false
  deriving DecidableEq, Repr, Inhabited

namespace Desk

/-- A desk with an empty outbox. -/
def fresh (capacity : Nat) : Desk := { outbox := { capacity } }

/-- Puts a frame into the outbox, if there is room for it. -/
def queue (d : Desk) (x : Outgoing) : Desk :=
  if d.outbox.room = .free then { d with outbox := d.outbox.push x, queued := d.queued ++ [x] }
  else d

/-- The writer makes its next step, if it does not have to wait. -/
def work (d : Desk) (intake : Intake) : Desk :=
  match d.writer.step d.outbox d.ended intake with
  | none => d
  | some t =>
    { d with
      writer := t.writer
      outbox := t.outbox
      wire := d.wire ++ t.written
      done := if d.writer.rest? = some [] then d.done + 1 else d.done
      reported := d.reported ++ t.flushed.toList
      signal := if t.writer.drains then d.signal.or (some d.done) else d.signal
      failure := d.failure || (t.writer.stopped && d.writer.rest?.isSome) }

/-- The writer takes up the end of the session, whether frames still wait or not. -/
def heed (d : Desk) : Desk :=
  if d.ended then
    match d.writer.heed with
    | some w => { d with writer := w, signal := some d.done }
    | none => d
  else d

/-- What happens at a desk. -/
inductive Move where
  | queue (x : Outgoing)
  /-- The session ends. -/
  | close
  | work (intake : Intake)
  | heed
  deriving DecidableEq, Repr, Inhabited

def move (d : Desk) : Move → Desk
  | .queue x => d.queue x
  | .close => { d with ended := true }
  | .work intake => d.work intake
  | .heed => d.heed

/-- The desk after all of this. -/
def after (d : Desk) (ms : List Move) : Desk := ms.foldl move d

variable {d d' : Desk} {part rest : Bytes} {intake : Intake} {t : Writer.Turn} {x : Outgoing}
  {xs : List Outgoing} {n : Nat}

theorem after_append (d : Desk) (ms ms' : List Move) :
    d.after (ms ++ ms') = (d.after ms).after ms' := List.foldl_append

theorem work_of_none (h : d.writer.step d.outbox d.ended intake = none) : d.work intake = d := by
  simp only [work, h]

theorem work_of_some (h : d.writer.step d.outbox d.ended intake = some t) : d.work intake =
    { d with
      writer := t.writer
      outbox := t.outbox
      wire := d.wire ++ t.written
      done := if d.writer.rest? = some [] then d.done + 1 else d.done
      reported := d.reported ++ t.flushed.toList
      signal := if t.writer.drains then d.signal.or (some d.done) else d.signal
      failure := d.failure || (t.writer.stopped && d.writer.rest?.isSome) } := by
  simp only [work, h]

theorem heed_cases (d : Desk) : d.heed = d ∨
    d.writer = .idle ∧ d.heed = { d with writer := .draining, signal := some d.done } := by
  unfold heed
  split
  · cases hw : d.writer <;> first | exact .inr ⟨rfl, rfl⟩ | exact .inl rfl
  · exact .inl rfl

/-! ## What is on the wire -/

/-- Where the frames are that are not complete, of which `part` is written. -/
def Coming (d : Desk) (part : Bytes) : Prop :=
  match d.writer with
  | .idle | .draining => d.failure = false ∧ part = [] ∧ d.queued.drop d.done = d.outbox.queue
  | .writing rest seq =>
    d.failure = false ∧ d.queued.drop d.done = ⟨part ++ rest, seq⟩ :: d.outbox.queue
  | .drainingFrame rest =>
    d.failure = false ∧ ∃ seq, d.queued.drop d.done = ⟨part ++ rest, seq⟩ :: d.outbox.queue
  | .finished | .failed =>
    d.outbox.closed = true ∧
      (d.failure = false → part = [] ∧ d.queued.drop d.done = []) ∧
      (d.failure = true → ∃ rest seq lost, rest ≠ [] ∧
        d.queued.drop d.done = ⟨part ++ rest, seq⟩ :: lost)

/-- The books are right. -/
structure Sound (d : Desk) (part : Bytes) : Prop where
  done_le : d.done ≤ d.queued.length
  wire_eq : d.wire = frames (d.queued.take d.done) ++ part
  reported_eq : d.reported = (d.queued.take (d.signal.getD d.done)).filterMap (·.seq)
  signal_le : d.signal.getD d.done ≤ d.done
  signal_isSome : d.signal.isSome = d.writer.drains
  coming : d.Coming part

theorem coming_of_drainingFrame (seq : Option Nat) (hw : d.writer = .drainingFrame rest)
    (hgood : d.failure = false)
    (hdrop : d.queued.drop d.done = ⟨part ++ rest, seq⟩ :: d.outbox.queue) : d.Coming part := by
  simp only [Coming, hw]
  exact ⟨hgood, seq, hdrop⟩

theorem sound_fresh (capacity : Nat) : (fresh capacity).Sound [] where
  done_le := Nat.le_refl 0
  wire_eq := rfl
  reported_eq := rfl
  signal_le := Nat.le_refl 0
  signal_isSome := rfl
  coming := ⟨rfl, rfl, rfl⟩

theorem take_succ_of_drop {xs ys : List Outgoing} (h : xs.drop n = x :: ys) :
    xs.take (n + 1) = xs.take n ++ [x] ∧ xs.drop (n + 1) = ys ∧ n + 1 ≤ xs.length := by
  have hlt : n < xs.length := by
    have hlen := congrArg List.length h
    simp only [List.length_drop, List.length_cons] at hlen
    omega
  rw [List.drop_eq_getElem_cons hlt, List.cons.injEq] at h
  exact ⟨by rw [List.take_succ_eq_append_getElem hlt, h.1], h.2, hlt⟩

theorem Sound.queue (h : d.Sound part) (x : Outgoing) : (d.queue x).Sound part := by
  unfold Desk.queue
  split
  · rename_i hroom
    have hle := h.done_le
    have hsignal := h.signal_le
    refine ⟨?_, ?_, ?_, h.signal_le, h.signal_isSome, ?_⟩
    · exact hle.trans (List.length_append ▸ Nat.le_add_right _ _)
    · rw [List.take_append_of_le_length hle]
      exact h.wire_eq
    · rw [List.take_append_of_le_length (hsignal.trans hle)]
      exact h.reported_eq
    · have hcoming := h.coming
      have hopen : d.outbox.closed = false := by
        cases hc : d.outbox.closed with
        | false => rfl
        | true => simp [Outbox.room, hc] at hroom
      have hpush : (d.outbox.push x).queue = d.outbox.queue ++ [x] := by simp [Outbox.push, hroom]
      unfold Coming at hcoming ⊢
      simp only [List.drop_append_of_le_length hle, hpush]
      split at hcoming
      · obtain ⟨hgood, hpart, hdrop⟩ := hcoming
        exact ⟨hgood, hpart, by rw [hdrop]⟩
      · obtain ⟨hgood, hpart, hdrop⟩ := hcoming
        exact ⟨hgood, hpart, by rw [hdrop]⟩
      · obtain ⟨hgood, hdrop⟩ := hcoming
        exact ⟨hgood, by rw [hdrop]; rfl⟩
      · obtain ⟨hgood, seq, hdrop⟩ := hcoming
        exact ⟨hgood, seq, by rw [hdrop]; rfl⟩
      · rw [hopen] at hcoming
        cases hcoming.1
      · rw [hopen] at hcoming
        cases hcoming.1
  · exact h

theorem Sound.heed (h : d.Sound part) : d.heed.Sound part := by
  obtain heq | ⟨hidle, heq⟩ := d.heed_cases
  · rwa [heq]
  · have hcoming := h.coming
    have hreported := h.reported_eq
    have hsignal := h.signal_isSome
    simp only [Coming, hidle] at hcoming
    rw [hidle, Writer.drains, Option.isSome_eq_false_iff, Option.isNone_iff_eq_none] at hsignal
    rw [hsignal] at hreported
    rw [heq]
    exact ⟨h.done_le, h.wire_eq, hreported, Nat.le_refl _, rfl, hcoming⟩

/-- The writer goes on with the frame that is under way, or takes up the next one. -/
theorem Sound.goes_on (h : d.Sound part) {bs : Bytes} (hqueued : d'.queued = d.queued)
    (hdone : d'.done = d.done) (hreported : d'.reported = d.reported)
    (hsignal : d'.signal = d.signal) (hdrains : d'.writer.drains = d.writer.drains)
    (hwire : d'.wire = d.wire ++ bs) (hcoming : d'.Coming (part ++ bs)) :
    d'.Sound (part ++ bs) where
  done_le := by rw [hdone, hqueued]; exact h.done_le
  wire_eq := by rw [hwire, hqueued, hdone, h.wire_eq, List.append_assoc]
  reported_eq := by rw [hreported, hqueued, hsignal, hdone]; exact h.reported_eq
  signal_le := by rw [hsignal, hdone]; exact h.signal_le
  signal_isSome := by rw [hsignal, hdrains]; exact h.signal_isSome
  coming := hcoming

/-- The frame that is under way is complete. It is reported unless the writer has taken up the end
of the session. -/
theorem Sound.completes (h : d.Sound part) {seq : Option Nat}
    (hdrop : d.queued.drop d.done = ⟨part, seq⟩ :: xs) (hqueued : d'.queued = d.queued)
    (hdone : d'.done = d.done + 1)
    (hreported : d'.reported = d.reported ++ if d.writer.drains then [] else seq.toList)
    (hsignal : d'.signal = d.signal) (hdrains : d'.writer.drains = d.writer.drains)
    (hwire : d'.wire = d.wire)
    (hcoming : d'.queued.drop d'.done = xs → d'.Coming []) : d'.Sound [] := by
  obtain ⟨htake, hrest, hle⟩ := take_succ_of_drop hdrop
  have hsome := h.signal_isSome
  refine ⟨?_, ?_, ?_, ?_, ?_, hcoming ?_⟩
  · rw [hdone, hqueued]
    exact hle
  · rw [hwire, h.wire_eq, hqueued, hdone, htake, Outgoing.frames_append, List.append_nil]
    simp [frames]
  · rw [hreported, h.reported_eq, hqueued, hsignal, hdone]
    -- Reports stop with the signal: before it the frame is reported, afterwards it is not.
    cases hs : d.signal with
    | none =>
      rw [hs] at hsome
      simp only [Option.getD_none, htake, List.filterMap_append, ← hsome, Option.isSome_none,
        Bool.false_eq_true, if_false]
      cases seq <;> rfl
    | some n =>
      rw [hs] at hsome
      simp [← hsome]
  · rw [hsignal, hdone]
    have hold := h.signal_le
    cases hs : d.signal with
    | none => exact Nat.le_refl _
    | some n =>
      rw [hs] at hold
      exact Nat.le_succ_of_le hold
  · rw [hsignal, hdrains]
    exact hsome
  · rw [hqueued, hdone]
    exact hrest

theorem Sound.signal_or (h : d.Sound part) (hdrains : d.writer.drains = true) (n : Nat) :
    d.signal.or (some n) = d.signal := by
  have hsome := h.signal_isSome
  rw [hdrains] at hsome
  obtain ⟨m, hm⟩ := Option.isSome_iff_exists.1 hsome
  rw [hm]
  rfl

theorem Sound.work (h : d.Sound part) (intake : Intake) : ∃ part', (d.work intake).Sound part' := by
  have hcoming := h.coming
  unfold Coming at hcoming
  -- A step completes the frame under way or goes on with it; what is taken out last is lost.
  cases hw : d.writer with
  | idle =>
    simp only [hw] at hcoming
    obtain ⟨hgood, rfl, hdrop⟩ := hcoming
    cases hq : d.outbox.queue with
    | nil =>
      by_cases hended : d.ended = true
      · have hheed : d.work intake = d.heed := by
          have hnone := h.signal_isSome
          rw [hw, Writer.drains, Option.isSome_eq_false_iff, Option.isNone_iff_eq_none] at hnone
          simp [Desk.work, Desk.heed, Writer.step, Writer.heed, hw, hq, hended, Writer.drains,
            Writer.rest?, hnone]
        exact ⟨[], hheed ▸ h.heed⟩
      · refine ⟨[], ?_⟩
        rw [work_of_none (by simp [Writer.step, hw, hq, hended])]
        exact h
    | cons x xs =>
      refine ⟨[] ++ [], h.goes_on ?_ ?_ ?_ ?_ ?_ ?_ ?_⟩
      all_goals simp [Desk.work, Writer.step, hw, hq, Writer.drains, Writer.rest?, Coming, hgood,
        Writer.stopped, hdrop]
  | writing rest seq =>
    simp only [hw] at hcoming
    obtain ⟨hgood, hdrop⟩ := hcoming
    cases rest with
    | nil =>
      rw [List.append_nil] at hdrop
      refine ⟨[], h.completes hdrop ?_ ?_ ?_ ?_ ?_ ?_ ?_⟩
      all_goals simp [Desk.work, Writer.step, hw, Writer.drains, Writer.rest?, Coming, hgood,
        Writer.stopped]
    | cons b bs =>
      cases intake with
      | upTo n =>
        cases n with
        | zero =>
          refine ⟨part, ?_⟩
          rw [work_of_none (by rw [hw]; rfl)]
          exact h
        | succ n =>
          refine ⟨part ++ (b :: bs).take (n + 1), h.goes_on ?_ ?_ ?_ ?_ ?_ ?_ ?_⟩
          all_goals simp [Desk.work, Writer.step, hw, Writer.drains, Writer.rest?, Coming, hgood,
            Writer.stopped, hdrop]
      | fails e =>
        refine ⟨part ++ [], h.goes_on ?_ ?_ ?_ ?_ ?_ ?_ ?_⟩
        all_goals simp [Desk.work, Writer.step, hw, Writer.drains, Writer.rest?, Coming,
          Writer.stopped, hdrop, Outbox.close]
  | draining =>
    simp only [hw] at hcoming
    obtain ⟨hgood, rfl, hdrop⟩ := hcoming
    have hsignal := h.signal_or (by rw [hw]; rfl)
    cases hq : d.outbox.queue with
    | nil =>
      refine ⟨[] ++ [], h.goes_on ?_ ?_ ?_ ?_ ?_ ?_ ?_⟩
      all_goals simp [Desk.work, Writer.step, hw, hq, Writer.drains, Writer.rest?, Coming, hgood,
        Writer.stopped, hdrop, Outbox.close, hsignal]
    | cons x xs =>
      refine ⟨[] ++ [], h.goes_on ?_ ?_ ?_ ?_ ?_ ?_
        (coming_of_drainingFrame x.seq (by simp [Desk.work, Writer.step, hw, hq]; rfl) ?_ ?_)⟩
      all_goals simp [Desk.work, Writer.step, hw, hq, Writer.drains, Writer.rest?, hgood,
        Writer.stopped, hdrop, hsignal]
  | drainingFrame rest =>
    simp only [hw] at hcoming
    obtain ⟨hgood, seq, hdrop⟩ := hcoming
    have hsignal := h.signal_or (by rw [hw]; rfl)
    cases rest with
    | nil =>
      rw [List.append_nil] at hdrop
      refine ⟨[], h.completes hdrop ?_ ?_ ?_ ?_ ?_ ?_ ?_⟩
      all_goals simp [Desk.work, Writer.step, hw, Writer.drains, Writer.rest?, Coming, hgood,
        Writer.stopped, hsignal]
    | cons b bs =>
      cases intake with
      | upTo n =>
        cases n with
        | zero =>
          refine ⟨part, ?_⟩
          rw [work_of_none (by rw [hw]; rfl)]
          exact h
        | succ n =>
          refine ⟨part ++ (b :: bs).take (n + 1), h.goes_on ?_ ?_ ?_ ?_ ?_ ?_
            (coming_of_drainingFrame seq (by simp [Desk.work, Writer.step, hw]; rfl) ?_ ?_)⟩
          all_goals simp [Desk.work, Writer.step, hw, Writer.drains, Writer.rest?, hgood,
            Writer.stopped, hdrop, hsignal]
      | fails e =>
        refine ⟨part ++ [], h.goes_on ?_ ?_ ?_ ?_ ?_ ?_ ?_⟩
        all_goals simp [Desk.work, Writer.step, hw, Writer.drains, Writer.rest?, Coming,
          Writer.stopped, hdrop, Outbox.close, hsignal]
  | finished =>
    refine ⟨part, ?_⟩
    rw [work_of_none (by rw [hw]; rfl)]
    exact h
  | failed =>
    refine ⟨part, ?_⟩
    rw [work_of_none (by rw [hw]; rfl)]
    exact h

theorem Sound.move (h : d.Sound part) (m : Move) : ∃ part', (d.move m).Sound part' := by
  cases m with
  | queue x => exact ⟨part, h.queue x⟩
  | close =>
    exact ⟨part, h.done_le, h.wire_eq, h.reported_eq, h.signal_le, h.signal_isSome, h.coming⟩
  | work intake => exact h.work intake
  | heed => exact ⟨part, h.heed⟩

theorem Sound.after (h : d.Sound part) (ms : List Move) : ∃ part', (d.after ms).Sound part' := by
  induction ms generalizing d part with
  | nil => exact ⟨part, h⟩
  | cons m ms ih =>
    obtain ⟨part', h'⟩ := h.move m
    exact ih h'

/-- What is written is a part of the next frame. -/
theorem Sound.part_prefix (h : d.Sound part) :
    part = [] ∨ ∃ x xs, d.queued.drop d.done = x :: xs ∧ part <+: x.frame := by
  have hcoming := h.coming
  unfold Coming at hcoming
  split at hcoming
  · exact .inl hcoming.2.1
  · exact .inl hcoming.2.1
  · exact .inr ⟨_, _, hcoming.2, List.prefix_append _ _⟩
  · obtain ⟨-, seq, hdrop⟩ := hcoming
    exact .inr ⟨_, _, hdrop, List.prefix_append _ _⟩
  all_goals
    obtain ⟨-, hgood, hbad⟩ := hcoming
    cases hf : d.failure with
    | false => exact .inl (hgood hf).1
    | true =>
      obtain ⟨rest, seq, lost, -, hdrop⟩ := hbad hf
      exact .inr ⟨_, _, hdrop, List.prefix_append _ _⟩

/-- A writer that has stopped without a failed write, or is between two frames and finds none in
the outbox, has written everything. -/
theorem Sound.wire_eq_all (h : d.Sound part) (hgood : d.failure = false)
    (hnone : d.writer.stopped = true ∨ (d.writer.rest? = none ∧ d.outbox.queue = [])) :
    d.wire = frames d.queued := by
  have hall : part = [] ∧ d.queued.drop d.done = [] := by
    have hcoming := h.coming
    unfold Coming at hcoming
    cases hw : d.writer with
    | idle | draining =>
      simp only [hw] at hcoming
      obtain hstopped | ⟨-, hqueue⟩ := hnone
      · rw [hw] at hstopped
        cases hstopped
      · exact ⟨hcoming.2.1, hcoming.2.2.trans hqueue⟩
    | writing rest seq | drainingFrame rest =>
      rw [hw] at hnone
      obtain hstopped | ⟨hrest, -⟩ := hnone
      · cases hstopped
      · cases hrest
    | finished | failed =>
      simp only [hw] at hcoming
      exact hcoming.2.1 hgood
  rw [h.wire_eq, hall.1, List.append_nil, List.take_of_length_le (List.drop_eq_nil_iff.1 hall.2)]

/-- Nothing of the frame after the next one is written. -/
theorem Sound.wire_prefix (h : d.Sound part) :
    d.wire <+: frames (d.queued.take (d.done + 1)) := by
  rw [h.wire_eq]
  obtain rfl | ⟨x, xs, hdrop, hpart⟩ := h.part_prefix
  · rw [List.append_nil]
    exact Outgoing.frames_mono (List.take_prefix_take_left (Nat.le_succ _))
  · obtain ⟨htake, -, -⟩ := take_succ_of_drop hdrop
    rw [htake, Outgoing.frames_append]
    refine (List.prefix_append_right_inj _).2 (hpart.trans ?_)
    simp [frames]

/-! ## How long it takes -/

/-- A frame was taken out of the outbox and is not complete. -/
def underWay (d : Desk) : Bool := d.writer.rest?.isSome || d.failure

/-- How much the writer has done: bytes that were written, frames that were taken out of the outbox
and frames that are complete. -/
def effort (d : Desk) : Nat := d.wire.length + 2 * d.done + d.underWay.toNat

theorem effort_le_work (d : Desk) (intake : Intake) : d.effort ≤ (d.work intake).effort := by
  cases hw : d.writer with
  | idle | draining =>
    cases hq : d.outbox.queue with
    | nil =>
      by_cases hended : d.ended = true
      all_goals simp [effort, underWay, Desk.work, Writer.step, hw, hq, hended, Writer.rest?,
        Writer.stopped]
    | cons x xs =>
      simp [effort, underWay, Desk.work, Writer.step, hw, hq, Writer.rest?, Bool.toNat_le]
  | writing rest seq | drainingFrame rest =>
    cases rest with
    | nil =>
      cases hfailure : d.failure
      all_goals simp [effort, underWay, Desk.work, Writer.step, hw, Writer.rest?, Writer.stopped,
        hfailure, Nat.mul_succ, ← Nat.add_assoc]
    | cons b bs =>
      cases intake with
      | upTo n =>
        cases n with
        | zero => rw [work_of_none (by rw [hw]; rfl)]
        | succ n => simp [effort, underWay, Desk.work, Writer.step, hw, Writer.rest?]
      | fails e => simp [effort, underWay, Desk.work, Writer.step, hw, Writer.rest?, Writer.stopped]
  | finished | failed => rw [work_of_none (by rw [hw]; rfl)]

/-- A step of a writer that need not wait for the stream is worth the effort, unless the writer
stops or is between two frames with none to take. -/
theorem effort_lt_work (hgood : d.failure = false) (n : Nat) : d.writer.stopped = true ∨
    (d.writer.rest? = none ∧ d.outbox.queue = []) ∨
      d.effort < (d.work (.upTo (n + 1))).effort := by
  cases hw : d.writer with
  | idle | draining =>
    cases hq : d.outbox.queue with
    | nil => exact .inr (.inl ⟨rfl, rfl⟩)
    | cons x xs =>
      refine .inr (.inr ?_)
      simp [effort, underWay, Desk.work, Writer.step, hw, hq, Writer.rest?, hgood]
  | writing rest seq | drainingFrame rest =>
    refine .inr (.inr ?_)
    cases rest with
    | nil =>
      simp [effort, underWay, Desk.work, Writer.step, hw, Writer.rest?, hgood, Writer.stopped,
        Nat.mul_succ, ← Nat.add_assoc]
    | cons b bs =>
      simp [effort, underWay, Desk.work, Writer.step, hw, Writer.rest?, hgood, Writer.stopped]
  | finished | failed => exact .inl rfl

/-- What only grows at a desk. -/
structure Grows (d d' : Desk) : Prop where
  queued : d.queued <+: d'.queued
  wire : d.wire <+: d'.wire
  ended : d.ended = true → d'.ended = true
  failure : d.failure = true → d'.failure = true
  effort : d.effort ≤ d'.effort

theorem Grows.refl (d : Desk) : d.Grows d :=
  ⟨List.prefix_refl _, List.prefix_refl _, id, id, Nat.le_refl _⟩

theorem Grows.trans {d₁ d₂ d₃ : Desk} (h : d₁.Grows d₂) (h' : d₂.Grows d₃) : d₁.Grows d₃ where
  queued := h.queued.trans h'.queued
  wire := h.wire.trans h'.wire
  ended := h'.ended ∘ h.ended
  failure := h'.failure ∘ h.failure
  effort := h.effort.trans h'.effort

theorem grows_move (d : Desk) (m : Move) : d.Grows (d.move m) := by
  cases m with
  | queue x =>
    simp only [move, Desk.queue]
    split
    · exact { Grows.refl d with queued := List.prefix_append _ _ }
    · exact Grows.refl d
  | close => exact { Grows.refl d with ended := fun _ => rfl }
  | work intake =>
    have heffort := effort_le_work d intake
    simp only [move]
    cases hstep : d.writer.step d.outbox d.ended intake with
    | none =>
      rw [work_of_none hstep]
      exact Grows.refl d
    | some t =>
      rw [work_of_some hstep] at heffort ⊢
      exact ⟨List.prefix_refl _, List.prefix_append _ _, id, fun hf => by simp [hf], heffort⟩
  | heed =>
    simp only [move]
    obtain heq | ⟨hidle, heq⟩ := d.heed_cases
    · exact heq.symm ▸ Grows.refl d
    · rw [heq]
      refine { Grows.refl d with effort := ?_ }
      simp [effort, underWay, hidle, Writer.rest?]

theorem grows_after (d : Desk) (ms : List Move) : d.Grows (d.after ms) := by
  induction ms generalizing d with
  | nil => exact Grows.refl d
  | cons m ms ih => exact (grows_move d m).trans (ih _)

/-- The stream takes something of what it is offered. -/
def Move.pushes : Move → Bool
  | work (.upTo (_ + 1)) => true
  | _ => false

/-- Either everything that was put into the outbox so far is written, or each step of the writer
is worth the effort. -/
theorem Sound.advances (h : d.Sound part) (ms : List Move)
    (hgood : (d.after ms).failure = false) : frames d.queued <+: (d.after ms).wire ∨
      d.effort + ms.countP Move.pushes ≤ (d.after ms).effort := by
  -- The effort bounds the moves that can still get through, unless all that was queued is written.
  induction ms generalizing d part with
  | nil => exact .inr (Nat.le_refl _)
  | cons m ms ih =>
    have hfirst := grows_move d m
    have hrest := grows_after (d.move m) ms
    obtain ⟨part', h'⟩ := h.move m
    have hwritten : d.wire = frames d.queued → frames d.queued <+: ((d.move m).after ms).wire :=
      fun hall => hall ▸ (hfirst.trans hrest).wire
    have hgood' : d.failure = false :=
      Bool.eq_false_iff.2 fun hf => Bool.eq_false_iff.1 hgood ((hfirst.trans hrest).failure hf)
    obtain hall | hlater := ih h' hgood
    · exact .inl ((Outgoing.frames_mono hfirst.queued).trans hall)
    · cases hpushes : m.pushes with
      | false =>
        refine .inr ((Nat.add_le_add hfirst.effort ?_).trans hlater)
        simp [hpushes]
      | true =>
        obtain ⟨n, rfl⟩ : ∃ n, m = .work (.upTo (n + 1)) := by
          unfold Move.pushes at hpushes
          split at hpushes
          · exact ⟨_, rfl⟩
          · cases hpushes
        -- A writer that does not move has nothing to do: it has stopped, or it waits for a frame.
        obtain hstopped | hwaiting | (hlt : d.effort < (d.move (.work (.upTo (n + 1)))).effort) :=
          effort_lt_work hgood' n
        · exact .inl (hwritten (h.wire_eq_all hgood' (.inl hstopped)))
        · exact .inl (hwritten (h.wire_eq_all hgood' (.inr hwaiting)))
        · refine .inr (Nat.le_trans ?_ hlater)
          rw [List.countP_cons, if_pos hpushes]
          omega

/-- A frame is written after as many steps as it has bytes, and two for each frame. -/
theorem Sound.wire_of_effort (h : d.Sound part) (hxs : xs <+: d.queued)
    (heffort : (frames xs).length + 2 * xs.length ≤ d.effort) : frames xs <+: d.wire := by
  have htake : xs = d.queued.take xs.length := List.prefix_iff_eq_take.1 hxs
  by_cases hdone : xs.length ≤ d.done
  · rw [h.wire_eq, htake]
    exact (Outgoing.frames_mono (List.take_prefix_take_left hdone)).trans (List.prefix_append _ _)
  · have hwire : d.wire.length ≤ (frames xs).length := by
      rw [htake]
      exact (h.wire_prefix.trans (Outgoing.frames_mono
        (List.take_prefix_take_left (Nat.succ_le_of_lt (Nat.lt_of_not_le hdone))))).length_le
    have hframe := d.underWay.toNat_le
    unfold effort at heffort
    omega

/-- **What a writer writes.** Whatever frames are put into the outbox of a session and whenever, at
whatever moment the session ends and the writer takes it up, whatever the stream takes of what it is
offered and wherever a write fails:

* what was written are the first frames that were put in, all of each, and then nothing or a part of
  the next one;
* a writer that stopped without a failed write has written all of them;
* as long as no write fails, all that was put in up to some moment, such as the one at which the
  session ends, is written once the stream has taken something a known number of times;
* the updates that were reported are those of the frames that were complete when the writer took up
  the end of the session, or are complete now if it has not, in their order and each once. -/
theorem writes_what_is_queued (capacity : Nat) (ms : List Move) :
    let d := (fresh capacity).after ms
    (∃ part, d.wire = frames (d.queued.take d.done) ++ part ∧
      (part = [] ∨ ∃ x xs, d.queued.drop d.done = x :: xs ∧ part <+: x.frame)) ∧
    (d.writer.stopped = true → d.failure = false → d.wire = frames d.queued) ∧
    (∀ before later, ms = before ++ later → d.failure = false →
      (frames ((fresh capacity).after before).queued).length +
        2 * ((fresh capacity).after before).queued.length ≤ later.countP Move.pushes →
      frames ((fresh capacity).after before).queued <+: d.wire) ∧
    d.reported = (d.queued.take (d.signal.getD d.done)).filterMap (·.seq) ∧
    d.signal.getD d.done ≤ d.done := by
  intro d
  obtain ⟨part, h⟩ := (sound_fresh capacity).after ms
  refine ⟨⟨part, h.wire_eq, h.part_prefix⟩,
    fun hstopped hgood => h.wire_eq_all hgood (.inl hstopped), ?_, h.reported_eq, h.signal_le⟩
  rintro before later rfl hgood hlong
  obtain ⟨part', h'⟩ := (sound_fresh capacity).after before
  have hd : d = ((fresh capacity).after before).after later := after_append _ before later
  rw [after_append] at h
  rw [hd] at hgood ⊢
  obtain hall | heffort := h'.advances later hgood
  · exact hall
  · have hgrows := grows_after ((fresh capacity).after before) later
    exact h.wire_of_effort hgrows.queued ((hlong.trans (Nat.le_add_left _ _)).trans heffort)

/-- A desk where a frame without an update and two with one are put in. The session ends while the
second frame is under way, and the third one waits when the writer takes that up. -/
example :
    let d := (fresh 8).after
      [.queue ⟨[1], none⟩, .queue ⟨[2, 3], some 1⟩, .queue ⟨[4], some 2⟩, .work (.upTo 9),
        .work (.upTo 9), .work (.upTo 9), .work (.upTo 9), .work (.upTo 1), .close, .work (.upTo 9),
        .work (.upTo 9), .heed, .work (.upTo 9), .work (.upTo 9), .work (.upTo 9), .work (.upTo 9)];
    d.wire = [1, 2, 3, 4] ∧ d.reported = [1] ∧ d.writer = .finished := by
  decide

/-! ## The writer of a running session -/

/-- A step of the writer of a running session is a step at its desk: what is written goes into the
stream, and what is reported goes to the node. -/
theorem work_of_writeStep {task : SessionTask} {c : Connection} {m : SessionTask.Moved}
    (hstep : task.writeStep c = some m) (hwriter : d.writer = task.writer)
    (houtbox : d.outbox = task.outbox)
    (hended : d.ended = match task.stage with | .running _ => false | _ => true) :
    (d.work (SessionTask.intake c)).writer = m.task.writer ∧
      (d.work (SessionTask.intake c)).outbox = m.task.outbox ∧
      ∃ bs seqs, (d.work (SessionTask.intake c)).wire = d.wire ++ bs ∧
        (d.work (SessionTask.intake c)).reported = d.reported ++ seqs ∧
        m.notes = seqs.map (fun seq => .report (.flushed seq)) ∧
        (m.connection.outgoing = (c.outgoing.write bs).1 ∨
          m.connection.outgoing = (c.outgoing.write bs).1.closeWriter) := by
  unfold SessionTask.writeStep at hstep
  simp only at hstep
  split at hstep
  · cases hstep
  · obtain ⟨t, ht, rfl⟩ := Option.map_eq_some_iff.1 hstep
    have hwork : d.writer.step d.outbox d.ended (SessionTask.intake c) = some t := by
      rw [hwriter, houtbox, hended]
      exact ht
    rw [work_of_some hwork]
    refine ⟨rfl, rfl, _, _, rfl, rfl, rfl, ?_⟩
    simp only
    split
    · exact .inr rfl
    · exact .inl rfl

/-- When the writer of a running session takes up its end, that is `Desk.heed` at its desk. -/
theorem heed_of_heedStep {task : SessionTask} {c : Connection} {m : SessionTask.Moved}
    (hstep : task.heedStep c = some m) (hwriter : d.writer = task.writer)
    (houtbox : d.outbox = task.outbox) (hended : d.ended = true) :
    d.heed.writer = m.task.writer ∧ d.heed.outbox = m.task.outbox ∧ d.heed.wire = d.wire ∧
      d.heed.reported = d.reported ∧ m.notes = [] ∧ m.connection = c := by
  unfold SessionTask.heedStep at hstep
  split at hstep
  · obtain ⟨w, hw, rfl⟩ := Option.map_eq_some_iff.1 hstep
    simp [heed, hended, hwriter, hw, houtbox]
  · cases hstep

end Desk

end SharedClipboard

import SharedClipboard.Proofs.Group.Delivery
import SharedClipboard.Session.Writer
import Mathlib.Logic.Function.Basic

/-!
# What is under way to a session

**Theorem (`inFlight_newest_unreported`).** Whatever a node publishes and accepts, however full the
outboxes are and however late the reports of the writers come: the update that the group notes as
under way to a session is the newest one that was ever put into the outbox of the session, as long
as the report for it has not been processed. So an update of a member is stale if and only if it is
not the current content and some update that was put into the outbox of the member is unreported.

What was put into the outboxes is read off the outboxes, and what was reported off the writers; the
group is not asked for either (`Dispatch`). The reports come in the order of the outbox: what was
reported, what is on its way, what the writer has in hand and what waits, in this order, are a
prefix of what was put in (`Upheld.inOrder`). A report that is processed is thus the one for the
oldest update that is unreported, and the group drops its note only if that is the newest one, too.
-/

namespace SharedClipboard

open Simulation.GroupRun (numbers)

namespace Outbox

/-- Frames were put at the end of an outbox, and none into a closed one. -/
def GrowsTo (o o' : Outbox) : Prop :=
  ∃ xs, (xs ≠ [] → o.closed = false) ∧ o' = { o with queue := o.queue ++ xs }

theorem GrowsTo.refl (o : Outbox) : o.GrowsTo o := by
  refine ⟨[], fun hne => absurd rfl hne, ?_⟩
  rw [List.append_nil]

theorem GrowsTo.trans {o o' o'' : Outbox} (h : o.GrowsTo o') (h' : o'.GrowsTo o'') :
    o.GrowsTo o'' := by
  obtain ⟨xs, hopen, rfl⟩ := h
  obtain ⟨ys, hopen', rfl⟩ := h'
  refine ⟨xs ++ ys, fun hne => ?_, by rw [← List.append_assoc]⟩
  by_cases hys : ys = []
  · exact hopen fun hxs => hne (by rw [hxs, hys]; rfl)
  · exact hopen' hys

theorem growsTo_push (o : Outbox) (x : Outgoing) : o.GrowsTo (o.push x) := by
  by_cases hready : o.Ready
  · exact ⟨[x], fun _ => hready.1, push_of_ready hready x⟩
  · rw [push_of_not_ready hready]
    exact .refl o

end Outbox

/-! ## The order of the reports of a writer -/

namespace Writer

/-- The session goes on, so a frame is reported once it is written. -/
def reports : Writer → Bool
  | idle | writing _ _ => true
  | _ => false

/-- The numbers that the writer will report if it comes to that, in order. -/
def toReport (o : Outbox) : Writer → List Nat
  | idle => numbers o.queue
  | writing _ seq => seq.toList ++ numbers o.queue
  | _ => []

variable {w : Writer} {o : Outbox} {ended : Bool} {intake : Intake} {t : Turn}

/-- A step of the writer reports what comes first, if anything, or it is the end of all reports. -/
theorem toReport_step (h : w.step o ended intake = some t) :
    (w.reports = true ∧ t.outbox.closed = o.closed ∧
        w.toReport o = t.flushed.toList ++ t.writer.toReport t.outbox) ∨
      (t.writer.reports = false ∧ t.flushed = none) := by
  -- A writer that goes on reports the same in the same order; in other states it reports nothing.
  cases w with
  | idle =>
    cases hq : o.queue with
    | nil =>
      simp only [step, hq] at h
      split at h
      · cases h
        exact .inr ⟨rfl, rfl⟩
      · cases h
    | cons x xs =>
      simp only [step, hq] at h
      cases h
      have hfirst : numbers (x :: xs) = x.seq.toList ++ numbers xs := by
        rw [numbers, List.filterMap_cons]
        cases x.seq <;> rfl
      refine .inl ⟨rfl, rfl, ?_⟩
      show numbers o.queue = _
      rw [hq]
      exact hfirst
  | writing rest seq =>
    cases rest with
    | nil =>
      cases h
      exact .inl ⟨rfl, rfl, rfl⟩
    | cons b bs =>
      simp only [step] at h
      split at h
      · cases h
      · cases h
        exact .inl ⟨rfl, rfl, rfl⟩
      · cases h
        exact .inr ⟨rfl, rfl⟩
  | draining =>
    simp only [step] at h
    split at h <;> cases h <;> exact .inr ⟨rfl, rfl⟩
  | drainingFrame rest =>
    cases rest with
    | nil =>
      cases h
      exact .inr ⟨rfl, rfl⟩
    | cons b bs =>
      simp only [step] at h
      split at h
      · cases h
      · cases h
        exact .inr ⟨rfl, rfl⟩
      · cases h
        exact .inr ⟨rfl, rfl⟩
  | finished => cases h
  | failed => cases h

theorem toReport_of_not_reports (h : w.reports = false) (o : Outbox) : w.toReport o = [] := by
  cases w with
  | idle | writing _ _ => cases h
  | draining | drainingFrame _ | finished | failed => rfl

theorem toReport_append (h : w.reports = true) (o : Outbox) (xs : List Outgoing) :
    w.toReport { o with queue := o.queue ++ xs } = w.toReport o ++ numbers xs := by
  cases w with
  | idle => exact Simulation.GroupRun.numbers_append o.queue xs
  | writing rest seq =>
    show seq.toList ++ numbers (o.queue ++ xs) = _
    rw [Simulation.GroupRun.numbers_append, ← List.append_assoc]
    rfl
  | draining | drainingFrame _ | finished | failed => cases h

theorem toReport_close (w : Writer) (o : Outbox) : w.toReport o.close <+: w.toReport o := by
  cases w with
  | idle => exact List.nil_prefix
  | writing rest seq => exact (List.prefix_append_right_inj _).2 List.nil_prefix
  | draining | drainingFrame _ | finished | failed => exact List.prefix_refl _

/-- What was written and what is to be reported were put into the outbox in this order; and that is
all that was, unless the session has ended or the outbox is closed. -/
structure InOrder (w : Writer) (o : Outbox) (written queued : List Nat) : Prop where
  first : written ++ w.toReport o <+: queued
  all : w.reports = true → o.closed = false → written ++ w.toReport o = queued

variable {written queued : List Nat}

theorem inOrder_fresh (capacity : Nat) : InOrder .idle { capacity } [] [] :=
  ⟨List.prefix_refl _, fun _ _ => rfl⟩

theorem InOrder.append (h : InOrder w o written queued) {xs : List Outgoing}
    (hopen : xs ≠ [] → o.closed = false) :
    InOrder w { o with queue := o.queue ++ xs } written (queued ++ numbers xs) := by
  -- A writer that reports nothing may miss what is added, so only the prefix is claimed for it.
  cases hw : w.reports with
  | false =>
    have hfirst := h.first
    rw [toReport_of_not_reports hw] at hfirst
    refine ⟨?_, fun hreports => ?_⟩
    · rw [toReport_of_not_reports hw]
      exact hfirst.trans (List.prefix_append _ _)
    · rw [hw] at hreports
      cases hreports
  | true =>
    have hall : o.closed = false →
        written ++ w.toReport { o with queue := o.queue ++ xs } = queued ++ numbers xs := by
      intro hclosed
      rw [toReport_append hw, ← List.append_assoc, h.all hw hclosed]
    refine ⟨?_, fun _ hclosed => hall hclosed⟩
    by_cases hxs : xs = []
    · rw [hxs, List.append_nil, numbers, List.filterMap_nil, List.append_nil]
      exact h.first
    · exact hall (hopen hxs) ▸ List.prefix_refl _

theorem InOrder.close (h : InOrder w o written queued) : InOrder w o.close written queued :=
  ⟨((List.prefix_append_right_inj _).2 (toReport_close w o)).trans h.first,
    fun _ hclosed => by cases hclosed⟩

theorem InOrder.step (h : InOrder w o written queued) (ht : w.step o ended intake = some t) :
    InOrder t.writer t.outbox (written ++ t.flushed.toList) queued := by
  obtain ⟨hw, hclosed, hreport⟩ | ⟨hlast, hnone⟩ := toReport_step ht
  · have hsame : written ++ t.flushed.toList ++ t.writer.toReport t.outbox =
        written ++ w.toReport o := by rw [hreport, List.append_assoc]
    exact ⟨hsame ▸ h.first, fun _ hopen => hsame ▸ h.all hw (hclosed ▸ hopen)⟩
  · refine ⟨?_, fun hreports => ?_⟩
    · rw [hnone, toReport_of_not_reports hlast, Option.toList_none, List.append_nil,
        List.append_nil]
      exact (List.prefix_append _ _).trans h.first
    · rw [hlast] at hreports
      cases hreports

end Writer

namespace Simulation

/-! ## One step of the group -/

namespace GroupRun

variable {r : GroupRun} {s : Step} {id : SessionId}

/-- The step does what writers do: it takes frames out or processes a report. -/
def Step.isWriters : Step → Bool
  | .take _ _ => true
  | s => s.isReport

theorem isReport_of_not_isWriters (h : s.isWriters = false) : s.isReport = false := by
  cases s with
  | operation op => exact h
  | take _ _ => rfl
  | attach _ _ _ | queue _ _ | closeOutbox _ => rfl

theorem growsTo_effects (es : List Group.Effect) {os : Outboxes} {o : Outbox}
    (ho : os.get? id = some o) :
    ∃ o', (es.foldl Group.Effect.onOutboxes os).get? id = some o' ∧ o.GrowsTo o' := by
  induction es generalizing os o with
  | nil => exact ⟨o, ho, .refl o⟩
  | cons x es ih =>
    rw [List.foldl_cons]
    cases x with
    | announce _ | kick _ => exact ih ho
    | deliver j x =>
      rw [Group.Effect.onOutboxes, Outboxes.push]
      by_cases hj : j = id
      · have hget : (os.modify j (·.push x)).get? id = some (o.push x) := by
          rw [Table.get?_modify, if_pos hj, ho, Option.map_some]
        obtain ⟨o', ho', hgrows⟩ := ih hget
        exact ⟨o', ho', (o.growsTo_push x).trans hgrows⟩
      · have hget : (os.modify j (·.push x)).get? id = some o := by
          rw [Table.get?_modify, if_neg hj, ho]
        exact ih hget

/-- But for the writers, an outbox that is open gets frames at its end, and any outbox may be
closed. -/
theorem outbox_turn (hs : s.Fits r) (hw : s.isWriters = false) {o : Outbox}
    (ho : r.outboxes.get? id = some o) :
    ∃ o', (r.turn s).run.outboxes.get? id = some o' ∧ (o.GrowsTo o' ∨ o' = o.close) := by
  cases s with
  | attach j e c =>
    have hj : j ≠ id := by
      rintro rfl
      rw [hs.1] at ho
      cases ho
    exact ⟨o, by rw [get?_outboxes_attach, if_neg hj, ho], .inl (.refl o)⟩
  | operation op =>
    obtain ⟨o', ho', hgrows⟩ := growsTo_effects (r.group.perform r.room op).effects ho
    exact ⟨o', ho', .inl hgrows⟩
  | queue j x =>
    rw [get?_outboxes_queue, ho]
    by_cases hj : j = id
    · exact ⟨o.push x, by rw [if_pos hj, Option.map_some], .inl (o.growsTo_push x)⟩
    · exact ⟨o, if_neg hj, .inl (.refl o)⟩
  | take _ _ => cases hw
  | closeOutbox j =>
    rw [get?_outboxes_closeOutbox, ho]
    by_cases hj : j = id
    · exact ⟨o.close, by rw [if_pos hj, Option.map_some], .inr rfl⟩
    · exact ⟨o, if_neg hj, .inl (.refl o)⟩

/-- The group notes the newest update that a step puts into the outbox of a session, and keeps its
note if the step puts in none. -/
theorem inFlight_turn (h : r.Upheld) (hs : s.Fits r) (hw : s.isReport = false) {e' : SessionEntry}
    (he' : (r.turn s).run.group.sessions.get? id = some e') :
    (r.outboxes.get? id = none ∧ e'.inFlight = none) ∨
      ∃ e, r.group.sessions.get? id = some e ∧
        e'.inFlight = (numbers (r.added s id)).getLast?.or e.inFlight := by
  -- A session that is taken up now has nothing under way; any other one had its entry before.
  by_cases hnew : ∃ e c, s = .attach id e c
  · obtain ⟨e, c, rfl⟩ := hnew
    replace he' : (r.group.attach id e).sessions.get? id = some e' := he'
    rw [Group.get?_sessions_attach, if_pos rfl] at he'
    cases he'
    exact .inl ⟨hs.1, hs.2.2⟩
  · have hother : ∀ e c, s ≠ .attach id e c := fun e c heq => hnew ⟨e, c, heq⟩
    obtain ⟨e, he, hkept⟩ := session_turn hother he'
    refine .inr ⟨e, he, ?_⟩
    obtain ⟨mime, data, origin, -, htaken, hrun, -⟩ | ⟨hnone, -, hquiet⟩ := turn_cases r s
    · rw [numbers_added_of_accepted h htaken]
      rw [hrun] at he'
      replace he' : (r.group.accept r.room mime data origin s.source?).group.sessions.get? id =
        some e' := he'
      rw [Group.get?_sessions_accept, he] at he'
      split at he'
      · rename_i hmem
        cases he'
        rw [if_pos hmem]
        rfl
      · rename_i hmem
        cases he'
        rw [if_neg hmem]
        rfl
    · rw [numbers_added_of_none hs hnone hquiet, hkept hw hnone]
      rfl

end GroupRun

/-! ## The group and the writers -/

/-- A group with its outboxes, and the writers that empty them. -/
structure Dispatch where
  run : GroupRun
  writers : SessionId → Writer := fun _ => .idle
  /-- The reports of the writers that are not processed, oldest first. -/
  reports : SessionId → List Nat := fun _ => []
  /-- The updates that were put into the outboxes so far. -/
  queued : SessionId → List Nat := fun _ => []
  /-- The updates whose reports were processed. -/
  reported : SessionId → List Nat := fun _ => []

namespace Dispatch

open GroupRun (added)

/-- One thing that happens. -/
inductive Action where
  | turn (s : GroupRun.Step)
  /-- The writer of a session makes a step, if it can. -/
  | write (id : SessionId) (ended : Bool) (intake : Intake)
  /-- The oldest report of a writer is processed, if there is one. -/
  | report (id : SessionId)

/-- The writer of a session has made a step. -/
def wrote (d : Dispatch) (id : SessionId) (t : Writer.Turn) : Dispatch :=
  { d with
    run := { d.run with outboxes := d.run.outboxes.put id t.outbox }
    writers := Function.update d.writers id t.writer
    reports := Function.update d.reports id (d.reports id ++ t.flushed.toList) }

/-- The report for an update was processed, and the rest are left. -/
def processed (d : Dispatch) (id : SessionId) (seq : Nat) (rest : List Nat) : Dispatch :=
  { d with
    run := (d.run.turn (.operation (.flushed id seq))).run
    reports := Function.update d.reports id rest
    reported := Function.update d.reported id (d.reported id ++ [seq]) }

def act (d : Dispatch) : Action → Dispatch
  | .turn s =>
    { d with
      run := (d.run.turn s).run
      queued := fun id => d.queued id ++ numbers (d.run.added s id) }
  | .write id ended intake =>
    match (d.run.outboxes.get? id).bind fun o => (d.writers id).step o ended intake with
    | none => d
    | some t => d.wrote id t
  | .report id =>
    match d.reports id with
    | [] => d
    | seq :: rest => d.processed id seq rest

def after (d : Dispatch) : List Action → Dispatch
  | [] => d
  | a :: as => (d.act a).after as

/-- A step of the group fits, and leaves to the writers what is theirs. -/
def Action.Fits (d : Dispatch) : Action → Prop
  | .turn s => s.Fits d.run ∧ s.isWriters = false
  | .write _ _ _ | .report _ => True

/-- Every action fits where it is done. -/
def Regular (d : Dispatch) : List Action → Prop
  | [] => True
  | a :: as => a.Fits d ∧ (d.act a).Regular as

/-- A group that keeps the given number of updates, with no sessions. -/
def fresh (limit : Nat) : Dispatch := { run := .fresh limit }

/-! ## Everything fits together -/

/-- The updates that the writer of a session has reported. -/
def written (d : Dispatch) (id : SessionId) : List Nat := d.reported id ++ d.reports id

/-- The updates that were put into the outbox of a session and are not reported, or whose reports
are not processed. -/
def unreported (d : Dispatch) (id : SessionId) : List Nat :=
  (d.queued id).drop (d.reported id).length

/-- What was put into the outboxes, what was written and what the group notes fit together. -/
structure Upheld (d : Dispatch) : Prop where
  run : d.run.Upheld
  grows : ∀ id, (d.queued id).Pairwise (· < ·)
  below : ∀ id, ∀ q ∈ d.queued id, q < d.run.group.history.nextSeq
  unused : ∀ id, d.run.outboxes.get? id = none →
    d.queued id = [] ∧ d.written id = [] ∧ d.writers id = .idle
  inOrder : ∀ id o, d.run.outboxes.get? id = some o →
    (d.writers id).InOrder o (d.written id) (d.queued id)
  newest : ∀ id e, d.run.group.sessions.get? id = some e →
    e.inFlight = (d.unreported id).getLast?

variable {d : Dispatch} {id : SessionId}

theorem upheld_fresh (limit : Nat) : (fresh limit).Upheld where
  run := GroupRun.upheld_fresh limit
  grows _ := .nil
  below _ _ hq := by cases hq
  unused _ _ := ⟨rfl, rfl, rfl⟩
  inOrder _ _ ho := by cases ho
  newest _ _ he := by cases he

theorem Upheld.written_first (h : d.Upheld) (id : SessionId) : d.written id <+: d.queued id := by
  cases ho : d.run.outboxes.get? id with
  | none =>
    rw [(h.unused id ho).2.1]
    exact List.nil_prefix
  | some o => exact (List.prefix_append _ _).trans (h.inOrder id o ho).first

theorem Upheld.queued_eq (h : d.Upheld) (id : SessionId) :
    d.queued id = d.reported id ++ d.unreported id :=
  (List.prefix_iff_eq_append.1 ((List.prefix_append _ _).trans (h.written_first id))).symm

theorem Upheld.turn (h : d.Upheld) {s : GroupRun.Step} (hs : s.Fits d.run)
    (hw : s.isWriters = false) : (d.act (.turn s)).Upheld where
  run := h.run.turn hs
  grows id := by
    show (d.queued id ++ numbers (d.run.added s id)).Pairwise (· < ·)
    obtain hnone | ⟨u, -, hu, -, -, hone⟩ := GroupRun.numbers_added h.run hs id
    · rw [hnone, List.append_nil]
      exact h.grows id
    · rw [hone, List.pairwise_append]
      refine ⟨h.grows id, List.pairwise_singleton _ _, fun q hq q' hq' => ?_⟩
      rw [List.mem_singleton.1 hq', (GroupRun.seq_accepted hu).1]
      exact h.below id q hq
  below id q hq := by
    replace hq : q ∈ d.queued id ++ numbers (d.run.added s id) := hq
    have hmono := GroupRun.nextSeq_turn_le d.run s
    obtain hnone | ⟨u, -, hu, -, -, hone⟩ := GroupRun.numbers_added h.run hs id
    · rw [hnone, List.append_nil] at hq
      exact (h.below id q hq).trans_le hmono
    · obtain ⟨hseq, hnext⟩ := GroupRun.seq_accepted hu
      show q < (d.run.turn s).run.group.history.nextSeq
      rw [hone, List.mem_append, List.mem_singleton, hseq] at hq
      rw [hnext]
      rcases hq with hq | rfl
      · exact (h.below id q hq).trans_le (Nat.le_succ _)
      · exact Nat.lt_succ_self _
  unused id hid := by
    have hother : ∀ e c, s ≠ .attach id e c := by
      rintro e c rfl
      replace hid : (d.run.turn (.attach id e c)).run.outboxes.get? id = none := hid
      rw [GroupRun.get?_outboxes_attach, if_pos rfl] at hid
      cases hid
    have hbefore := (GroupRun.outboxes_turn_eq_none hother).1 hid
    obtain ⟨hqueued, hwritten, hidle⟩ := h.unused id hbefore
    refine ⟨?_, hwritten, hidle⟩
    show d.queued id ++ numbers (d.run.added s id) = []
    rw [hqueued, GroupRun.added_of_none hbefore]
    rfl
  inOrder id o' ho' := by
    replace ho' : (d.run.turn s).run.outboxes.get? id = some o' := ho'
    show (d.writers id).InOrder o' (d.written id) (d.queued id ++ numbers (d.run.added s id))
    cases ho : d.run.outboxes.get? id with
    | none =>
      obtain ⟨hqueued, hwritten, hidle⟩ := h.unused id ho
      obtain ⟨capacity, hnew⟩ := GroupRun.outbox_new ho ho'
      rw [hqueued, hwritten, hidle, GroupRun.added_of_none ho, hnew]
      exact Writer.inOrder_fresh capacity
    | some o =>
      obtain ⟨o'', hget, hchange⟩ := GroupRun.outbox_turn hs hw ho
      rw [hget] at ho'
      cases ho'
      obtain ⟨xs, hopen, rfl⟩ | rfl := hchange
      · rw [GroupRun.added_of_append ho hget]
        exact (h.inOrder id o ho).append hopen
      · rw [GroupRun.added_of_close hget, numbers, List.filterMap_nil, List.append_nil]
        exact (h.inOrder id o ho).close
  newest id e' he' := by
    show e'.inFlight = ((d.queued id ++ numbers (d.run.added s id)).drop
      (d.reported id).length).getLast?
    -- What is reported was queued before, so what is added now comes after what is dropped.
    have hle : (d.reported id).length ≤ (d.queued id).length := by
      rw [h.queued_eq id, List.length_append]
      exact Nat.le_add_right _ _
    rw [List.drop_append_of_le_length hle, List.getLast?_append]
    obtain ⟨hnew, hnone⟩ | ⟨e, he, hnoted⟩ :=
      GroupRun.inFlight_turn h.run hs (GroupRun.isReport_of_not_isWriters hw) he'
    · rw [(h.unused id hnew).1, GroupRun.added_of_none hnew, hnone, List.drop_nil]
      rfl
    · rw [hnoted, h.newest id e he]
      rfl

theorem get?_outboxes_wrote (d : Dispatch) (id : SessionId) (t : Writer.Turn) (j : SessionId) :
    (d.wrote id t).run.outboxes.get? j =
      if id = j then some t.outbox else d.run.outboxes.get? j :=
  Table.get?_put d.run.outboxes id j t.outbox

theorem writers_wrote (d : Dispatch) (id : SessionId) (t : Writer.Turn) (j : SessionId) :
    (d.wrote id t).writers j = if j = id then t.writer else d.writers j :=
  Function.update_apply d.writers id t.writer j

theorem written_wrote (d : Dispatch) (id : SessionId) (t : Writer.Turn) (j : SessionId) :
    (d.wrote id t).written j =
      if j = id then d.written id ++ t.flushed.toList else d.written j := by
  show d.reported j ++ Function.update d.reports id _ j = _
  rw [Function.update_apply]
  split
  · rename_i hj
    rw [hj, ← List.append_assoc]
    rfl
  · rfl

/-- A step of a writer does not change what was put into the outboxes or what the group notes. -/
theorem Upheld.wrote (h : d.Upheld) {o : Outbox} {ended : Bool} {intake : Intake}
    {t : Writer.Turn} (ho : d.run.outboxes.get? id = some o)
    (ht : (d.writers id).step o ended intake = some t) : (d.wrote id t).Upheld := by
  have hother : ∀ j, (d.wrote id t).run.outboxes.get? j = none →
      j ≠ id ∧ d.run.outboxes.get? j = none := by
    intro j hj
    rw [get?_outboxes_wrote] at hj
    split at hj
    · cases hj
    · rename_i hne
      exact ⟨Ne.symm hne, hj⟩
  refine ⟨⟨h.run.inStep, fun j hj => h.run.known j (hother j hj).2⟩, h.grows, h.below,
    fun j hj => ?_, fun j o' ho' => ?_, h.newest⟩
  · obtain ⟨hne, hnone⟩ := hother j hj
    rw [written_wrote, writers_wrote, if_neg hne, if_neg hne]
    exact h.unused j hnone
  · rw [get?_outboxes_wrote] at ho'
    rw [written_wrote, writers_wrote]
    by_cases hj : j = id
    · subst hj
      rw [if_pos rfl] at ho'
      cases ho'
      rw [if_pos rfl, if_pos rfl]
      exact (h.inOrder j o ho).step ht
    · rw [if_neg (Ne.symm hj)] at ho'
      rw [if_neg hj, if_neg hj]
      exact h.inOrder j o' ho'

theorem written_processed {seq : Nat} {rest : List Nat} (hreports : d.reports id = seq :: rest)
    (j : SessionId) : (d.processed id seq rest).written j = d.written j := by
  show Function.update d.reported id _ j ++ Function.update d.reports id rest j = _
  rw [Function.update_apply, Function.update_apply]
  by_cases hj : j = id
  · rw [if_pos hj, if_pos hj, hj, written, hreports, List.append_assoc]
    rfl
  · rw [if_neg hj, if_neg hj]
    rfl

theorem unreported_processed {seq : Nat} {rest : List Nat} (j : SessionId) :
    (d.processed id seq rest).unreported j =
      if j = id then (d.unreported id).tail else d.unreported j := by
  show (d.queued j).drop (Function.update d.reported id _ j).length = _
  rw [Function.update_apply]
  split
  · rename_i hj
    rw [hj, List.length_append, List.length_singleton, unreported, List.tail_drop]
  · rfl

/-- Among what is unreported, the updates whose reports wait to be processed come first. -/
theorem Upheld.unreported_eq (h : d.Upheld) (id : SessionId) :
    ∃ later, d.unreported id = d.reports id ++ later := by
  obtain ⟨later, hlater⟩ := h.written_first id
  refine ⟨later, ?_⟩
  rw [unreported, ← hlater, written, List.append_assoc, List.drop_left]

theorem Upheld.unreported_grows (h : d.Upheld) (id : SessionId) :
    (d.unreported id).Pairwise (· < ·) :=
  (h.grows id).sublist (List.drop_sublist _ _)

/-- The report that is processed is the one for the oldest update that is unreported, so the group
drops its note if and only if that update is the newest one as well. -/
theorem Upheld.processed (h : d.Upheld) {seq : Nat} {rest : List Nat}
    (hreports : d.reports id = seq :: rest) : (d.processed id seq rest).Upheld where
  run := h.run.turn (s := .operation (.flushed id seq)) trivial
  grows := h.grows
  below := h.below
  unused j hj := by
    rw [written_processed hreports]
    exact h.unused j hj
  inOrder j o ho := by
    rw [written_processed hreports]
    exact h.inOrder j o ho
  newest j e' he' := by
    replace he' : (d.run.group.flushed id seq).sessions.get? j = some e' := he'
    rw [Group.get?_sessions_flushed] at he'
    rw [unreported_processed]
    by_cases hj : id = j
    · subst hj
      rw [if_pos rfl] at he' ⊢
      obtain ⟨e, he, rfl⟩ := Option.map_eq_some_iff.1 he'
      -- The oldest open report clears the note only if no newer update is under way.
      obtain ⟨later, hlater⟩ := h.unreported_eq id
      rw [hreports, List.cons_append] at hlater
      have hnoted := h.newest id e he
      have hgrows := h.unreported_grows id
      rw [hlater] at hnoted hgrows
      rw [hlater, List.tail_cons]
      cases hnewest : (rest ++ later).getLast? with
      | none =>
        rw [List.getLast?_eq_none_iff] at hnewest
        rw [hnewest, List.getLast?_singleton] at hnoted
        rw [if_pos hnoted]
      | some q =>
        have hq : seq < q := (List.pairwise_cons.1 hgrows).1 q (List.mem_of_getLast? hnewest)
        rw [List.getLast?_cons, hnewest, Option.getD_some] at hnoted
        have hnewer : e.inFlight ≠ some seq := by
          rw [hnoted]
          exact fun heq => Nat.ne_of_gt hq (Option.some.inj heq)
        rw [if_neg hnewer, hnoted]
    · rw [if_neg hj] at he'
      rw [if_neg (Ne.symm hj)]
      exact h.newest j e' he'

theorem Upheld.act (h : d.Upheld) {a : Action} (ha : a.Fits d) : (d.act a).Upheld := by
  cases a with
  | turn s => exact h.turn ha.1 ha.2
  | write id ended intake =>
    simp only [Dispatch.act]
    split
    · exact h
    · rename_i t ht
      obtain ⟨o, ho, hstep⟩ := Option.bind_eq_some_iff.1 ht
      exact h.wrote ho hstep
  | report id =>
    simp only [Dispatch.act]
    split
    · exact h
    · rename_i seq rest hreports
      exact h.processed hreports

theorem Upheld.after (h : d.Upheld) {as : List Action} (has : d.Regular as) :
    (d.after as).Upheld := by
  induction as generalizing d with
  | nil => exact h
  | cons a as ih => exact ih (h.act has.1) has.2

/-! ## What the note says -/

/-- The last of a list that grows is its greatest. -/
theorem getLast?_eq_some_iff_of_grows {qs : List Nat} (h : qs.Pairwise (· < ·)) {m : Nat} :
    qs.getLast? = some m ↔ m ∈ qs ∧ ∀ q ∈ qs, q ≤ m := by
  rcases List.eq_nil_or_concat qs with rfl | ⟨older, last, rfl⟩
  · simp
  · rw [List.concat_eq_append] at h ⊢
    obtain ⟨-, -, hlast⟩ := List.pairwise_append.1 h
    have hlt : ∀ q ∈ older, q < last := fun q hq => hlast q hq last (List.mem_singleton_self last)
    rw [List.getLast?_concat, Option.some_inj]
    constructor
    · rintro rfl
      refine ⟨List.mem_append_right _ (List.mem_singleton_self _), fun q hq => ?_⟩
      rcases List.mem_append.1 hq with hq | hq
      · exact (hlt q hq).le
      · exact (List.mem_singleton.1 hq).le
    · rintro ⟨hmem, hmax⟩
      rcases List.mem_append.1 hmem with hmem | hmem
      · have hle := hmax last (List.mem_append_right _ (List.mem_singleton_self _))
        exact absurd hle (Nat.not_le_of_lt (hlt m hmem))
      · exact (List.mem_singleton.1 hmem).symm

theorem Upheld.reported_lt (h : d.Upheld) {p q : Nat} (hp : p ∈ d.reported id)
    (hq : q ∈ d.unreported id) : p < q := by
  have hgrows := h.grows id
  rw [h.queued_eq id] at hgrows
  exact (List.pairwise_append.1 hgrows).2.2 p hp q hq

theorem Upheld.mem_unreported_iff (h : d.Upheld) {q : Nat} :
    q ∈ d.unreported id ↔ q ∈ d.queued id ∧ q ∉ d.reported id := by
  rw [h.queued_eq id, List.mem_append]
  constructor
  · exact fun hq => ⟨.inr hq, fun hreported => Nat.lt_irrefl q (h.reported_lt hreported hq)⟩
  · exact fun ⟨hq, hnot⟩ => hq.resolve_left hnot

/-- The note of the group is the newest update, if that is unreported. -/
theorem Upheld.inFlight_eq_some_iff (h : d.Upheld) {e : SessionEntry}
    (he : d.run.group.sessions.get? id = some e) (seq : Nat) :
    e.inFlight = some seq ↔
      seq ∈ d.queued id ∧ (∀ q ∈ d.queued id, q ≤ seq) ∧ seq ∉ d.reported id := by
  rw [h.newest id e he, getLast?_eq_some_iff_of_grows (h.unreported_grows id),
    h.mem_unreported_iff]
  constructor
  · rintro ⟨⟨hqueued, hnot⟩, hmax⟩
    refine ⟨hqueued, fun q hq => ?_, hnot⟩
    by_cases hreported : q ∈ d.reported id
    · exact (h.reported_lt hreported (h.mem_unreported_iff.2 ⟨hqueued, hnot⟩)).le
    · exact hmax q (h.mem_unreported_iff.2 ⟨hq, hreported⟩)
  · rintro ⟨hqueued, hmax, hnot⟩
    exact ⟨⟨hqueued, hnot⟩, fun q hq => hmax q (h.mem_unreported_iff.1 hq).1⟩

theorem Upheld.inFlight_isSome_iff (h : d.Upheld) {e : SessionEntry}
    (he : d.run.group.sessions.get? id = some e) :
    e.inFlight.isSome = true ↔ ∃ q ∈ d.queued id, q ∉ d.reported id := by
  rw [h.newest id e he, List.getLast?_isSome]
  constructor
  · intro hne
    obtain ⟨q, hq⟩ := List.exists_mem_of_ne_nil _ hne
    exact ⟨q, h.mem_unreported_iff.1 hq⟩
  · rintro ⟨q, hq⟩
    exact List.ne_nil_of_mem (h.mem_unreported_iff.2 hq)

end Dispatch

end Simulation

namespace Group

/-- A member is told that its update is stale if and only if the content is new and an update is
noted as under way to the member. -/
theorem acceptUpdate_stale_iff {g : Group} {id : SessionId} {e : SessionEntry}
    (he : g.sessions.get? id = some e) (hrole : e.role = .authenticated) (room : SessionId → Room)
    (mime : String) (data : Bytes) :
    (g.acceptUpdate room id mime data).answer = .stale ↔
      g.history.isCurrent (.of mime data) = false ∧ e.inFlight.isSome = true := by
  cases hcur : g.history.isCurrent (.of mime data) with
  | true => simp [acceptUpdate_of_current he hrole hcur]
  | false =>
    cases hfl : e.inFlight with
    | none => simp [acceptUpdate_of_new he hrole hfl hcur, Outcome.map]
    | some seq => simp [acceptUpdate, he, hrole, hcur, hfl]

end Group

namespace Simulation

namespace Dispatch

/-- **What is under way.** Whatever has happened to a group, its outboxes and its writers: the
update that the group notes as under way to a session is the newest of all that were ever put into
the outbox of the session, if the report for it has not been processed, and none otherwise. So what
a member sends is stale if and only if it is not the current content and there is an update that
was put into the outbox of the member and is unreported. -/
theorem inFlight_newest_unreported (limit : Nat) {as : List Action}
    (has : (fresh limit).Regular as) {d : Dispatch} (hd : (fresh limit).after as = d)
    {id : SessionId} {e : SessionEntry} (he : d.run.group.sessions.get? id = some e) :
    (∀ seq, e.inFlight = some seq ↔
      seq ∈ d.queued id ∧ (∀ q ∈ d.queued id, q ≤ seq) ∧ seq ∉ d.reported id) ∧
      (e.role = .authenticated → ∀ room mime data,
        (d.run.group.acceptUpdate room id mime data).answer = .stale ↔
          d.run.group.history.isCurrent (.of mime data) = false ∧
            ∃ q ∈ d.queued id, q ∉ d.reported id) := by
  have h : d.Upheld := hd ▸ (upheld_fresh limit).after has
  refine ⟨h.inFlight_eq_some_iff he, fun hrole room mime data => ?_⟩
  rw [Group.acceptUpdate_stale_iff he hrole, h.inFlight_isSome_iff he]

/-- The user copies two things, and the writer of the one member reports the first. -/
def slowWriter : List Action :=
  [.turn (.attach 1 (Group.dialedEntry Group.neighbour) 4), .turn (.operation (.promote 1)),
    .turn (.operation (.publishLocal "text/plain" [1])),
    .turn (.operation (.publishLocal "text/plain" [2])),
    .write 1 false (.upTo 64), .write 1 false (.upTo 64), .write 1 false (.upTo 64), .report 1]

/-- The second update is under way still, so what the member sends is stale. -/
theorem inFlight_newest_unreported_slowWriter : (fresh 10).Regular slowWriter ∧
    ((fresh 10).after slowWriter).queued 1 = [1, 2] ∧
    ((fresh 10).after slowWriter).reported 1 = [1] ∧
    ∃ e, ((fresh 10).after slowWriter).run.group.sessions.get? 1 = some e ∧
      e.role = .authenticated ∧ e.inFlight = some 2 ∧
      (((fresh 10).after slowWriter).run.group.acceptUpdate (fun _ => .free) 1 "text/plain"
        [3]).answer = .stale := by
  have hregular : (fresh 10).Regular slowWriter :=
    ⟨⟨⟨rfl, rfl, rfl⟩, rfl⟩, ⟨trivial, rfl⟩, ⟨trivial, rfl⟩, ⟨trivial, rfl⟩, trivial, trivial,
      trivial, trivial, trivial⟩
  obtain ⟨hqueued, hreported, hnew, hentry⟩ :
      ((fresh 10).after slowWriter).queued 1 = [1, 2] ∧
      ((fresh 10).after slowWriter).reported 1 = [1] ∧
      ((fresh 10).after slowWriter).run.group.history.isCurrent (.of "text/plain" [3]) = false ∧
      (((fresh 10).after slowWriter).run.group.sessions.get? 1).map (·.role) =
        some .authenticated := by decide +kernel
  obtain ⟨e, he, hrole⟩ := Option.map_eq_some_iff.1 hentry
  obtain ⟨hnoted, hstale⟩ := inFlight_newest_unreported 10 hregular rfl he
  refine ⟨hregular, hqueued, hreported, e, he, hrole, (hnoted 2).2 ?_, (hstale hrole _ _ _).2 ?_⟩
  · rw [hqueued, hreported]
    decide
  · rw [hqueued, hreported]
    exact ⟨hnew, by decide⟩

end Dispatch

end Simulation

end SharedClipboard

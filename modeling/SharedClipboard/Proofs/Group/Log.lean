import SharedClipboard.Proofs.Group.History
import SharedClipboard.Proofs.Group.Run
import Mathlib.Data.List.Chain

/-!
# The log of accepted updates

**Theorem (`updates_numbered_and_kept`).** In every run of a group the accepted updates are numbered
1, 2, 3 and so on, each is announced once and when it is accepted, no two in a row have the same
digest, and the history holds the last of them, as many as it may keep. An update that is refused
changes nothing and announces nothing.

What was accepted is read off the answers of the operations and the contents that they brought
(`GroupRun.accepted?`), not off the history. A step either records one content that is not the
current one, under the next number, or does not touch the history (`turn_cases`); so the invariant
(`History.Keeps`), which ties the history to the log of what was accepted, has one case to look at.
-/

namespace SharedClipboard

namespace History

/-- The history holds the end of a log in which every update has the number of its place and
differs from the one before it. -/
structure Keeps (limit : Nat) (log : List Snapshot) (h : History) : Prop where
  limit_eq : h.limit = max limit 1
  next : h.nextSeq = log.length + 1
  entries : h.entries = log.drop (log.length - max limit 1)
  numbers : log.map (·.seq) = List.range' 1 log.length
  news : log.IsChain fun s t => s.hash ≠ t.hash

variable {limit : Nat} {log : List Snapshot} {h : History}

theorem keeps_fresh (limit : Nat) : (fresh limit).Keeps limit [] :=
  ⟨rfl, rfl, List.drop_nil.symm, rfl, .nil⟩

theorem Keeps.current_eq (hk : h.Keeps limit log) : h.current = log.getLast? := by
  have hroom : 1 ≤ max limit 1 := Nat.le_max_right limit 1
  rw [current, hk.entries, List.getLast?_drop]
  split
  · rename_i hle
    have hnone : log = [] := List.length_eq_zero_iff.1 (by omega)
    rw [hnone]
    rfl
  · rfl

theorem Keeps.record (hk : h.Keeps limit log) {mime : String} {data : Bytes}
    (hnew : h.isCurrent (.of mime data) = false) (origin : Origin) :
    (h.record mime data origin).2.Keeps limit (log ++ [h.next mime data origin]) where
  limit_eq := hk.limit_eq
  next := by
    rw [List.length_append, List.length_singleton, ← hk.next]
    rfl
  entries := by
    show (h.entries ++ [h.next mime data origin]).drop
      ((h.entries ++ [h.next mime data origin]).length - h.limit) = _
    simp only [hk.entries, hk.limit_eq, List.length_append, List.length_drop, List.length_singleton]
    -- Dropping from the front twice is dropping once, as long as nothing new is dropped.
    rw [← List.drop_append_of_le_length (Nat.sub_le _ _), List.drop_drop]
    congr 1
    omega
  numbers := by
    rw [List.map_append, hk.numbers, List.length_append, List.length_singleton,
      List.range'_concat]
    simp [History.next, hk.next, Nat.add_comm]
  news := by
    rw [isCurrent, hk.current_eq] at hnew
    refine List.isChain_append.2 ⟨hk.news, .singleton _, fun s hs t ht => ?_⟩
    rw [Option.mem_def] at hs ht
    rw [hs, Option.any_some, beq_eq_false_iff_ne] at hnew
    cases ht
    exact hnew

end History

namespace Group

/-- The content that an operation brings, and where it comes from. -/
def Operation.content? (g : Group) : Operation → Option (String × Bytes × Origin)
  | .acceptUpdate id mime data =>
    (g.sessions.get? id).map fun e => (mime, data, .remote e.device)
  | .publishLocal mime data => some (mime, data, .local)
  | _ => none

/-- The session whose update an operation handles. -/
def Operation.source? : Operation → Option SessionId
  | .acceptUpdate id _ _ => some id
  | _ => none

/-- A content was offered to the group, and not taken up. -/
def Answer.isRefusal : Answer → Bool
  | .update o => o.isRefusal
  | .published none => true
  | _ => false

theorem Takes.content {g : Group} {op : Operation} {mime : String} {data : Bytes} {origin : Origin}
    {except? : Option SessionId} (h : Takes g op mime data origin except?) :
    op.content? g = some (mime, data, origin) ∧ op.source? = except? := by
  cases h with
  | remote he => exact ⟨by simp [Operation.content?, he], rfl⟩
  | own => exact ⟨rfl, rfl⟩

/-- An update that is refused leaves the group as it is and asks for nothing. -/
theorem perform_of_refusal {g : Group} {room : SessionId → Room} {op : Operation}
    (h : (g.perform room op).answer.isRefusal = true) :
    (g.perform room op).group = g ∧ (g.perform room op).effects = [] := by
  cases op with
  | promote id => cases h
  | remove id reason => cases h
  | kickAll order => cases h
  | flushed id seq => cases h
  | discovery me port machine e => cases h
  | acceptUpdate id mime data =>
    obtain ⟨hsame, hnone, -⟩ | ⟨e, -, -, -, -, htaken⟩ := acceptUpdate_cases g room id mime data
    · exact ⟨hsame, hnone⟩
    · simp only [perform, htaken] at h
      cases h
  | publishLocal mime data =>
    obtain ⟨-, hsame⟩ | ⟨-, htaken⟩ := publishLocal_cases g room mime data
    · simp only [perform, hsame]
      exact ⟨rfl, rfl⟩
    · simp only [perform, htaken] at h
      cases h

end Group

namespace Simulation.GroupRun

/-! ## What is accepted in a run -/

/-- A group that keeps the given number of updates, with no sessions. -/
def fresh (limit : Nat) : GroupRun := { group := .fresh limit }

/-- The update that a step makes the group accept, if it does. -/
def accepted? (r : GroupRun) : Step → Option Snapshot
  | .operation op =>
    (r.turn (.operation op)).answer.accepted?.bind fun seq =>
      (op.content? r.group).map fun c =>
        { seq, mime := c.1, data := c.2.1, hash := .of c.1 c.2.1, origin := c.2.2 }
  | _ => none

/-- The updates that are accepted during some steps. -/
def accepted (r : GroupRun) : List Step → List Snapshot
  | [] => []
  | s :: ss => (r.accepted? s).toList ++ (r.turn s).run.accepted ss

/-- The session whose update a step handles. -/
def Step.source? : Step → Option SessionId
  | .operation op => op.source?
  | _ => none

/-- The event announces an update. -/
def isUpdate : Event → Bool
  | .clipboardUpdated _ _ _ _ => true
  | _ => false

/-- The event that announces an update. -/
def announcement (u : Snapshot) : Event := .clipboardUpdated u.seq u.mime u.data u.origin

/-- The updates that some effects announce. -/
def updatesIn (es : List Group.Effect) : List Event :=
  (es.filterMap Group.Effect.event?).filter isUpdate

variable {r : GroupRun} {limit : Nat} {log : List Snapshot}

/-- A step makes the group accept a content that is not the current one, or it leaves the history
as it is and spreads nothing. -/
theorem turn_cases (r : GroupRun) (s : Step) :
    (∃ mime data origin, r.group.history.isCurrent (.of mime data) = false ∧
        r.accepted? s = some (r.group.history.next mime data origin) ∧
        (r.turn s).run =
          (r.settle (r.group.accept r.room mime data origin s.source?)).run ∧
        (r.turn s).effects = (r.group.accept r.room mime data origin s.source?).effects) ∨
      (r.accepted? s = none ∧ (r.turn s).run.group.history = r.group.history ∧
        ∀ x ∈ (r.turn s).effects, x.spreads = false) := by
  cases s with
  | attach id e capacity => exact .inr ⟨rfl, rfl, by simp [turn]⟩
  | queue id x => exact .inr ⟨rfl, rfl, by simp [turn]⟩
  | closeOutbox id => exact .inr ⟨rfl, rfl, by simp [turn]⟩
  | take id n =>
    exact .inr ⟨rfl, congrArg Group.history (group_take r id n), by simp [turn]⟩
  | operation op =>
    obtain ⟨mime, data, origin, except?, htakes⟩ | ⟨hsame, hquiet, hnone⟩ :=
      Group.takes_or_keeps r.group r.room op
    · obtain ⟨hgroup, heffects, hanswer, hnew⟩ := Group.perform_of_takes htakes r.room
      obtain ⟨hcontent, rfl⟩ := htakes.content
      refine .inl ⟨mime, data, origin, hnew, ?_, ?_, heffects⟩
      · simp only [accepted?, turn, hanswer, hcontent, Option.bind_some, Option.map_some]
        rfl
      · simp only [turn, settle, hgroup, heffects]
        rfl
    · refine .inr ⟨?_, hsame, hquiet⟩
      simp only [accepted?, turn, hnone, Option.bind_none]

theorem updatesIn_of_quiet {es : List Group.Effect} (h : ∀ x ∈ es, x.spreads = false) :
    updatesIn es = [] := by
  refine List.filter_eq_nil_iff.2 fun e he => ?_
  obtain ⟨x, hx, hevent⟩ := List.mem_filterMap.1 he
  have hquiet := h x hx
  cases x with
  | deliver _ _ | kick _ => cases hevent
  | announce e' =>
    cases hevent
    cases e <;> simp_all [isUpdate, Group.Effect.spreads]

theorem updatesIn_accept (g : Group) (room : SessionId → Room) (mime : String) (data : Bytes)
    (origin : Origin) (except? : Option SessionId) :
    updatesIn (g.accept room mime data origin except?).effects =
      [announcement (g.history.next mime data origin)] := by
  rw [updatesIn, Group.events_accept]
  rfl

/-- A step announces the update that it makes the group accept, and no other. -/
theorem updatesIn_turn (r : GroupRun) (s : Step) :
    updatesIn (r.turn s).effects = (r.accepted? s).toList.map announcement := by
  obtain ⟨mime, data, origin, -, htaken, -, heffects⟩ | ⟨hnone, -, hquiet⟩ := turn_cases r s
  · rw [heffects, htaken, updatesIn_accept]
    rfl
  · rw [hnone, updatesIn_of_quiet hquiet]
    rfl

theorem keeps_turn (hk : r.group.history.Keeps limit log) (s : Step) :
    (r.turn s).run.group.history.Keeps limit (log ++ (r.accepted? s).toList) := by
  obtain ⟨mime, data, origin, hnew, htaken, hrun, -⟩ | ⟨hnone, hsame, -⟩ := turn_cases r s
  · rw [hrun, htaken]
    exact hk.record hnew origin
  · rw [hsame, hnone, Option.toList_none, List.append_nil]
    exact hk

/-! ## Every run -/

theorem keeps_run (hk : r.group.history.Keeps limit log) (ss : List Step) :
    (r.after ss).group.history.Keeps limit (log ++ r.accepted ss) := by
  induction ss generalizing r log with
  | nil =>
    rw [accepted, List.append_nil]
    exact hk
  | cons s ss ih =>
    rw [accepted, ← List.append_assoc]
    exact ih (keeps_turn hk s)

theorem updates_announced (r : GroupRun) (ss : List Step) :
    (announced (r.turns ss)).filter isUpdate = (r.accepted ss).map announcement := by
  induction ss generalizing r with
  | nil => rfl
  | cons s ss ih =>
    rw [turns, announced, List.flatMap_cons, List.filter_append, accepted, List.map_append]
    exact congrArg₂ (· ++ ·) (updatesIn_turn r s) (ih (r.turn s).run)

/-- **The log of updates.** In every run the accepted updates carry the numbers 1, 2, 3 and so on,
the events of the run announce each of them once with its content and origin, and the step that
makes the group accept it is the one that announces it. The history holds as many of the last
accepted updates as it may keep, and one at least, oldest first; the current one is the last. No two
accepted in a row have the same digest. A step that is refused changes nothing at all. -/
theorem updates_numbered_and_kept (limit : Nat) (ss : List Step) :
    ((fresh limit).accepted ss).map (·.seq) = List.range' 1 ((fresh limit).accepted ss).length ∧
      (announced ((fresh limit).turns ss)).filter isUpdate =
        ((fresh limit).accepted ss).map announcement ∧
      (∀ s, updatesIn (((fresh limit).after ss).turn s).effects =
        (((fresh limit).after ss).accepted? s).toList.map announcement) ∧
      ((fresh limit).after ss).group.history.entries = ((fresh limit).accepted ss).drop
        (((fresh limit).accepted ss).length - max limit 1) ∧
      ((fresh limit).after ss).group.history.current = ((fresh limit).accepted ss).getLast? ∧
      ((fresh limit).accepted ss).IsChain (fun u v => u.hash ≠ v.hash) ∧
      ∀ s, (((fresh limit).after ss).turn s).answer.isRefusal = true →
        (((fresh limit).after ss).turn s).run = (fresh limit).after ss ∧
        (((fresh limit).after ss).turn s).effects = [] := by
  have hk := keeps_run (r := fresh limit) (History.keeps_fresh limit) ss
  rw [List.nil_append] at hk
  refine ⟨hk.numbers, updates_announced _ ss, fun s => updatesIn_turn _ s, hk.entries,
    hk.current_eq, hk.news, fun s hs => ?_⟩
  cases s with
  | attach id e capacity => cases hs
  | queue id x => cases hs
  | take id n => cases hs
  | closeOutbox id => cases hs
  | operation op =>
    obtain ⟨hgroup, heffects⟩ := Group.perform_of_refusal hs
    refine ⟨?_, heffects⟩
    simp only [turn, settle, hgroup, heffects]
    rfl

/-- The user copies one thing, copies it again, and copies another. -/
def threeCopies : List Step :=
  [.operation (.publishLocal "text/plain" [1]), .operation (.publishLocal "text/plain" [1]),
    .operation (.publishLocal "text/plain" [2])]

/-- A group that keeps one update has accepted two, and refuses what an unknown session sends. -/
theorem updates_numbered_and_kept_one : ((fresh 1).accepted threeCopies).length = 2 ∧
    ((fresh 1).accepted threeCopies).map (·.seq) = [1, 2] ∧
    ((fresh 1).after threeCopies).group.history.entries =
      ((fresh 1).accepted threeCopies).drop 1 ∧
    (((fresh 1).after threeCopies).turn (.operation (.acceptUpdate 7 "text/plain" [3]))).run =
      (fresh 1).after threeCopies := by
  have hlen : ((fresh 1).accepted threeCopies).length = 2 := by decide +kernel
  obtain ⟨hnumbers, -, -, hentries, -, -, hrefused⟩ := updates_numbered_and_kept 1 threeCopies
  rw [hlen] at hnumbers hentries
  have hunknown : (((fresh 1).after threeCopies).turn
      (.operation (.acceptUpdate 7 "text/plain" [3]))).answer.isRefusal = true := by
    decide +kernel
  exact ⟨hlen, hnumbers, hentries, (hrefused _ hunknown).1⟩

end Simulation.GroupRun

end SharedClipboard

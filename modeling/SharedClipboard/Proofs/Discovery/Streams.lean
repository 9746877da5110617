import Mathlib.Data.List.Induction
import SharedClipboard.Discovery.Segment

/-!
# The streams of a segment keep count

Providers announce and withdraw services on a segment and open and give up streams, and readers take
reports out of the streams, all in any order. A stream that is opened late has what is announced by
then in it at once; from then on it gets each announcement and each withdrawal.

**Theorem (`streams_keep_count`).** As long as a stream is registered and had room for all that
there was for it (`NeverFull`), a device was reported in it as added once more than as removed for
each service that is announced as this device now. A provider has at most one registered stream, and
a stream gets nothing more once its provider opened another one or gave it up.

A call acts on all streams that are there alike (`get?_streams_call`), and what it has for them
(`announces`) is what it changes about the services (`countP_services_call`); the stream that it
opens gets all of them. `Upheld` is what every call keeps (`upheld`). That takes announcements to
have handles of their own: a handle ends in a number that was not used before, and whatever the name
in front of it, the number can be read off (`handle_inj`).
-/

namespace SharedClipboard

namespace Discovery

/-! ## Handles -/

/-- The handle of an announcement. -/
def handleOf (name : String) (n : Nat) : String := s!"{name}#{n}"

theorem hash_notMem_digits (n : Nat) : '#' ∉ Nat.toDigits 10 n := fun h =>
  absurd (Nat.isDigit_of_mem_toDigits (by decide) (by decide) h) (by decide)

/-- The number at the end of a handle is read back, whatever the name in front of it. -/
theorem handle_inj {name name' : String} {n n' : Nat} (h : handleOf name n = handleOf name' n') :
    n = n' := by
  -- A name may have marks in it as well, so the handle is read from its end.
  have hdigits : ∀ (s : String) (k : Nat), (handleOf s k).toList.reverse.takeWhile (· ≠ '#') =
      (Nat.toDigits 10 k).reverse := by
    intro s k
    have htext : (handleOf s k).toList.reverse =
        (Nat.toDigits 10 k).reverse ++ '#' :: s.toList.reverse := by
      simp [handleOf, toString, Nat.repr]
    rw [htext, List.takeWhile_append_of_pos, List.takeWhile_cons_of_neg (by simp), List.append_nil]
    intro c hc
    refine decide_eq_true fun heq => hash_notMem_digits k ?_
    exact heq ▸ List.mem_reverse.1 hc
  have hsame := hdigits name n
  rw [h, hdigits name' n', List.reverse_inj] at hsame
  rw [← Nat.ofDigitChars_ten_toDigits (n := n), ← hsame, Nat.ofDigitChars_ten_toDigits]

/-! ## Counting reports -/

/-- How many devices with a property were reported as added. -/
def countAdded (q : Device → Bool) (es : List DiscoveryEvent) : Nat :=
  es.countP fun | .added d => q d | .removed _ => false

/-- How many devices with a property were reported as removed. -/
def countRemoved (q : Device → Bool) (es : List DiscoveryEvent) : Nat :=
  es.countP fun | .added _ => false | .removed d => q d

/-- How many more devices with a property were reported as added than as removed. -/
def balance (q : Device → Bool) (es : List DiscoveryEvent) : Int :=
  countAdded q es - countRemoved q es

variable {q : Device → Bool} {es es' : List DiscoveryEvent}

theorem balance_append : balance q (es ++ es') = balance q es + balance q es' := by
  simp only [balance, countAdded, countRemoved, List.countP_append]
  omega

theorem balance_map_added (ds : List Device) : balance q (ds.map .added) = ds.countP q := by
  simp [balance, countAdded, countRemoved, List.countP_map, Function.comp_def]

theorem balance_removed (d : Device) : balance q [.removed d] = -([d].countP q : Int) := by
  simp [balance, countAdded, countRemoved]

/-- A stream that nobody reads any more does not stay registered; any other takes a report for which
it has room. -/
theorem Stream.queue_push {st : Stream} {e : DiscoveryEvent}
    (hreg : (st.push e).registered = true) (hroom : st.queue.length < Stream.capacity) :
    (st.push e).queue = st.queue ++ [e] := by
  unfold push at hreg ⊢
  split at hreg
  · simp_all
  · split at hreg
    · cases hreg
    · simp_all

/-! ## What is done with a segment -/

namespace Segment

/-- What providers do with a segment, and readers with its streams. -/
inductive Call where
  | advertise (p : Provider) (name : String) (port : UInt16)
  | stopAdvertising (handle : String)
  | browse (p : ProviderId)
  | stopBrowsing (p : ProviderId)
  | drain (id : StreamId)
  /-- Nobody takes reports out of the stream any more. -/
  | drop (id : StreamId)
  deriving DecidableEq, Repr, Inhabited

/-- The segment after a call. -/
def call (s : Segment) : Call → Segment
  | .advertise p name port => (s.advertise p name port).2
  | .stopAdvertising handle => s.stopAdvertising handle
  | .browse p => (s.browse p).2
  | .stopBrowsing p => s.stopBrowsing p
  | .drain id => (s.drain id).2
  | .drop id => s.dropStream id

def after (s : Segment) (calls : List Call) : Segment := calls.foldl call s

/-- The reports that wait in a stream. -/
def waiting (s : Segment) (id : StreamId) : List DiscoveryEvent :=
  ((s.streams.get? id).map (·.queue)).getD []

/-- Reports still go into the stream. -/
def registered (s : Segment) (id : StreamId) : Bool := (s.streams.get? id).any (·.registered)

/-- What a call takes out of a stream; who stops reading it throws away what waits. -/
def takenBy (s : Segment) (id : StreamId) : Call → List DiscoveryEvent
  | .drain i => if i = id then (s.drain i).1 else []
  | .drop i => if i = id then s.waiting i else []
  | _ => []

/-- What some calls take out of a stream. -/
def taken (id : StreamId) (s : Segment) : List Call → List DiscoveryEvent
  | [] => []
  | x :: xs => s.takenBy id x ++ (s.call x).taken id xs

/-- All that was put into a stream by the calls: what was taken out and what waits. -/
def arrived (id : StreamId) (calls : List Call) : List DiscoveryEvent :=
  taken id {} calls ++ (after {} calls).waiting id

/-- The reports that a call has for the streams that are there. -/
def announces (s : Segment) : Call → List DiscoveryEvent
  | .advertise p name port => [.added (serviceDevice p name port)]
  | .stopAdvertising handle => (s.services.get? handle).toList.map .removed
  | _ => []

/-- The reports that a call has for a stream, which may be the one that it opens. -/
def reportsFor (s : Segment) (id : StreamId) : Call → List DiscoveryEvent
  | .browse _ => if id = s.lastId + 1 then s.services.values.map .added else []
  | x => s.announces x

/-- A stream has room for all that the calls have for it at the time. -/
def NeverFull (id : StreamId) (s : Segment) : List Call → Prop
  | [] => True
  | x :: xs => (s.waiting id).length + (s.reportsFor id x).length ≤ Stream.capacity ∧
      (s.call x).NeverFull id xs

/-- Among the calls, the provider opened the stream. -/
def Opened (calls : List Call) (p : ProviderId) (id : StreamId) : Prop :=
  ∃ before later, calls = before ++ .browse p :: later ∧ id = ((after {} before).browse p).1

variable {s : Segment} {id : StreamId} {p : ProviderId} {x : Call} {calls : List Call}

instance decidableNeverFull : (s : Segment) → (calls : List Call) → Decidable (NeverFull id s calls)
  | _, [] => isTrue trivial
  | s, x :: xs =>
    have := decidableNeverFull (s.call x) xs
    inferInstanceAs (Decidable (_ ∧ _))

theorem after_append (later : List Call) :
    s.after (calls ++ later) = (s.after calls).after later := List.foldl_append

theorem taken_append (later : List Call) :
    taken id s (calls ++ later) = taken id s calls ++ taken id (s.after calls) later := by
  induction calls generalizing s with
  | nil => rfl
  | cons y calls ih => simp only [List.cons_append, taken, ih, List.append_assoc]; rfl

theorem neverFull_append (later : List Call) : NeverFull id s (calls ++ later) ↔
    NeverFull id s calls ∧ NeverFull id (s.after calls) later := by
  induction calls generalizing s with
  | nil => simp [NeverFull, after]
  | cons y calls ih => simp only [List.cons_append, NeverFull, ih, and_assoc]; rfl

theorem opened_snoc : Opened (calls ++ [x]) p id ↔
    Opened calls p id ∨ (x = .browse p ∧ id = (after {} calls).lastId + 1) := by
  constructor
  · rintro ⟨before, later, heq, rfl⟩
    obtain rfl | ⟨rest, y, rfl⟩ := List.eq_nil_or_concat later
    · obtain ⟨rfl, hlast⟩ := List.append_inj' heq rfl
      cases hlast
      exact .inr ⟨rfl, rfl⟩
    · rw [List.concat_eq_append, ← List.cons_append, ← List.append_assoc] at heq
      obtain ⟨rfl, -⟩ := List.append_inj' heq rfl
      exact .inl ⟨before, rest, rfl, rfl⟩
  · rintro (⟨before, later, rfl, rfl⟩ | ⟨rfl, rfl⟩)
    · exact ⟨before, later ++ [x], by simp, rfl⟩
    · exact ⟨calls, [], rfl, rfl⟩

/-! ## What a call does to the streams that are there -/

/-- What a call does to a stream that is there. -/
def act (s : Segment) (id : StreamId) (x : Call) : Stream → Stream :=
  match x with
  | .advertise _ _ _ | .stopAdvertising _ => fun st => (s.announces x).foldl Stream.push st
  | .browse p | .stopBrowsing p =>
    if s.held.get? p = some id then Stream.unregister else fun st => st
  | .drain i => if i = id then fun st => st.drain.2 else fun st => st
  | .drop i => if i = id then Stream.drop else fun st => st

/-- The call does not open the stream. -/
def IsOld (s : Segment) (id : StreamId) (x : Call) : Prop :=
  ∀ p, x = .browse p → id ≠ s.lastId + 1

theorem not_isOld : ¬ s.IsOld id x ↔ ∃ p, x = .browse p ∧ id = s.lastId + 1 := by
  simp [IsOld]

theorem get?_streams_call (hold : s.IsOld id x) :
    (s.call x).streams.get? id = (s.streams.get? id).map (s.act id x) := by
  cases x with
  | advertise p name port => exact Table.get?_mapValues _ _ _
  | stopAdvertising handle =>
    simp only [call, stopAdvertising, act, announces]
    cases s.services.get? handle with
    | none => simp
    | some d => exact Table.get?_mapValues _ _ _
  | browse p =>
    have hne : s.lastId + 1 ≠ id := (hold p rfl).symm
    simp only [call, browse, act, Table.get?_put, if_neg hne]
    cases s.held.get? p with
    | none => simp
    | some old => by_cases hid : old = id <;> simp [Table.get?_modify, hid]
  | stopBrowsing p =>
    simp only [call, stopBrowsing, act]
    cases s.held.get? p with
    | none => simp
    | some old => by_cases hid : old = id <;> simp [Table.get?_modify, hid]
  | drain i =>
    simp only [call, drain, act]
    by_cases hi : i = id
    · subst hi
      cases hst : s.streams.get? i <;> simp [hst, Table.get?_put]
    · cases s.streams.get? i <;> simp [Table.get?_put, hi]
  | drop i =>
    by_cases hi : i = id <;> simp [call, dropStream, act, Table.get?_modify, hi]

theorem reportsFor_of_isOld (hold : s.IsOld id x) : s.reportsFor id x = s.announces x := by
  cases x with
  | browse p => exact if_neg (hold p rfl)
  | advertise | stopAdvertising | stopBrowsing | drain | drop => rfl

/-- A call announces nothing, a new service or the end of one that there is. -/
theorem announces_cases (s : Segment) (x : Call) : s.announces x = [] ∨
    (∃ p name port, x = .advertise p name port) ∨
    ∃ handle d, x = .stopAdvertising handle ∧ s.services.get? handle = some d := by
  cases x with
  | advertise p name port => exact .inr (.inl ⟨p, name, port, rfl⟩)
  | stopAdvertising handle =>
    cases hd : s.services.get? handle with
    | none => exact .inl (by simp [announces, hd])
    | some d => exact .inr (.inr ⟨handle, d, rfl, hd⟩)
  | browse | stopBrowsing | drain | drop => exact .inl rfl

theorem act_of_announces (hx : s.announces x ≠ []) (id : StreamId) : ∃ e,
    s.announces x = [e] ∧ s.takenBy id x = [] ∧ ∀ st, s.act id x st = st.push e := by
  obtain hnone | ⟨p, name, port, rfl⟩ | ⟨handle, d, rfl, hd⟩ := s.announces_cases x
  · exact absurd hnone hx
  · exact ⟨.added (serviceDevice p name port), rfl, rfl, fun _ => rfl⟩
  · have hgone : s.announces (.stopAdvertising handle) = [.removed d] := by simp [announces, hd]
    refine ⟨.removed d, hgone, rfl, fun st => ?_⟩
    simp only [act, hgone]
    rfl

/-- A call that announces nothing puts nothing into a stream, and registers none. -/
theorem act_of_quiet {st : Stream} (hst : s.streams.get? id = some st) (hx : s.announces x = []) :
    s.takenBy id x ++ (s.act id x st).queue = st.queue ∧
      (st.registered = false → (s.act id x st).registered = false) := by
  cases x with
  | advertise => cases hx
  | stopAdvertising handle => simp [act, hx, takenBy]
  -- The provider may hold this very stream; its queue is kept all the same.
  | browse p | stopBrowsing p =>
    by_cases hheld : s.held.get? p = some id <;> simp [act, takenBy, hheld, Stream.unregister]
  | drain i =>
    by_cases hi : i = id
    · subst hi
      simp [act, takenBy, drain, hst, Stream.drain]
    · simp [act, takenBy, hi]
  | drop i =>
    by_cases hi : i = id
    · subst hi
      simp [act, takenBy, waiting, hst, Stream.drop]
    · simp [act, takenBy, hi]

/-- A stream that is not registered gets nothing. -/
theorem act_of_unregistered {st : Stream} (hst : s.streams.get? id = some st)
    (hreg : st.registered = false) (x : Call) : (s.act id x st).registered = false ∧
      s.takenBy id x ++ (s.act id x st).queue = st.queue := by
  by_cases hx : s.announces x = []
  · obtain ⟨hqueue, hstays⟩ := act_of_quiet hst hx
    exact ⟨hstays hreg, hqueue⟩
  · obtain ⟨e, -, htaken, hact⟩ := act_of_announces hx id
    have hpush : st.push e = st := by simp [Stream.push, hreg]
    rw [hact, htaken, hpush]
    exact ⟨hreg, rfl⟩

/-- A stream that stays registered and has room gets all that a call announces. -/
theorem act_of_registered {st : Stream} (hst : s.streams.get? id = some st) {x : Call}
    (hreg : (s.act id x st).registered = true)
    (hroom : st.queue.length + (s.announces x).length ≤ Stream.capacity) :
    s.takenBy id x ++ (s.act id x st).queue = st.queue ++ s.announces x := by
  by_cases hx : s.announces x = []
  · rw [(act_of_quiet hst hx).1, hx, List.append_nil]
  · obtain ⟨e, he, htaken, hact⟩ := act_of_announces hx id
    rw [hact] at hreg
    rw [he] at hroom
    rw [he, htaken, hact, List.nil_append]
    exact Stream.queue_push hreg hroom

theorem waiting_eq {st : Stream} (hst : s.streams.get? id = some st) : s.waiting id = st.queue := by
  rw [waiting, hst]
  rfl

theorem registered_eq {st : Stream} (hst : s.streams.get? id = some st) :
    s.registered id = st.registered := by rw [registered, hst]; rfl

theorem takenBy_of_none (hst : s.streams.get? id = none) (x : Call) : s.takenBy id x = [] := by
  cases x with
  | advertise | stopAdvertising | browse | stopBrowsing => rfl
  | drain i | drop i =>
    by_cases hi : i = id
    · subst hi
      simp [takenBy, drain, waiting, hst]
    · simp [takenBy, hi]

theorem call_of_unregistered (hold : s.IsOld id x) (hreg : s.registered id = false) :
    (s.call x).registered id = false ∧ s.takenBy id x ++ (s.call x).waiting id = s.waiting id := by
  have hstream := get?_streams_call hold
  cases hst : s.streams.get? id with
  | none =>
    rw [hst, Option.map_none] at hstream
    simp [registered, waiting, hst, hstream, takenBy_of_none hst]
  | some st =>
    rw [hst, Option.map_some] at hstream
    rw [registered_eq hst] at hreg
    rw [registered_eq hstream, waiting_eq hstream, waiting_eq hst]
    exact act_of_unregistered hst hreg x

theorem registered_of_call (hold : s.IsOld id x) (hreg : (s.call x).registered id = true) :
    s.registered id = true := by
  cases hbefore : s.registered id with
  | true => rfl
  | false =>
    rw [(call_of_unregistered hold hbefore).1] at hreg
    cases hreg

theorem call_of_registered (hold : s.IsOld id x) (hreg : (s.call x).registered id = true)
    (hroom : (s.waiting id).length + (s.reportsFor id x).length ≤ Stream.capacity) :
    s.takenBy id x ++ (s.call x).waiting id = s.waiting id ++ s.announces x := by
  have hstream := get?_streams_call hold
  cases hst : s.streams.get? id with
  | none =>
    rw [hst, Option.map_none] at hstream
    simp [registered, hstream] at hreg
  | some st =>
    rw [hst, Option.map_some] at hstream
    rw [registered_eq hstream] at hreg
    rw [waiting_eq hst, reportsFor_of_isOld hold] at hroom
    rw [waiting_eq hstream, waiting_eq hst]
    exact act_of_registered hst hreg hroom

/-- A provider that opens a stream or gives up its own one leaves the stream that it held. -/
def Leaves (p : ProviderId) (x : Call) : Prop := x = .browse p ∨ x = .stopBrowsing p

theorem call_of_leaves (hold : s.IsOld id x) (hx : Leaves p x) :
    s.takenBy id x ++ (s.call x).waiting id = s.waiting id ∧
      (s.held.get? p = some id → (s.call x).registered id = false) := by
  have hstream := get?_streams_call hold
  have hquiet : s.announces x = [] := by obtain rfl | rfl := hx <;> rfl
  cases hst : s.streams.get? id with
  | none =>
    rw [hst, Option.map_none] at hstream
    simp [registered, waiting, hstream, hst, takenBy_of_none hst]
  | some st =>
    rw [hst, Option.map_some] at hstream
    rw [registered_eq hstream, waiting_eq hstream, waiting_eq hst]
    refine ⟨(act_of_quiet hst hquiet).1, fun hheld => ?_⟩
    obtain rfl | rfl := hx <;> simp [act, hheld, Stream.unregister]

theorem held_call (hx : ¬ Leaves p x) : (s.call x).held.get? p = s.held.get? p := by
  cases x with
  | advertise => rfl
  | stopAdvertising handle =>
    simp only [call, stopAdvertising]
    split <;> rfl
  | browse p' =>
    have hp : p' ≠ p := fun heq => hx (.inl (heq ▸ rfl))
    simp only [call, browse, Table.get?_put, if_neg hp]
  | stopBrowsing p' =>
    have hp : p' ≠ p := fun heq => hx (.inr (heq ▸ rfl))
    simp only [call, stopBrowsing]
    split
    · rfl
    · simp only [Table.get?_erase, if_neg hp]
  | drain i =>
    simp only [call, drain]
    split <;> rfl
  | drop => rfl

/-! ## The numbers of a segment -/

theorem lastId_le_call (s : Segment) (x : Call) : s.lastId ≤ (s.call x).lastId := by
  cases x with
  | advertise | browse => exact Nat.le_succ _
  | stopAdvertising handle =>
    simp only [call, stopAdvertising]
    split <;> exact Nat.le_refl _
  | stopBrowsing p =>
    simp only [call, stopBrowsing]
    split <;> exact Nat.le_refl _
  | drain i =>
    simp only [call, drain]
    split <;> exact Nat.le_refl _
  | drop => exact Nat.le_refl _

/-- A call that has nothing to announce leaves the services as they are. -/
theorem services_call (hx : s.announces x = []) : (s.call x).services = s.services := by
  cases x with
  | advertise => cases hx
  | stopAdvertising handle =>
    simp only [announces, List.map_eq_nil_iff, Option.toList_eq_nil_iff] at hx
    simp only [call, stopAdvertising, hx]
  | browse | drop => rfl
  | stopBrowsing p =>
    simp only [call, stopBrowsing]
    split <;> rfl
  | drain i =>
    simp only [call, drain]
    split <;> rfl

theorem services_stopAdvertising {handle : String} {d : Device}
    (hd : s.services.get? handle = some d) :
    (s.call (.stopAdvertising handle)).services = s.services.erase handle := by
  simp only [call, stopAdvertising, hd]
  rfl

/-- No stream and no announcement has a number that is still to come. -/
structure Numbered (s : Segment) : Prop where
  streams : ∀ id, s.lastId < id → s.streams.get? id = none
  services : ∀ h d, s.services.get? h = some d → ∃ name, ∃ n ≤ s.lastId, h = handleOf name n

theorem Numbered.call (h : s.Numbered) (x : Call) : (s.call x).Numbered where
  streams i hi := by
    have hold : s.IsOld i x := by
      rintro p rfl rfl
      exact Nat.lt_irrefl _ hi
    rw [get?_streams_call hold, h.streams i (Nat.lt_of_le_of_lt (lastId_le_call s x) hi),
      Option.map_none]
  services handle d hd := by
    have hkept : ∀ handle d, s.services.get? handle = some d →
        ∃ name, ∃ n ≤ (s.call x).lastId, handle = handleOf name n := by
      intro handle d hd
      obtain ⟨name, n, hn, hname⟩ := h.services handle d hd
      exact ⟨name, n, Nat.le_trans hn (lastId_le_call s x), hname⟩
    obtain hx | ⟨p, name, port, rfl⟩ | ⟨gone, d', rfl, hgone⟩ := s.announces_cases x
    · rw [services_call hx] at hd
      exact hkept handle d hd
    · by_cases hnew : handleOf name (s.lastId + 1) = handle
      · exact ⟨name, s.lastId + 1, Nat.le_refl _, hnew.symm⟩
      · exact hkept handle d (((Table.get?_put _ _ _ _).trans (if_neg hnew)).symm.trans hd)
    · rw [services_stopAdvertising hgone, Table.get?_erase] at hd
      split at hd
      · cases hd
      · exact hkept handle d hd

theorem streams_browse (s : Segment) (p : ProviderId) :
    (s.call (.browse p)).streams.get? (s.lastId + 1) =
      some { queue := (s.services.values.take Stream.capacity).map .added } :=
  (Table.get?_put _ _ _ _).trans (if_pos rfl)

/-- A stream in which room was left at all times had room for all that there was for it. -/
theorem neverFull_of_lt (hnum : s.Numbered)
    (h : ∀ before, before <+: calls → ((s.after before).waiting id).length < Stream.capacity) :
    NeverFull id s calls := by
  induction calls generalizing s with
  | nil => trivial
  | cons x calls ih =>
    have hnow : (s.waiting id).length < Stream.capacity := h [] List.nil_prefix
    have hnext : ((s.call x).waiting id).length < Stream.capacity := h [x] ⟨calls, rfl⟩
    refine ⟨?_, ih (hnum.call x) fun before hbefore =>
      h (x :: before) (List.cons_prefix_cons.2 ⟨rfl, hbefore⟩)⟩
    -- An old stream gets at most one report by a call. A new one gets all announced services at
    -- once, so its room is known only by what it holds afterwards.
    by_cases hold : s.IsOld id x
    · have hone : (s.announces x).length ≤ 1 := by
        by_cases hx : s.announces x = []
        · simp [hx]
        · obtain ⟨e, he, -⟩ := act_of_announces hx id
          simp [he]
      rw [reportsFor_of_isOld hold]
      omega
    · obtain ⟨p, rfl, rfl⟩ := not_isOld.1 hold
      have hempty : s.waiting (s.lastId + 1) = [] := by
        rw [waiting, hnum.streams _ (Nat.lt_succ_self _)]
        rfl
      rw [waiting_eq (streams_browse s p), List.length_map, List.length_take] at hnext
      simp only [hempty, reportsFor, if_pos, List.length_map, List.length_nil]
      omega

/-- What a call announces is what it changes about the services. -/
theorem countP_services_call (h : s.Numbered) (x : Call) (q : Device → Bool) :
    ((s.call x).services.values.countP q : Int) =
      s.services.values.countP q + balance q (s.announces x) := by
  obtain hx | ⟨p, name, port, rfl⟩ | ⟨handle, d, rfl, hd⟩ := s.announces_cases x
  · rw [services_call hx, hx]
    exact (Int.add_zero _).symm
  · -- No announcement is replaced, not even one of the same name.
    have hnew : s.services.get? (handleOf name (s.lastId + 1)) = none := by
      rw [Option.eq_none_iff_forall_ne_some]
      intro d hd
      obtain ⟨name', n, hn, heq⟩ := h.services _ _ hd
      have hsame := handle_inj heq
      omega
    have hvalues : (s.call (.advertise p name port)).services.values = s.services.values ++
        [serviceDevice p name port] := Table.values_put_of_none hnew _
    have hbalance := balance_map_added (q := q) [serviceDevice p name port]
    rw [List.map_singleton] at hbalance
    rw [hvalues, List.countP_append, announces, hbalance]
    omega
  · have hvalues : s.services.values.Perm ([d] ++ (s.services.erase handle).values) :=
      (Table.entries_perm_erase hd).map fun e : String × Device => e.2
    rw [services_stopAdvertising hd, hvalues.countP_eq, List.countP_append, announces, hd,
      Option.toList_some, List.map_singleton, balance_removed]
    omega

/-! ## All calls -/

/-- What holds of a segment after some calls. -/
structure Upheld (calls : List Call) : Prop where
  numbered : (after {} calls).Numbered
  opened_le : ∀ p id, Opened calls p id → id ≤ (after {} calls).lastId
  holds : ∀ p id, Opened calls p id → (after {} calls).registered id = true →
    (after {} calls).held.get? p = some id
  untouched : ∀ id, (after {} calls).lastId < id → taken id {} calls = []
  counts : ∀ id, (after {} calls).registered id = true → NeverFull id {} calls → ∀ q,
    balance q (arrived id calls) = (after {} calls).services.values.countP q

theorem isOld_of_le (hle : id ≤ s.lastId) (x : Call) : s.IsOld id x := by
  rintro p rfl rfl
  exact Nat.not_succ_le_self _ hle

theorem after_snoc : s.after (calls ++ [x]) = (s.after calls).call x := after_append [x]

theorem taken_snoc :
    taken id s (calls ++ [x]) = taken id s calls ++ (s.after calls).takenBy id x := by
  rw [taken_append, taken, taken, List.append_nil]

theorem upheld_fresh : Upheld [] where
  numbered := ⟨fun _ _ => rfl, fun _ _ hd => nomatch hd⟩
  opened_le p id h := by
    obtain ⟨before, later, heq, -⟩ := h
    simp at heq
  holds p id h := by
    obtain ⟨before, later, heq, -⟩ := h
    simp at heq
  untouched _ _ := rfl
  counts id hreg := nomatch hreg

/-- A stream that a provider opened is its own while it is registered. -/
theorem Upheld.holds_snoc (h : Upheld calls) (x : Call) (hopened : Opened (calls ++ [x]) p id)
    (hreg : ((after {} calls).call x).registered id = true) :
    ((after {} calls).call x).held.get? p = some id := by
  obtain hopened | ⟨rfl, rfl⟩ := opened_snoc.1 hopened
  · have hold := isOld_of_le (h.opened_le p id hopened) x
    have hheld := h.holds p id hopened (registered_of_call hold hreg)
    by_cases hx : Leaves p x
    · rw [(call_of_leaves hold hx).2 hheld] at hreg
      cases hreg
    · rw [held_call hx, hheld]
  · exact (Table.get?_put _ _ _ _).trans (if_pos rfl)

/-- A stream that is opened has all services in it, if there is room for them. -/
theorem Upheld.counts_opened (h : Upheld calls) (p : ProviderId) (q : Device → Bool)
    (hroom : (after {} calls).services.values.length ≤ Stream.capacity) :
    balance q (arrived ((after {} calls).lastId + 1) (calls ++ [.browse p])) =
      (after {} calls).services.values.countP q := by
  have hwaiting : ((after {} calls).call (.browse p)).waiting ((after {} calls).lastId + 1) =
      (after {} calls).services.values.map .added := by
    rw [waiting_eq (streams_browse _ p), List.take_of_length_le hroom]
  rw [arrived, taken_snoc, h.untouched _ (Nat.lt_succ_self _), after_snoc, hwaiting]
  exact balance_map_added _

theorem Upheld.counts_snoc (h : Upheld calls) (x : Call)
    (hreg : ((after {} calls).call x).registered id = true)
    (hroomy : NeverFull id {} (calls ++ [x])) (q : Device → Bool) :
    balance q (arrived id (calls ++ [x])) =
      ((after {} calls).call x).services.values.countP q := by
  obtain ⟨hbefore, hroom, -⟩ := (neverFull_append [x]).1 hroomy
  by_cases hold : (after {} calls).IsOld id x
  · -- A stream that was there gets what changes about the services.
    have hregistered := registered_of_call hold hreg
    rw [arrived, taken_snoc, after_snoc, List.append_assoc, call_of_registered hold hreg hroom,
      ← List.append_assoc, balance_append, ← arrived, h.counts id hregistered hbefore q,
      countP_services_call h.numbered]
  · -- The stream that the call opens starts with all services.
    obtain ⟨p, rfl, rfl⟩ := not_isOld.1 hold
    refine h.counts_opened p q ?_
    simp only [reportsFor, if_pos, List.length_map] at hroom
    omega

theorem upheld (calls : List Call) : Upheld calls := by
  -- From the end of the list, because every fact looks back at all calls so far.
  induction calls using List.reverseRecOn with
  | nil => exact upheld_fresh
  | append_singleton calls x ih =>
    have hlast := lastId_le_call (after {} calls) x
    refine ⟨?_, ?_, ?_, ?_, ?_⟩
    · rw [after_snoc]
      exact ih.numbered.call x
    · intro p id hopened
      rw [after_snoc]
      obtain hopened | ⟨rfl, rfl⟩ := opened_snoc.1 hopened
      · exact Nat.le_trans (ih.opened_le p id hopened) hlast
      · exact Nat.le_refl _
    · intro p id hopened hreg
      rw [after_snoc] at hreg ⊢
      exact ih.holds_snoc x hopened hreg
    · intro id hid
      rw [after_snoc] at hid
      have hnone := ih.numbered.streams id (by omega)
      rw [taken_snoc, ih.untouched id (by omega), takenBy_of_none hnone, List.append_nil]
    · intro id hreg hroomy q
      rw [after_snoc] at hreg ⊢
      exact ih.counts_snoc x hreg hroomy q

/-- A stream that is not registered gets nothing more. -/
theorem after_of_unregistered (hle : id ≤ s.lastId) (hreg : s.registered id = false)
    (later : List Call) : (s.after later).registered id = false ∧
      taken id s later ++ (s.after later).waiting id = s.waiting id := by
  induction later generalizing s with
  | nil => exact ⟨hreg, rfl⟩
  | cons x later ih =>
    obtain ⟨hgone, hwaits⟩ := call_of_unregistered (isOld_of_le hle x) hreg
    obtain ⟨hlast, hrest⟩ := ih (Nat.le_trans hle (lastId_le_call s x)) hgone
    refine ⟨hlast, ?_⟩
    calc taken id s (x :: later) ++ (s.after (x :: later)).waiting id
        = s.takenBy id x ++ (taken id (s.call x) later ++ ((s.call x).after later).waiting id) :=
          List.append_assoc ..
      _ = s.waiting id := by rw [hrest, hwaits]

/-- A stream that its provider left gets nothing more, whatever is done later. -/
theorem Upheld.left (h : Upheld calls) (hopened : Opened calls p id) (hx : Leaves p x)
    (later : List Call) : (after {} (calls ++ x :: later)).registered id = false ∧
      arrived id (calls ++ x :: later) = arrived id calls := by
  have hle := h.opened_le p id hopened
  have hold := isOld_of_le hle x
  obtain ⟨hwaits, hleaves⟩ := call_of_leaves hold hx
  have hgone : ((after {} calls).call x).registered id = false := by
    cases hreg : (after {} calls).registered id with
    | true => exact hleaves (h.holds p id hopened hreg)
    | false => exact (call_of_unregistered hold hreg).1
  obtain ⟨hlast, hrest⟩ :=
    after_of_unregistered (Nat.le_trans hle (lastId_le_call _ x)) hgone later
  rw [arrived, after_append, taken_append, List.append_assoc]
  refine ⟨hlast, ?_⟩
  -- What the call throws away counts as taken, so nothing that arrived is lost count of.
  calc taken id {} calls ++ (taken id (after {} calls) (x :: later) ++
          ((after {} calls).after (x :: later)).waiting id)
      = taken id {} calls ++ ((after {} calls).takenBy id x ++
          (taken id ((after {} calls).call x) later ++
            (((after {} calls).call x).after later).waiting id)) := by
        rw [← List.append_assoc ((after {} calls).takenBy id x)]
        rfl
    _ = arrived id calls := by rw [hrest, hwaits, arrived]

/-- Whatever is announced, withdrawn, opened, left and read, in whatever order: a registered stream
that was never full reported each device as added once more than as removed for each service that is
announced as this device now, whether or not fingerprints are looked at. A provider has at most one
registered stream. A stream that its provider left, for another one or for none, gets nothing more.
-/
theorem streams_keep_count (calls : List Call) :
    (∀ id, (after {} calls).registered id = true → NeverFull id {} calls → ∀ d : Device,
      balance d.same (arrived id calls) = (after {} calls).services.values.countP d.same ∧
        balance (· == d) (arrived id calls) = (after {} calls).services.values.count d) ∧
    (∀ p id id', Opened calls p id → Opened calls p id' → (after {} calls).registered id = true →
      (after {} calls).registered id' = true → id = id') ∧
    (∀ p id x later, Opened calls p id → Leaves p x →
      (after {} (calls ++ x :: later)).registered id = false ∧
        arrived id (calls ++ x :: later) = arrived id calls) := by
  have h := upheld calls
  refine ⟨fun id hreg hroomy d => ⟨h.counts id hreg hroomy _, h.counts id hreg hroomy _⟩, ?_,
    fun p id x later hopened hx => h.left hopened hx later⟩
  intro p id id' hopened hopened' hreg hreg'
  have hheld := h.holds p id hopened hreg
  rw [h.holds p id' hopened' hreg'] at hheld
  exact (Option.some.inj hheld).symm

/-- The same device is announced twice and withdrawn once. A stream that was opened in between has
it once; a stream that is left before the withdrawal does not hear of it. -/
theorem streams_keep_count_late :
    let desk : Provider := { id := 1, address := .v4 0x0A000001 }
    let calls : List Call := [.browse 1, .advertise desk "desk" 4000, .browse 2,
      .advertise desk "desk" 4000, .drain 1]
    let later : List Call := [.browse 1, .stopAdvertising "desk#2"]
    let d := serviceDevice desk "desk" 4000
    balance d.same (arrived 3 (calls ++ later)) = 1 ∧ arrived 1 calls = [.added d, .added d] ∧
      arrived 1 (calls ++ later) = [.added d, .added d] ∧
      ∀ id, Opened calls 1 id → (after {} calls).registered id = true → id = 1 := by
  intro desk calls later d
  have hopened : Opened calls 1 1 := ⟨[], calls.tail, rfl, rfl⟩
  have hcounts :=
    (streams_keep_count (calls ++ later)).1 3 (by decide +kernel) (by decide +kernel) d
  have hheard : arrived 1 calls = [.added d, .added d] := by decide +kernel
  refine ⟨hcounts.1.trans (by decide +kernel), hheard, ?_, fun id hid hreg => ?_⟩
  · rw [((streams_keep_count calls).2.2 1 1 (.browse 1) [.stopAdvertising "desk#2"] hopened
      (.inl rfl)).2, hheard]
  · exact (streams_keep_count calls).2.1 1 id 1 hid hopened hreg (by decide +kernel)

end Segment

end Discovery

end SharedClipboard

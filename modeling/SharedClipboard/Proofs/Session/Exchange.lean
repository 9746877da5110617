import SharedClipboard.Proofs.Packet.Stream
import SharedClipboard.Proofs.Play
import SharedClipboard.Proofs.Session.Life
import Mathlib.Logic.Function.Basic

/-!
# Two sessions with each other

A connection has two ends, and a link from each to the other (`Duplex`). What a side sends comes to
the other in order; when it comes is open.

An `Exchange` is a connection with a session at each end. What else happens to the sessions is
different from one question to the other: a `Conduct` says what may come to a side, and which
contents its group may send, and `Exchange.Run` is what can become of two sessions then.
-/

namespace SharedClipboard

/-! ## Two ends and two links -/

/-- The two ends of a connection, and what each has sent that has not come to the other. -/
structure Duplex (σ μ : Type) where
  side : Bool → σ
  link : Bool → List μ

namespace Duplex

variable {σ μ : Type} (x : Duplex σ μ) (a : Bool)

/-- A side changes and sends. -/
def act (s : σ) (ms : List μ) : Duplex σ μ where
  side := Function.update x.side a s
  link := Function.update x.link a (x.link a ++ ms)

/-- What a side sent first comes off its link. -/
def take : Duplex σ μ := { x with link := Function.update x.link a (x.link a).tail }

/-- Something is put on the link of a side. -/
def put (m : μ) : Duplex σ μ := { x with link := Function.update x.link a (x.link a ++ [m]) }

@[simp] theorem side_act_self (s : σ) (ms : List μ) : (x.act a s ms).side a = s := by
  simp [act]

@[simp] theorem side_act_other (s : σ) (ms : List μ) :
    (x.act a s ms).side (!a) = x.side (!a) := by
  simp [act]

@[simp] theorem link_act_self (s : σ) (ms : List μ) :
    (x.act a s ms).link a = x.link a ++ ms := by
  simp [act]

@[simp] theorem link_act_other (s : σ) (ms : List μ) :
    (x.act a s ms).link (!a) = x.link (!a) := by
  simp [act]

@[simp] theorem link_take_self : (x.take a).link a = (x.link a).tail := by
  simp [take]

@[simp] theorem link_take_other : (x.take (!a)).link a = x.link a := by
  simp [take]

@[simp] theorem link_put_self (m : μ) : (x.put a m).link a = x.link a ++ [m] := by
  simp [put]

@[simp] theorem link_put_other (m : μ) : (x.put a m).link (!a) = x.link (!a) := by
  simp [put]

variable {x a}

theorem link_of_head? {m : μ} (h : (x.link a).head? = some m) :
    x.link a = m :: (x.take a).link a := by
  obtain ⟨rest, hlink⟩ := List.head?_eq_some_iff.1 h
  rw [link_take_self, hlink, List.tail_cons]

end Duplex

/-! ## What a session sends and gets -/

namespace Session

def sends (actions : List Action) : List Packet :=
  actions.filterMap fun
    | .send p => some p
    | _ => none

theorem count_sends (actions : List Action) (p : Packet) :
    (sends actions).count p = actions.count (.send p) := by
  induction actions with
  | nil => rfl
  | cons a as ih =>
    cases a with
    | send q => simp [sends, List.count_cons, ← ih]
    | ask | remember _ | authenticated | update _ _ => simpa [sends, List.count_cons] using ih

/-- What the reader of a session makes of a packet that comes to it. -/
def arrival (s : Session) (p : Packet) : Received :=
  (receive s.settings.codec none .atTag [p.encode]).1

theorem arrival_eq_feed (s : Session) (p : Packet) :
    s.arrival p = (FrameReader.atTag.feed s.settings.codec (p.encode ++ [])).1.result none := by
  rw [arrival, (receive_eq_feed _ _ _ _).1, List.flatten_singleton, List.append_nil]

theorem arrival_of_fits {s : Session} {p : Packet} (h : s.settings.codec.Fits p) :
    s.arrival p = .packet p := by
  rw [arrival_eq_feed, FrameReader.feed_encode h]
  rfl

theorem arrival_of_tooLong {s : Session} {p : Packet}
    (hlimit : ∀ f ∈ p.fields, f.length < Bytes.lengthLimit) (h : ¬ s.settings.codec.Fits p) :
    ∃ cause, s.arrival p = .undecodable cause := by
  obtain ⟨f, -, -, hrefused⟩ := FrameReader.feed_of_tooLong hlimit h []
  rw [arrival_eq_feed, hrefused]
  exact ⟨_, rfl⟩

end Session

/-! ## Exchanges -/

/-- Two sessions at the ends of a connection, and the packets of each that the other has not
received. -/
abbrev Exchange := Duplex (Except CloseReason Session) Packet

namespace Exchange

open Session

structure Opening where
  settings : Settings
  direction : Direction
  mine : Option Fingerprint
  peer : Option Fingerprint
  view : View
  nonce : Bytes

def Opening.turn (o : Opening) : Turn :=
  (Session.fresh o.settings o.direction o.mine o.peer o.view.now).start o.view o.nonce

def opened (o : Bool → Opening) : Exchange where
  side a := (o a).turn.next
  link a := sends (o a).turn.actions

structure Event extends Moment where
  side : Bool
  before : Session

def event (a : Bool) (s : Session) (v : View) (i : Input) : Event :=
  ⟨⟨v, i, (s.step v i).actions⟩, a, s⟩

abbrev after (x : Exchange) (a : Bool) (t : Turn) : Exchange := x.act a t.next (sends t.actions)

abbrev read (x : Exchange) (a : Bool) : Exchange := x.take a

abbrev queue (x : Exchange) (a : Bool) (mime : String) (data : Bytes) : Exchange :=
  x.put a (.syncRequest mime data)

/-- What may happen to two sessions. -/
structure Conduct where
  /-- What comes to a side that runs, and the exchange without the packet that came. -/
  comes : Exchange → Bool → Session → View → Input → Exchange → Prop
  /-- The contents that the group of a side sends. -/
  content : Exchange → Bool → String → Bytes → Prop

/-- What can become of two sessions, and the moments that they lived through. -/
inductive Run (c : Conduct) (first : Exchange) : List Event → Exchange → Prop where
  | start : Run c first [] first
  | turn {log : List Event} {x x' : Exchange} {a : Bool} {s : Session} {i : Input} (v : View) :
      Run c first log x → x.side a = .ok s → c.comes x a s v i x' →
      Run c first (log ++ [event a s v i]) (x'.after a (s.step v i))
  | queued {log : List Event} {x : Exchange} {a : Bool} {mime : String} {data : Bytes} :
      Run c first log x → c.content x a mime data → Run c first log (x.queue a mime data)

/-! ## Playing moves -/

/-- What is done next: a packet of the other side comes to a side, something else happens to it, or
its group sends a content. -/
inductive Move where
  | deliver (a : Bool) (v : View)
  | happen (a : Bool) (v : View) (i : Input)
  | send (a : Bool) (mime : String) (data : Bytes)

/-- What a move leads to, if it can be made and passes the test. -/
def move? (ok : Exchange → Move → Bool) (r : List Event × Exchange) (m : Move) :
    Option (List Event × Exchange) :=
  let (log, x) := r
  if ok x m then
    match m with
    | .deliver a v =>
      match x.side a, (x.link (!a)).head? with
      | .ok s, some p =>
        let i := .received (s.arrival p)
        some (log ++ [event a s v i], (x.read (!a)).after a (s.step v i))
      | _, _ => none
    | .happen a v i =>
      match x.side a with
      | .ok s => some (log ++ [event a s v i], x.after a (s.step v i))
      | .error _ => none
    | .send a mime data => some (log, x.queue a mime data)
  else none

/-- The moves that pass the test are such as the conduct allows. -/
structure Conduct.Allows (c : Conduct) (ok : Exchange → Move → Bool) : Prop where
  deliver {x : Exchange} {a : Bool} {s : Session} {v : View} {p : Packet} :
    ok x (.deliver a v) = true → x.side a = .ok s → (x.link (!a)).head? = some p →
    c.comes x a s v (.received (s.arrival p)) (x.read (!a))
  happen {x : Exchange} {a : Bool} {s : Session} {v : View} {i : Input} :
    ok x (.happen a v i) = true → x.side a = .ok s → c.comes x a s v i x
  send {x : Exchange} {a : Bool} {mime : String} {data : Bytes} :
    ok x (.send a mime data) = true → c.content x a mime data

variable {c : Conduct} {ok : Exchange → Move → Bool} {first : Exchange}
  {r r' : List Event × Exchange}

theorem Run.of_move? (hok : c.Allows ok) (hrun : Run c first r.1 r.2) {m : Move}
    (h : move? ok r m = some r') : Run c first r'.1 r'.2 := by
  simp only [move?] at h
  split at h
  · rename_i hm
    cases m with
    | deliver a v =>
      simp only at h
      split at h
      · rename_i s p hs hp
        cases h
        exact hrun.turn v hs (hok.deliver hm hs hp)
      · cases h
    | happen a v i =>
      simp only at h
      split at h
      · rename_i s hs
        cases h
        exact hrun.turn v hs (hok.happen hm hs)
      · cases h
    | send a mime data =>
      cases h
      exact hrun.queued (hok.send hm)
  · cases h

theorem Run.of_play? (hok : c.Allows ok) (hrun : Run c first r.1 r.2) {ms : List Move}
    (h : play? (move? ok) r ms = some r') : Run c first r'.1 r'.2 :=
  SharedClipboard.of_play? (P := fun _ r => Run c first r.1 r.2) (fun hr hm => hr.of_move? hok hm)
    hrun h

end Exchange

end SharedClipboard

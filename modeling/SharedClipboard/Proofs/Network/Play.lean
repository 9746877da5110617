import SharedClipboard.Proofs.Network.Basic
import SharedClipboard.Proofs.Play

/-!
# Playing moves

What a move leads to can be computed (`turn?`), and so can a whole sequence of moves (`play`). Both
give only what can happen: `step_of_turn?`, `run_of_play`.
-/

namespace SharedClipboard.Network

variable {N : Type} [DecidableEq N] {w : Wiring N} {c : Codec} {n first last : Network N}

/-- What a move leads to, if it can be made. -/
def turn? (w : Wiring N) (c : Codec) (n : Network N) : Move N → Option (Turn N)
  | .publish u mime data =>
    match c.checkContent mime data with
    | .ok () => some (n.afterPublish w u mime data)
    | .error _ => none
  | .write u v => (n.line u v).outbox.head?.map (n.afterWrite u v)
  | .deliver u v =>
    match w.session v u, (n.line u v).wire.head? with
    | some id, some frame =>
      match c.decode frame with
      | .ok (.syncRequest mime data) => some (n.afterDelivery w u v id mime data)
      | _ => none
    | _, _ => none
  | .report u v =>
    match w.session u v, (n.line u v).reports.head? with
    | some id, some seq => some (n.afterReport u v id seq)
    | _, _ => none

theorem step_of_turn? {m : Move N} {t : Turn N} (h : n.turn? w c m = some t) : Step w c n t := by
  cases m with
  | publish u mime data =>
    simp only [turn?] at h
    split at h
    · rename_i hok
      cases h
      exact .publish u hok
    · cases h
  | write u v =>
    obtain ⟨x, hx, rfl⟩ := Option.map_eq_some_iff.1 h
    exact .write hx
  | deliver u v =>
    simp only [turn?] at h
    split at h
    · rename_i id frame hid hframe
      split at h
      · rename_i mime data hdecode
        cases h
        exact .deliver hid hframe hdecode
      · cases h
    · cases h
  | report u v =>
    simp only [turn?] at h
    split at h
    · rename_i id seq hid hseq
      cases h
      exact .report hid hseq
    · cases h

/-- Makes moves in order, and keeps the turns. -/
def play (w : Wiring N) (c : Codec) (first : Network N) (ms : List (Move N)) :
    Option (List (Turn N) × Network N) :=
  play? (fun r m => (r.2.turn? w c m).map fun t => (r.1 ++ [t], t.network)) ([], first) ms

theorem run_of_play {ts : List (Turn N)} {ms : List (Move N)}
    (h : play w c first ms = some (ts, last)) : Run w c first ts last := by
  refine of_play? (P := fun _ r => Run w c first r.1 r.2) (fun hr hmove => ?_) .start h
  obtain ⟨t, ht, rfl⟩ := Option.map_eq_some_iff.1 hmove
  exact hr.turn (step_of_turn? ht)

end SharedClipboard.Network

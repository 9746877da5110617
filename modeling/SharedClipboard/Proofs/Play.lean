/-!
# Playing moves

Moves are made in order, as far as each of them can be made. What every move keeps, a play keeps
(`of_play?`); so what is played is a run of the system that the moves belong to.
-/

namespace SharedClipboard

variable {σ μ : Type}

/-- Makes moves in order, if each can be made. -/
def play? (move? : σ → μ → Option σ) (x : σ) (ms : List μ) : Option σ := ms.foldlM move? x

theorem play?_cons (move? : σ → μ → Option σ) (x : σ) (m : μ) (ms : List μ) :
    play? move? x (m :: ms) = (move? x m).bind (play? move? · ms) := by
  rw [play?, List.foldlM_cons]
  rfl

theorem play?_snoc (move? : σ → μ → Option σ) (x : σ) (ms : List μ) (m : μ) :
    play? move? x (ms ++ [m]) = (play? move? x ms).bind (move? · m) := by
  induction ms generalizing x with
  | nil =>
    rw [List.nil_append, play?_cons]
    cases h : move? x m <;> simp [play?, h]
  | cons m₁ ms ih =>
    rw [List.cons_append, play?_cons, play?_cons, Option.bind_assoc]
    simp only [ih]

/-- What may be said of a state and the moves that led to it. -/
theorem of_play? {move? : σ → μ → Option σ} {P : List μ → σ → Prop}
    (hmove : ∀ {before x m y}, P before x → move? x m = some y → P (before ++ [m]) y) {x y : σ}
    {ms : List μ} (hx : P [] x) (h : play? move? x ms = some y) : P ms y := by
  -- The moves already made are those that the induction has left behind.
  suffices hafter : ∀ before x, P before x → play? move? x ms = some y → P (before ++ ms) y by
    simpa using hafter [] x hx h
  clear hx h
  induction ms with
  | nil =>
    intro before x hx h
    cases h
    rwa [List.append_nil]
  | cons m ms ih =>
    intro before x hx h
    rw [play?_cons, Option.bind_eq_some_iff] at h
    obtain ⟨x', hfirst, hrest⟩ := h
    rw [List.append_cons]
    exact ih _ x' (hmove hx hfirst) hrest

end SharedClipboard

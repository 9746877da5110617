import SharedClipboard.Proofs.Digest.Inputs
import SharedClipboard.Proofs.Group.History

/-!
# Which content is current

A history is asked by the digest of a content whether the content is current, and a content that is
current is dropped as an echo. So two contents with one digest would be taken for one.

**Theorem (`isCurrent_iff_recorded_last`).** As far as the digest tells apart the bytes of which it
is taken, a content is current exactly when it was recorded last, type and data.

The history of any number of recorded contents holds the last one as its content
(`Recorded.content_eq`), however short it is, because it has room for one at least. The rest is that
the bytes of which the digest is taken determine the content.
-/

namespace SharedClipboard.History

/-- The contents recorded so far, in order, and the history after them. -/
inductive Recorded (limit : Nat) : List (String × Bytes) → History → Prop where
  | fresh : Recorded limit [] (fresh limit)
  | record {log : List (String × Bytes)} {h : History} (mime : String) (data : Bytes)
      (origin : Origin) : Recorded limit log h →
      Recorded limit (log ++ [(mime, data)]) (h.record mime data origin).2

variable {limit : Nat} {log : List (String × Bytes)} {h : History}

theorem Recorded.honest (hrun : Recorded limit log h) : h.Honest := by
  induction hrun with
  | fresh => exact honest_fresh limit
  | record mime data origin _ ih => exact ih.record mime data origin

theorem Recorded.content_eq (hrun : Recorded limit log h) : h.content = log.getLast? := by
  cases hrun with
  | fresh => rfl
  | record mime data origin hrun => rw [content_record hrun.honest, List.getLast?_concat]

/-- **What is current was recorded last.** Let the content types have fewer than 2³² bytes, and let
the digest not take the content for the one that was recorded last if the bytes that it is taken of
differ. Then the history says that the content is current exactly when the content recorded last has
the same type and the same data; and the bytes that the digest is taken of are those of no other
content. -/
theorem isCurrent_iff_recorded_last (hrun : Recorded limit log h) {mime : String} {data : Bytes}
    (hshort : ∀ x ∈ (mime, data) :: log, (Text.utf8 x.1).length < Bytes.lengthLimit)
    (hdigest : ∀ x ∈ log.getLast?,
      Sha256.Separates (ContentHash.input mime data) (ContentHash.input x.1 x.2)) :
    (h.isCurrent (.of mime data) = true ↔ log.getLast? = some (mime, data)) ∧
      ∀ mime' data', (Text.utf8 mime').length < Bytes.lengthLimit →
        (ContentHash.input mime data = ContentHash.input mime' data' ↔
          mime = mime' ∧ data = data') := by
  rw [List.forall_mem_cons] at hshort
  refine ⟨?_, fun mime' data' hshort' => ContentHash.input_eq_iff hshort.1 hshort'⟩
  rw [isCurrent_eq hrun.honest, hrun.content_eq]
  cases hlast : log.getLast? with
  | none => simp
  | some x =>
    obtain ⟨mime', data'⟩ := x
    have hshort' := hshort.2 _ (List.mem_of_getLast? hlast)
    rw [Option.any_some, beq_iff_eq, eq_comm,
      ContentHash.of_eq_iff (hdigest _ hlast) hshort.1 hshort', Option.some.injEq, Prod.mk.injEq]
    exact and_congr eq_comm eq_comm

/-- The same bytes, split after the type by one more: the content is not current. -/
theorem isCurrent_iff_recorded_last_split :
    let h := ((fresh 1).record "text/plain" [97, 98] .local).2
    Recorded 1 [("text/plain", [97, 98])] h ∧ h.isCurrent (.of "text/plaina" [98]) = false := by
  intro h
  have hrun : Recorded 1 [("text/plain", [97, 98])] h := .record _ _ _ .fresh
  have hdigest : ∀ x ∈ [("text/plain", ([97, 98] : Bytes))].getLast?,
      Sha256.Separates (ContentHash.input "text/plaina" [98]) (ContentHash.input x.1 x.2) := by
    intro x hx
    cases hx
    exact fun hsame => absurd hsame (by decide +kernel)
  have hiff := (isCurrent_iff_recorded_last hrun (by decide +kernel) hdigest).1
  exact ⟨hrun, Bool.eq_false_iff.2 fun hcurrent => absurd (hiff.1 hcurrent) (by decide)⟩

end SharedClipboard.History

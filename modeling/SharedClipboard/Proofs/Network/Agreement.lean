import SharedClipboard.Proofs.Network.Crowded
import SharedClipboard.Proofs.Network.Flood
import SharedClipboard.Proofs.Network.Play

/-!
# Two nodes at rest

**Theorem (`agree_at_rest`).** Two nodes are connected with each other and with nobody else, are
quiet and hold the same content or none. Whatever their users publish, and in whatever order the
frames are written, delivered and reported: when the nodes are quiet again they hold the same
content, provided that no content was published on one side while an update of the other side was
waiting, on its way or not reported. If that is so of the last content only, then whatever crossed
before, the contents at rest have the same digest.

If two contents cross, each side may drop the other's as stale, and each keeps its own
(`crossing_contents_stay_apart`).

While nothing crosses, one node follows the other (`Follows`): nothing is under way from it, and
what is under way to it, taken up in order, leads from the content that it holds to the content of
the other (`CatchesUp`). So nothing is stale for it. Publishing on the side that is followed makes
the way longer, and publishing on the other side, when nothing is under way at all, turns it round.
-/

namespace SharedClipboard

/-- The frames that are not read yet, in the order in which they will be. -/
def Line.frames (l : Line) : List Bytes := l.wire ++ l.outbox.map (·.frame)

theorem Line.frames_written {l : Line} {x : Outgoing} (hx : l.outbox.head? = some x) :
    (l.written x).frames = l.frames := by
  obtain ⟨xs, hxs⟩ := List.head?_eq_some_iff.1 hx
  simp [frames, written, hxs]

theorem Line.frames_queue (l : Line) (x : Outgoing) :
    (l.queue [x]).frames = l.frames ++ [x.frame] := by
  simp [frames, queue]

theorem Line.frames_of_empty {l : Line} (h : l.Empty) : l.frames = [] := by
  rw [h]
  rfl

/-- By what a node tells contents apart. -/
def digest? (x : Option (String × Bytes)) : Option ContentHash := x.map fun x => .of x.1 x.2

theorem History.isCurrent_iff {h : History} (hh : h.Honest) {x : String × Bytes} :
    h.isCurrent (.of x.1 x.2) = true ↔ digest? h.content = digest? (some x) := by
  rw [isCurrent_eq hh]
  cases h.content with
  | none => simp [digest?]
  | some y => simp [digest?]

/-! ## Catching up -/

/-- Who holds the first content and takes up the contents in between in order, dropping those with
the digest of what it holds, comes to hold a content with the digest of the last one. If `exactly`,
none is dropped and it comes to hold the last one itself. -/
def CatchesUp (exactly : Bool) (here : Option (String × Bytes)) :
    List (String × Bytes) → Option (String × Bytes) → Prop
  | [], there => digest? here = digest? there ∧ (exactly = true → here = there)
  | x :: xs, there =>
    (exactly = true → digest? here ≠ digest? (some x)) ∧ CatchesUp exactly (some x) xs there

variable {exactly : Bool} {here there : Option (String × Bytes)} {x y : String × Bytes}
  {xs : List (String × Bytes)}

theorem CatchesUp.snoc (h : CatchesUp exactly here xs there)
    (hnew : digest? there ≠ digest? (some y)) : CatchesUp exactly here (xs ++ [y]) (some y) := by
  induction xs generalizing here with
  | nil => exact ⟨fun _ heq => hnew (h.1 ▸ heq), rfl, fun _ => rfl⟩
  | cons x xs ih => exact ⟨h.1, ih h.2⟩

/-- Whoever takes up a content last comes to hold it. -/
theorem catchesUp_snoc (here : Option (String × Bytes)) (xs : List (String × Bytes))
    (y : String × Bytes) : CatchesUp false here (xs ++ [y]) (some y) := by
  induction xs generalizing here with
  | nil => exact ⟨fun h => (Bool.false_ne_true h).elim, rfl, fun _ => rfl⟩
  | cons x xs ih => exact ⟨fun h => (Bool.false_ne_true h).elim, ih (some x)⟩

/-- A content with the digest of what is held may be dropped. -/
theorem CatchesUp.drop (h : CatchesUp exactly here (x :: xs) there)
    (hsame : digest? here = digest? (some x)) : CatchesUp exactly here xs there := by
  cases exactly with
  | true => exact absurd hsame (h.1 rfl)
  | false =>
    cases xs with
    | nil => exact ⟨hsame.trans h.2.1, fun h => (Bool.false_ne_true h).elim⟩
    | cons y ys => exact ⟨fun h => (Bool.false_ne_true h).elim, h.2.2⟩

namespace Network

variable {w : Wiring Bool} {c : Codec} {n first last : Network Bool} {s u v : Bool}

/-! ## One node follows the other -/

/-- The frame that carries a content. -/
def carrier (x : String × Bytes) : Bytes := (Packet.syncRequest x.1 x.2).encode

/-- The node `!s` catches up with the node `s`, from which alone anything is under way. -/
structure Follows (exactly : Bool) (c : Codec) (s : Bool) (n : Network Bool) : Prop where
  back : (n.line (!s) s).Empty
  ahead : ∃ xs, (n.line s !s).frames = xs.map carrier ∧
    (∀ x ∈ xs, c.Fits (.syncRequest x.1 x.2)) ∧
    CatchesUp exactly (n.group !s).history.content xs (n.group s).history.content

theorem Follows.direction (h : Follows exactly c s n) (hsound : Sound w c n)
    (hline : ¬ (n.line u v).Empty) : u = s ∧ v = !s := by
  have hv : v = !u := by
    by_contra hne
    rw [← Bool.eq_not.not_left.1 hne] at hline
    exact hline (hsound.proper.apart v v (w.loopless v))
  by_cases hu : u = s
  · exact ⟨hu, by rw [hv, hu]⟩
  · rw [hv, Bool.eq_not.2 hu, Bool.not_not] at hline
    exact absurd h.back hline

/-- The nodes do not change their contents, and no frame goes or comes. -/
theorem Follows.of_same {n' : Network Bool} (h : Follows exactly c s n)
    (hhistory : ∀ a, (n'.group a).history = (n.group a).history)
    (hback : (n'.line (!s) s) = n.line (!s) s)
    (hframes : (n'.line s !s).frames = (n.line s !s).frames) : Follows exactly c s n' where
  back := hback ▸ h.back
  ahead := by
    rw [hframes, hhistory, hhistory]
    exact h.ahead

theorem line_onLine_back (n : Network Bool) (s : Bool) (f : Line → Line) :
    (n.onLine s (!s) f).line (!s) s = n.line (!s) s := by
  rw [line_onLine, if_neg]
  cases s <;> simp

theorem line_onLine_ahead (n : Network Bool) (s : Bool) (f : Line → Line) :
    (n.onLine s (!s) f).line s (!s) = f (n.line s !s) := by
  rw [line_onLine, if_pos ⟨rfl, rfl⟩]

theorem Follows.write (h : Follows exactly c s n) {x : Outgoing}
    (hx : (n.line s !s).outbox.head? = some x) :
    Follows exactly c s (n.onLine s (!s) (·.written x)) :=
  h.of_same (fun _ => rfl) (line_onLine_back n s _)
    (by rw [line_onLine_ahead, Line.frames_written hx])

theorem Follows.report (h : Follows exactly c s n) (id : SessionId) (seq : Nat) :
    Follows exactly c s (n.afterReport s (!s) id seq).network :=
  h.of_same (history_afterReport n s (!s) id seq) (line_onLine_back n s _) (by
    show ((n.onLine s (!s) Line.reported).line s !s).frames = _
    rw [line_onLine_ahead]
    rfl)

/-- Nothing is under way from the node that follows, so it drops nothing as stale. -/
theorem Follows.deliver (h : Follows exactly c s n) (hsound : Sound w c n) {id : SessionId}
    {frame : Bytes} {mime : String} {data : Bytes} (hid : w.session (!s) s = some id)
    (hframe : (n.line s !s).wire.head? = some frame)
    (hdecode : c.decode frame = .ok (.syncRequest mime data)) :
    Follows exactly c s (n.afterDelivery w s (!s) id mime data).network := by
  obtain ⟨rest, hrest⟩ := List.head?_eq_some_iff.1 hframe
  obtain ⟨xs, hxs, hfits, hcatches⟩ := h.ahead
  have hread : ((n.line s !s).read).frames = xs.tail.map carrier := by
    rw [List.map_tail, ← hxs]
    simp [Line.frames, Line.read, hrest]
  cases xs with
  | nil => simp [Line.frames, hrest] at hxs
  | cons x xs =>
    have hcarrier : frame = carrier x := by
      simp only [Line.frames, hrest, List.cons_append, List.map_cons, List.cons.injEq] at hxs
      exact hxs.1
    rw [hcarrier, carrier, Codec.decode_encode (hfits x List.mem_cons_self)] at hdecode
    cases hdecode
    have hfits' : ∀ y ∈ xs, c.Fits (.syncRequest y.1 y.2) :=
      fun y hy => hfits y (List.mem_cons_of_mem x hy)
    -- The content is the current one and is dropped, or it is new, and no update is under way back.
    cases hcur : (n.group !s).history.isCurrent (.of x.1 x.2) with
    | true =>
      rw [hsound.afterDelivery_of_current hid hcur]
      refine ⟨by rw [line_onLine_back]; exact h.back, xs, ?_, hfits', ?_⟩
      · rw [line_onLine_ahead]
        exact hread
      · exact hcatches.drop ((History.isCurrent_iff (hsound.honest !s)).1 hcur)
    | false =>
      have hfree : ∀ e, (n.group !s).sessions.get? id = some e → e.inFlight = none := by
        intro e he
        cases hfl : e.inFlight with
        | none => rfl
        | some seq =>
          have hold := hsound.tracked (!s) s id e seq hid he hfl
          rw [h.back] at hold
          simp [Line.unreported] at hold
      obtain ⟨origin, hturn⟩ := hsound.afterDelivery_of_new hid hcur hfree
      rw [hturn]
      have hlines : ∀ a b, ((n.onLine s (!s) Line.read).spread w (!s) x.1 x.2 origin
          (some s)).line a b = (n.onLine s (!s) Line.read).line a b := by
        intro a b
        refine (hsound.read s !s).line_spread_of_not ?_ x.1 x.2 origin
        rintro ⟨-, hadj, hother⟩
        have hb : b = s := by
          have hne := hadj.ne
          cases b <;> cases s <;> simp_all
        exact hother (congrArg some hb)
      refine ⟨?_, xs, ?_, hfits', ?_⟩
      · rw [hlines, line_onLine_back]
        exact h.back
      · rw [hlines, line_onLine_ahead]
        exact hread
      · have hne : s ≠ !s := by cases s <;> simp
        rw [group_spread_self, group_spread_of_ne _ _ hne]
        show CatchesUp exactly ((n.group !s).history.record x.1 x.2 origin).2.content xs _
        rw [History.content_record (hsound.honest !s)]
        exact hcatches.2

/-- What happens without a content being published leaves the one node following the other. -/
theorem Follows.step (h : Follows exactly c s n) (hsound : Sound w c n) {t : Turn Bool}
    (hs : Step w c n t) (hquiet : t.published = none) : Follows exactly c s t.network := by
  -- Only the line from `s` carries anything, so a step on a line is one on this line.
  cases hs with
  | publish u hok =>
    rename_i mime data
    obtain ⟨-, hsame⟩ | ⟨-, htaken⟩ := afterPublish_cases n w u mime data
    · rw [hsame]
      exact h
    · rw [htaken] at hquiet
      cases hquiet
  | write hx =>
    obtain ⟨rfl, rfl⟩ := h.direction hsound fun hempty => by
      rw [hempty] at hx
      cases hx
    exact h.write hx
  | deliver hid hframe hdecode =>
    obtain ⟨rfl, rfl⟩ := h.direction hsound fun hempty => by
      rw [hempty] at hframe
      cases hframe
    exact h.deliver hsound hid hframe hdecode
  | report hid hseq =>
    obtain ⟨rfl, rfl⟩ := h.direction hsound fun hempty => by
      rw [hempty] at hseq
      cases hseq
    exact h.report _ _

/-! ## Publishing -/

/-- When nothing is under way at all, each node follows the other. -/
theorem Follows.turn (h : Follows exactly c s n) (hahead : (n.line s !s).Empty) :
    Follows exactly c (!s) n := by
  obtain ⟨xs, hxs, -, hcatches⟩ := h.ahead
  rw [Line.frames_of_empty hahead, eq_comm, List.map_eq_nil_iff] at hxs
  subst hxs
  refine ⟨by rw [Bool.not_not]; exact hahead, [], ?_, by simp, ?_⟩
  · rw [Bool.not_not, Line.frames_of_empty h.back]
    rfl
  · rw [Bool.not_not]
    exact ⟨hcatches.1.symm, fun hexactly => (hcatches.2 hexactly).symm⟩

/-- Every frame carries a content. -/
theorem Sound.exists_carried (h : Sound w c n) (u v : Bool) :
    ∃ xs : List (String × Bytes), (n.line u v).frames = xs.map carrier ∧
      ∀ x ∈ xs, c.Fits (.syncRequest x.1 x.2) := by
  have hall : ∀ b ∈ (n.line u v).frames, ∃ x : String × Bytes,
      c.Fits (.syncRequest x.1 x.2) ∧ carrier x = b := by
    intro b hb
    have hcarries : Carries c b := by
      rw [Line.frames, List.mem_append, List.mem_map] at hb
      obtain hwire | ⟨x, hx, rfl⟩ := hb
      · exact h.proper.wires u v b hwire
      · exact (h.proper.outboxes u v x hx).1
    obtain ⟨mime, data, hfits, rfl⟩ := hcarries
    exact ⟨(mime, data), hfits, rfl⟩
  choose! content hcontent using hall
  refine ⟨(n.line u v).frames.map content, ?_, ?_⟩
  · rw [List.map_map]
    exact ((List.map_congr_left fun b hb => (hcontent b hb).2).trans (List.map_id _)).symm
  · intro x hx
    obtain ⟨b, hb, rfl⟩ := List.mem_map.1 hx
    exact (hcontent b hb).1

/-- What is published when nothing is under way from the other node is what that node catches up
with next. -/
theorem Sound.follows_publish (hsound : Sound w c n) (hadj : w.graph.Adj u !u) {mime : String}
    {data : Bytes} (hok : c.checkContent mime data = .ok ())
    (hpublished : (n.afterPublish w u mime data).published ≠ none)
    (hback : (n.line (!u) u).Empty) (hfollows : exactly = true → ∃ s, Follows exactly c s n) :
    Follows exactly c u (n.afterPublish w u mime data).network := by
  obtain ⟨-, hsame⟩ | ⟨hcur, htaken⟩ := afterPublish_cases n w u mime data
  · rw [hsame] at hpublished
    exact absurd rfl hpublished
  · have hfits := Codec.checkContent_eq_ok_iff.1 hok
    have hne : (!u) ≠ u := by cases u <;> simp
    have hnew : digest? (n.group u).history.content ≠ digest? (some (mime, data)) := by
      intro hdigest
      rw [(History.isCurrent_iff (hsound.honest u)).2 hdigest] at hcur
      cases hcur
    have hahead : ∃ xs, (n.line u !u).frames = xs.map carrier ∧
        (∀ x ∈ xs, c.Fits (.syncRequest x.1 x.2)) ∧
        CatchesUp exactly (n.group !u).history.content (xs ++ [(mime, data)])
          (some (mime, data)) := by
      cases exactly with
      | false =>
        obtain ⟨xs, hxs, hxsfit⟩ := hsound.exists_carried u !u
        exact ⟨xs, hxs, hxsfit, catchesUp_snoc _ xs _⟩
      | true =>
        obtain ⟨s, hs⟩ := hfollows rfl
        have hu : Follows true c u n := by
          by_cases hsu : s = u
          · exact hsu ▸ hs
          · have hsu' : s = !u := Bool.eq_not.2 hsu
            subst hsu'
            rw [← Bool.not_not u]
            exact hs.turn (by rwa [Bool.not_not])
        obtain ⟨xs, hxs, hxsfit, hcatches⟩ := hu.ahead
        exact ⟨xs, hxs, hxsfit, hcatches.snoc hnew⟩
    obtain ⟨xs, hxs, hxsfit, hcatches⟩ := hahead
    rw [htaken]
    refine ⟨?_, xs ++ [(mime, data)], ?_, ?_, ?_⟩
    · rw [hsound.line_spread_of_not fun hon => hne hon.1]
      exact hback
    · rw [hsound.line_spread_of_onward ⟨hadj, by simp⟩, Line.frames_queue, hxs, List.map_append]
      rfl
    · intro x hx
      rw [List.mem_append, List.mem_singleton] at hx
      obtain hx | rfl := hx
      · exact hxsfit x hx
      · exact hfits
    · rw [group_spread_of_ne n w hne, group_spread_self]
      show CatchesUp exactly _ _ ((n.group u).history.record mime data .local).2.content
      rw [History.content_record (hsound.honest u)]
      exact hcatches

/-! ## Every run -/

/-- Nothing of the other side is waiting, on its way or not reported when a content is published. -/
def Turn.Uncrossed (n : Network Bool) (t : Turn Bool) : Prop :=
  ∀ u mime data, t.move = .publish u mime data → (n.line (!u) u).Empty

/-- Whenever a content is published and gets a number, or at least when the last one does, nothing
of the other side is under way. -/
def PublishedUncrossed (every : Bool) : Network Bool → List (Turn Bool) → Prop
  | _, [] => True
  | n, t :: ts =>
    (t.published ≠ none → (every = true ∨ ∀ t' ∈ ts, t'.published = none) → t.Uncrossed n) ∧
      PublishedUncrossed every t.network ts

/-- One node follows the other at the end, if it does at the start or if that begins with the last
content that is published. -/
theorem exists_follows_of_run (hadj : w.graph.Adj false true) {ts : List (Turn Bool)}
    (hsound : Sound w c first) (hrun : Run w c first ts last)
    (hstart : (∃ s, Follows exactly c s first) ∨
      exactly = false ∧ ∃ t ∈ ts, t.published ≠ none)
    (huncrossed : PublishedUncrossed exactly first ts) : ∃ s, Follows exactly c s last := by
  -- From the front: either somebody follows already, or the last publication is still to come.
  induction ts generalizing first with
  | nil =>
    rw [hrun.eq_of_nil]
    exact hstart.resolve_right fun ⟨_, t, ht, _⟩ => List.not_mem_nil ht
  | cons t ts ih =>
    obtain ⟨hs, hrest⟩ := hrun.split
    obtain ⟨hcross, hlater⟩ := huncrossed
    refine ih (sound_step hsound hs) hrest ?_ hlater
    by_cases hquiet : t.published = none
    · -- Nothing is published: whoever follows goes on following.
      obtain ⟨s, hfollows⟩ | ⟨hlast, t', ht', hpublished⟩ := hstart
      · exact .inl ⟨s, hfollows.step hsound hs hquiet⟩
      · obtain rfl | ht' := List.mem_cons.1 ht'
        · exact absurd hquiet hpublished
        · exact .inr ⟨hlast, t', ht', hpublished⟩
    · by_cases hagain : exactly = false ∧ ∃ t' ∈ ts, t'.published ≠ none
      · exact .inr hagain
      · have hfinal : exactly = true ∨ ∀ t' ∈ ts, t'.published = none := by
          cases exactly with
          | true => exact .inl rfl
          | false => exact .inr fun t' ht' => by_contra fun h => hagain ⟨rfl, t', ht', h⟩
        have hempty : t.Uncrossed first := hcross hquiet hfinal
        obtain ⟨u, mime, data, hok, rfl⟩ := hs.of_published hquiet
        have hadj' : w.graph.Adj u !u := by
          cases u
          · exact hadj
          · exact hadj.symm
        have hbefore : exactly = true → ∃ s, Follows exactly c s first := by
          rintro rfl
          exact hstart.resolve_right fun h => Bool.false_ne_true h.1.symm
        exact .inl ⟨u, hsound.follows_publish hadj' hok hquiet (hempty u mime data rfl) hbefore⟩

/-- At rest the one that follows has caught up. -/
theorem Follows.same_of_quiet (h : Follows exactly c s n) (hquiet : n.Quiet w) (u v : Bool) :
    digest? (n.group u).history.content = digest? (n.group v).history.content ∧
      (exactly = true → (n.group u).history.content = (n.group v).history.content) := by
  obtain ⟨xs, hxs, -, hcatches⟩ := h.ahead
  rw [Line.frames_of_empty (hquiet.lines s !s), eq_comm, List.map_eq_nil_iff] at hxs
  subst hxs
  obtain ⟨hdigest, hcontent⟩ := hcatches
  cases u <;> cases v <;> cases s <;> simp_all

/-- When nothing is under way and both hold the same, either follows the other. -/
theorem follows_of_quiet (hquiet : n.Quiet w) (s : Bool)
    (hsame : (n.group !s).history.content = (n.group s).history.content) :
    Follows exactly c s n where
  back := hquiet.lines (!s) s
  ahead := ⟨[], Line.frames_of_empty (hquiet.lines s !s), by simp, hsame ▸ ⟨rfl, fun _ => rfl⟩⟩

/-- **Agreement.** Two nodes are each other's only member, are quiet and hold the same content or
none. Contents are published on either side, and frames written, delivered and reported, in any
order, until the nodes are quiet again.

* If no content was published while an update of the other side was waiting, on its way or not
  reported, both nodes hold the same content.
* If that is so of the last content published, the contents of both nodes have the same digest. -/
theorem agree_at_rest (hadj : w.graph.Adj false true)
    (hreach : ∀ u, ∃ limit, Group.Reachable limit (first.group u)) (hjoined : first.Joined w)
    (hquiet : first.Quiet w)
    (hsame : (first.group true).history.content = (first.group false).history.content)
    {ts : List (Turn Bool)} (hrun : Run w c first ts last) (hrest : last.Quiet w) :
    (PublishedUncrossed true first ts →
        (last.group true).history.content = (last.group false).history.content) ∧
      (PublishedUncrossed false first ts →
        digest? (last.group true).history.content =
          digest? (last.group false).history.content) := by
  have hsound : Sound w c first := sound_start hreach hjoined hquiet
  constructor
  · intro huncrossed
    obtain ⟨s, hs⟩ := exists_follows_of_run hadj hsound hrun
      (.inl ⟨false, follows_of_quiet hquiet false hsame⟩) huncrossed
    exact (hs.same_of_quiet hrest true false).2 rfl
  · intro huncrossed
    obtain ⟨s, hs⟩ := exists_follows_of_run hadj hsound hrun
      (.inl ⟨false, follows_of_quiet hquiet false hsame⟩) huncrossed
    exact (hs.same_of_quiet hrest true false).1

theorem pair_run_from_rest :
    Run pair .default pairAtRest [pairPublish, pairWrite, pairDelivery, pairReport]
      pairReport.network := by
  have hpublish : Step pair .default pairAtRest pairPublish :=
    .publish false (Codec.checkContent_eq_ok_iff.2 (by decide))
  have hwrite : Step pair .default pairPublish.network pairWrite := .write rfl
  have hdelivery : Step pair .default pairWrite.network pairDelivery :=
    .deliver rfl rfl (Codec.decode_encode (by decide))
  have hreport : Step pair .default pairDelivery.network pairReport := .report rfl rfl
  exact (((Run.start.turn hpublish).turn hwrite).turn hdelivery).turn hreport

/-- The one publication meets nothing of the other side. -/
theorem pair_uncrossed (every : Bool) :
    PublishedUncrossed every pairAtRest [pairPublish, pairWrite, pairDelivery, pairReport] := by
  refine ⟨fun _ _ u mime data hmove => ?_, fun h => absurd rfl h, fun h => absurd rfl h,
    fun h => absurd rfl h, trivial⟩
  cases hmove
  rfl

/-- A text that one of two nodes publishes is what both hold at rest. -/
theorem agree_at_rest_pair :
    pair.graph.Adj false true ∧ (∀ u, Group.Reachable 10 (pairAtRest.group u)) ∧
      pairAtRest.Joined pair ∧ pairAtRest.Quiet pair ∧
      Run pair .default pairAtRest [pairPublish, pairWrite, pairDelivery, pairReport]
        pairReport.network ∧
      pairReport.network.Quiet pair ∧
      (pairReport.network.group true).history.content =
        (pairReport.network.group false).history.content := by
  have hadj : pair.graph.Adj false true := Wiring.adj_iff.2 ⟨0, rfl⟩
  have hagree := agree_at_rest hadj (fun _ => ⟨10, reachable_oneMember⟩) pair_joined pair_quiet rfl
    pair_run_from_rest pairReport_quiet
  exact ⟨hadj, fun _ => reachable_oneMember, pair_joined, pair_quiet, pair_run_from_rest,
    pairReport_quiet, hagree.1 (pair_uncrossed true)⟩

/-- Both nodes publish, and each reads the content of the other before it is told that its own is
written. -/
def bothPublish : List (Move Bool) :=
  [.publish false "text/plain" [1], .publish true "text/plain" [2], .write false true,
    .write true false, .deliver false true, .deliver true false, .report false true,
    .report true false]

/-- **Two contents cross.** Each node drops the content of the other as stale, and they are at rest
with different contents. -/
theorem crossing_contents_stay_apart :
    (∀ u, Group.Reachable 10 (pairAtRest.group u)) ∧ pairAtRest.Joined pair ∧
      pairAtRest.Quiet pair ∧
      (pairAtRest.group true).history.content = (pairAtRest.group false).history.content ∧
      ∃ ts last, Run pair .default pairAtRest ts last ∧ last.Quiet pair ∧
        (last.group false).history.content = some ("text/plain", [1]) ∧
        (last.group true).history.content = some ("text/plain", [2]) := by
  have hplay : (play pair .default pairAtRest bothPublish).map
      (fun r => (decide (∀ u v, r.2.line u v = {}), (r.2.group false).history.content,
        (r.2.group true).history.content)) =
      some (true, some ("text/plain", [1]), some ("text/plain", [2])) := by
    decide +kernel
  obtain ⟨⟨ts, last⟩, hr, hresult⟩ := Option.map_eq_some_iff.1 hplay
  simp only [Prod.mk.injEq] at hresult
  obtain ⟨hlines, hcontents⟩ := hresult
  have hrun : Run pair .default pairAtRest ts last := run_of_play hr
  have hsound : Sound pair .default pairAtRest :=
    sound_start (fun _ => ⟨10, reachable_oneMember⟩) pair_joined pair_quiet
  have hempty : ∀ u v, last.line u v = {} := of_decide_eq_true hlines
  have hrest : last.Quiet pair := (sound_run hsound hrun).quiet hempty
  exact ⟨fun _ => reachable_oneMember, pair_joined, pair_quiet, rfl, ts, last, hrun, hrest,
    hcontents⟩

end Network

end SharedClipboard

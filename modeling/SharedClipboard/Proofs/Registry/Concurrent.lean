import SharedClipboard.Proofs.Registry.Persistence

/-!
# Fingerprints remembered at once

Several sessions remember fingerprints through one registry with a file. A call has two steps: while
it holds the lock it takes the fingerprint up and copies the registry, and later, without the lock,
it writes its copy. `Run` relates the steps so far, of any number of calls and in any order, to the
registry, the file and the copies that are still to be written. No write fails.

**Theorem (`stored_of_last_write`).** Once all calls have returned, the file holds what the copy
that was written last holds: the fingerprints that were there at first, and those taken up until
that copy was taken. So the file holds every fingerprint remembered if and only if the copy taken
last is also the one written last.

A copy holds everything taken up before it, and any copy but the last lacks what was taken up next
(`Held`). Nothing makes the calls write in the order in which they copied, so a fingerprint whose
call has returned can be missing from the file (`late_write_loses`).
-/

namespace SharedClipboard

namespace FileRegistry

/-- A registry that several sessions use, its file, and the copies that are still to be written. -/
structure InUse where
  registry : Registry
  files : FileTree
  pending : List (List Fingerprint) := []

/-- A step of a call that remembers a fingerprint. -/
inductive CallStep where
  /-- The fingerprint is taken up. The call has a copy to write, unless the fingerprint was
  known. -/
  | took (f : Fingerprint) (copy? : Option (List Fingerprint))
  | wrote (copy : List Fingerprint)
  deriving DecidableEq, Repr

namespace CallStep

/-- The fingerprint that is remembered. -/
def fingerprint? : CallStep → Option Fingerprint
  | took f _ => some f
  | wrote _ => none

/-- The copy that is taken. -/
def taken? : CallStep → Option (List Fingerprint)
  | took _ copy? => copy?
  | wrote _ => none

/-- The copy that is written. -/
def written? : CallStep → Option (List Fingerprint)
  | took _ _ => none
  | wrote copy => some copy

end CallStep

/-- Calls take their steps in any order, and every write succeeds. -/
inductive InUse.Run (dataDir : FilePath) (first : InUse) : List CallStep → InUse → Prop where
  | start : Run dataDir first [] first
  | take {log : List CallStep} {s : InUse} {f : Fingerprint} {r : Registry}
      {copy? : Option (List Fingerprint)} : Run dataDir first log s →
      s.registry.remember f = .ok (r, copy?) →
      Run dataDir first (log ++ [.took f copy?])
        { s with registry := r, pending := s.pending ++ copy?.toList }
  | write {log : List CallStep} {s : InUse} {before after : List (List Fingerprint)}
      {copy : List Fingerprint} {files : FileTree} : Run dataDir first log s →
      s.pending = before ++ copy :: after → save s.files dataDir copy = .ok files →
      Run dataDir first (log ++ [.wrote copy]) { s with files, pending := before ++ after }

/-- The fingerprints that were remembered. -/
def remembered (log : List CallStep) : List Fingerprint := log.filterMap CallStep.fingerprint?

/-- The copies that were taken, in this order. -/
def taken (log : List CallStep) : List (List Fingerprint) := log.filterMap CallStep.taken?

/-- The copies that were written, in this order. -/
def written (log : List CallStep) : List (List Fingerprint) := log.filterMap CallStep.written?

variable {dataDir : FilePath} {files : FileTree} {r : Registry} {first s : InUse}
  {log : List CallStep} {f : Fingerprint}

/-- A registry in use takes up what it does not hold, and then its copy is what it holds. -/
theorem remember_cases (hr : r.broken = false) {r' : Registry} {copy? : Option (List Fingerprint)}
    (h : r.remember f = .ok (r', copy?)) :
    (f ∈ r.fingerprints ∧ r' = r ∧ copy? = none) ∨
      f ∉ r.fingerprints ∧ r'.broken = false ∧ copy? = some r'.fingerprints ∧
        ∀ g, g ∈ r'.fingerprints ↔ g = f ∨ g ∈ r.fingerprints := by
  by_cases hmem : f ∈ r.fingerprints
  · simp only [Registry.remember, hr, List.contains_iff_mem.2 hmem] at h
    cases h
    exact .inl ⟨hmem, rfl, rfl⟩
  · rw [Registry.remember, if_neg (by simp [hr]), if_neg (by simpa using hmem)] at h
    cases h
    exact .inr ⟨hmem, hr, rfl, fun g => Registry.mem_insert⟩

section Logs

variable (log : List CallStep) (f : Fingerprint) (copy : List Fingerprint)

@[simp] theorem remembered_took (copy? : Option (List Fingerprint)) :
    remembered (log ++ [.took f copy?]) = remembered log ++ [f] := by
  simp [remembered, CallStep.fingerprint?]

@[simp] theorem remembered_wrote : remembered (log ++ [.wrote copy]) = remembered log := by
  simp [remembered, CallStep.fingerprint?]

@[simp] theorem taken_known : taken (log ++ [.took f none]) = taken log := by
  simp [taken, CallStep.taken?]

@[simp] theorem taken_new : taken (log ++ [.took f (some copy)]) = taken log ++ [copy] := by
  simp [taken, CallStep.taken?]

@[simp] theorem taken_wrote : taken (log ++ [.wrote copy]) = taken log := by
  simp [taken, CallStep.taken?]

@[simp] theorem written_took (copy? : Option (List Fingerprint)) :
    written (log ++ [.took f copy?]) = written log := by
  simp [written, CallStep.written?]

@[simp] theorem written_wrote : written (log ++ [.wrote copy]) = written log ++ [copy] := by
  simp [written, CallStep.written?]

end Logs

theorem took_of_mem_taken {copy : List Fingerprint} (h : copy ∈ taken log) :
    ∃ before f after, log = before ++ .took f (some copy) :: after := by
  obtain ⟨step, hmem, hstep⟩ := List.mem_filterMap.1 h
  cases step with
  | took f copy? =>
    obtain ⟨before, after, heq⟩ := List.append_of_mem hmem
    cases hstep
    exact ⟨before, f, after, heq⟩
  | wrote copy => cases hstep

/-- The copy holds the fingerprints that were there at first and those taken up until it was
taken. -/
def Copies (first : Registry) (log : List CallStep) : Prop :=
  ∀ before f copy after, log = before ++ .took f (some copy) :: after →
    ∀ g, g ∈ copy ↔ g ∈ first.fingerprints ∨ g = f ∨ g ∈ remembered before

/-- What the registry, the copies and the file hold. -/
structure Held (dataDir : FilePath) (first : Registry) (log : List CallStep) (s : InUse) :
    Prop where
  usable : s.registry.broken = false
  registry : ∀ f, f ∈ s.registry.fingerprints ↔ f ∈ first.fingerprints ∨ f ∈ remembered log
  copies : Copies first log
  /-- Nothing was taken up since the last copy was taken. -/
  last : s.registry.fingerprints = (taken log).getLast?.getD first.fingerprints
  /-- Every other copy lacks something. -/
  lacks : ∀ copy ∈ taken log, (taken log).getLast? = some copy ∨ ∃ f ∈ remembered log, f ∉ copy
  pending : (taken log).Perm (written log ++ s.pending)
  stored : ∀ f, Stored s.files dataDir f ↔ f ∈ (written log).getLast?.getD first.fingerprints

/-- A copy holds nothing that the registry does not hold. -/
theorem Held.mem_registry (h : Held dataDir r log s) {copy : List Fingerprint}
    (hcopy : copy ∈ taken log) {g : Fingerprint} (hg : g ∈ copy) :
    g ∈ s.registry.fingerprints := by
  obtain ⟨before, f, after, rfl⟩ := took_of_mem_taken hcopy
  rw [h.registry]
  obtain hfirst | rfl | hbefore := (h.copies before f copy after rfl g).1 hg
  · exact .inl hfirst
  · exact .inr (by simp [remembered, CallStep.fingerprint?])
  · exact .inr (by
      rw [remembered, List.filterMap_append, List.mem_append]
      exact .inl hbefore)

theorem copies_snoc (hcopies : Copies r log) {step : CallStep}
    (hstep : ∀ f copy, step = .took f (some copy) →
      ∀ g, g ∈ copy ↔ g ∈ r.fingerprints ∨ g = f ∨ g ∈ remembered log) :
    Copies r (log ++ [step]) := by
  intro before f copy after heq
  cases after using List.reverseRecOn with
  | nil =>
    obtain ⟨rfl, hlast⟩ := List.append_inj' heq rfl
    cases hlast
    exact hstep f copy rfl
  | append_singleton after last =>
    rw [← List.cons_append, ← List.append_assoc] at heq
    exact hcopies before f copy after (List.append_inj' heq rfl).1

theorem held_open (h : load files dataDir = .ok r) : Held dataDir r [] ⟨r, files, []⟩ where
  usable := usable_of_load h
  registry f := by simp [remembered]
  copies before f copy after heq := by simp at heq
  last := rfl
  lacks copy hcopy := by simp [taken] at hcopy
  pending := .nil
  stored f := stored_iff_of_load h

/-- The fingerprint is known, and the call has nothing to write. -/
theorem Held.take_known (h : Held dataDir r log s) (hf : f ∈ s.registry.fingerprints) :
    Held dataDir r (log ++ [.took f none]) s where
  usable := h.usable
  registry g := by
    rw [remembered_took, List.mem_append, List.mem_singleton, ← or_assoc, ← h.registry]
    exact ⟨.inl, fun hg => hg.elim id fun heq => heq ▸ hf⟩
  copies := copies_snoc h.copies fun _ _ heq => by cases heq
  last := by rw [taken_known, h.last]
  lacks copy hcopy := by
    rw [taken_known] at hcopy ⊢
    refine (h.lacks copy hcopy).imp_right fun ⟨g, hg, hlacks⟩ => ⟨g, ?_, hlacks⟩
    rw [remembered_took]
    exact List.mem_append_left _ hg
  pending := by rw [taken_known, written_took]; exact h.pending
  stored g := by rw [written_took, h.stored]

/-- The fingerprint is taken up, and every copy taken before lacks it. -/
theorem Held.take_new (h : Held dataDir r log s) (hf : f ∉ s.registry.fingerprints) {r' : Registry}
    (hr : r'.broken = false)
    (hmem : ∀ g, g ∈ r'.fingerprints ↔ g = f ∨ g ∈ s.registry.fingerprints) :
    Held dataDir r (log ++ [.took f (some r'.fingerprints)])
      { s with registry := r', pending := s.pending ++ [r'.fingerprints] } where
  usable := hr
  registry g := by
    rw [remembered_took, List.mem_append, List.mem_singleton, ← or_assoc, ← h.registry, hmem,
      or_comm]
  copies := copies_snoc h.copies fun f' copy heq g => by
    cases heq
    rw [hmem, h.registry, or_left_comm]
  last := by simp
  -- An older copy lacks the new fingerprint, and the new copy is the last one.
  lacks copy hcopy := by
    rw [taken_new, List.mem_append, List.mem_singleton] at hcopy
    obtain hold | rfl := hcopy
    · exact .inr ⟨f, by simp, fun hin => hf (h.mem_registry hold hin)⟩
    · exact .inl (by simp)
  pending := by
    rw [taken_new, written_took, ← List.append_assoc]
    exact h.pending.append_right _
  stored g := by rw [written_took, h.stored]

/-- The file holds the copy that was written last. -/
theorem Held.write (h : Held dataDir r log s) {before after : List (List Fingerprint)}
    {copy : List Fingerprint} (hpending : s.pending = before ++ copy :: after)
    (hsave : save s.files dataDir copy = .ok files) :
    Held dataDir r (log ++ [.wrote copy]) { s with files, pending := before ++ after } where
  usable := h.usable
  registry g := by rw [remembered_wrote, h.registry]
  copies := copies_snoc h.copies fun _ _ heq => by cases heq
  last := by rw [taken_wrote, h.last]
  lacks c hc := by
    rw [taken_wrote] at hc ⊢
    rw [remembered_wrote]
    exact h.lacks c hc
  pending := by
    rw [taken_wrote, written_wrote, List.append_assoc, List.singleton_append]
    refine h.pending.trans ?_
    rw [hpending]
    exact List.perm_middle.append_left _
  stored g := by
    rw [written_wrote, List.getLast?_concat, Option.getD_some,
      stored_iff_of_load (load_of_save hsave),
      Registry.mem_ofList]

theorem held_run (hfirst : Held dataDir r [] first) (hrun : InUse.Run dataDir first log s) :
    Held dataDir r log s := by
  induction hrun with
  | start => exact hfirst
  | take _ hremember ih =>
    obtain ⟨hknown, rfl, rfl⟩ | ⟨hnew, hr, rfl, hmem⟩ := remember_cases ih.usable hremember
    · simpa using ih.take_known hknown
    · exact ih.take_new hnew hr hmem
  | write _ hpending hsave ih => exact ih.write hpending hsave

/-- Everything is stored if and only if the copy taken last was written last. -/
theorem Held.all_stored_iff (h : Held dataDir r log s) (hdone : s.pending = []) :
    (∀ f ∈ remembered log, Stored s.files dataDir f) ↔
      (written log).getLast? = (taken log).getLast? := by
  have hperm : (taken log).Perm (written log) := by simpa [hdone] using h.pending
  constructor
  · intro hall
    cases hwritten : (written log).getLast? with
    | none =>
      rw [List.getLast?_eq_none_iff] at hwritten
      rw [hwritten] at hperm
      rw [List.perm_nil.1 hperm, List.getLast?_nil]
    | some copy =>
      obtain hlast | ⟨f, hf, hlacks⟩ :=
        h.lacks copy (hperm.mem_iff.2 (List.mem_of_getLast? hwritten))
      · exact hlast.symm
      · have hin := (h.stored f).1 (hall f hf)
        rw [hwritten] at hin
        exact absurd hin hlacks
  · intro hlast f hf
    rw [h.stored, hlast, ← h.last, h.registry]
    exact .inr hf

/-- **What is left of fingerprints remembered at once.** A registry is opened, and calls that
remember fingerprints take their steps in any order, with every write succeeding. When all have
returned, each copy taken was written, and the file holds what the copy written last holds, which
are the fingerprints that were there at first and those taken up until it was taken. So the file
holds every fingerprint remembered if and only if the copy taken last is the one written last. -/
theorem stored_of_last_write (hopen : load files dataDir = .ok r)
    (hrun : InUse.Run dataDir ⟨r, files, []⟩ log s) (hdone : s.pending = []) :
    (taken log).Perm (written log) ∧
      (∀ f, Stored s.files dataDir f ↔ f ∈ (written log).getLast?.getD r.fingerprints) ∧
      Copies r log ∧
      ((∀ f ∈ remembered log, Stored s.files dataDir f) ↔
        (written log).getLast? = (taken log).getLast?) := by
  have hheld := held_run (held_open hopen) hrun
  exact ⟨by simpa [hdone] using hheld.pending, hheld.stored, hheld.copies,
    hheld.all_stored_iff hdone⟩

/-! ## Two sessions -/

def phone : Fingerprint := ⟨"phone"⟩

def tablet : Fingerprint := ⟨"tablet"⟩

/-- The files when the registry file holds these fingerprints. -/
def filed (fs : List Fingerprint) : FileTree :=
  ⟨[(["data"], .directory), (path ["data"], .file (toJson fs))]⟩

theorem save_unused (fs : List Fingerprint) : save unused.files ["data"] fs = .ok (filed fs) := rfl

theorem save_filed (fs gs : List Fingerprint) : save (filed fs) ["data"] gs = .ok (filed gs) := rfl

/-- Two sessions have copied a new registry and have not written yet. -/
theorem two_copies :
    InUse.Run ["data"] ⟨unused.registry, unused.files, []⟩
      ([] ++ [.took tablet (some [tablet])] ++ [.took phone (some [phone, tablet])])
      ⟨⟨[phone, tablet], false⟩, unused.files, [[tablet], [phone, tablet]]⟩ :=
  (InUse.Run.start.take (r := ⟨[tablet], false⟩) rfl).take rfl

/-- The copies are written in the order in which they were taken, and nothing is lost. -/
theorem stored_of_ordered_writes :
    load unused.files ["data"] = .ok unused.registry ∧
      ∃ log s, InUse.Run ["data"] ⟨unused.registry, unused.files, []⟩ log s ∧ s.pending = [] ∧
        ∀ f ∈ [tablet, phone], Stored s.files ["data"] f := by
  have hfirst : [[tablet], [phone, tablet]] = [] ++ [tablet] :: [[phone, tablet]] := rfl
  have hsecond : [[phone, tablet]] = [] ++ [phone, tablet] :: [] := rfl
  have hrun := (two_copies.write hfirst (save_unused [tablet])).write hsecond
    (save_filed _ [phone, tablet])
  exact ⟨load_unused, _, _, hrun, rfl, (stored_of_last_write load_unused hrun rfl).2.2.2.2 rfl⟩

/-- **A late write loses a fingerprint.** The session that took its copy first writes it last. -/
theorem late_write_loses :
    load unused.files ["data"] = .ok unused.registry ∧
      ∃ log s, InUse.Run ["data"] ⟨unused.registry, unused.files, []⟩ log s ∧ s.pending = [] ∧
        phone ∈ remembered log ∧ ¬ Stored s.files ["data"] phone := by
  have hsecond : [[tablet], [phone, tablet]] = [[tablet]] ++ [phone, tablet] :: [] := rfl
  have hfirst : [[tablet]] = [] ++ [tablet] :: [] := rfl
  have hrun := (two_copies.write hsecond (save_unused [phone, tablet])).write hfirst
    (save_filed _ [tablet])
  refine ⟨load_unused, _, _, hrun, rfl, by decide, ?_⟩
  rw [(held_run (held_open load_unused) hrun).stored]
  decide

end FileRegistry

end SharedClipboard

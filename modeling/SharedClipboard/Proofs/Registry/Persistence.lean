import SharedClipboard.Auth.Registry
import SharedClipboard.Proofs.Json.RoundTrip
import Mathlib.Data.List.Induction

/-!
# What the registry file holds

**Theorem (`remembered_is_stored_iff`).** A registry is opened, and fingerprints are remembered one
after another, while any write of the file may fail. When remembering a fingerprint succeeds, the
file holds it, and a registry that is opened then trusts it, if and only if the fingerprint is not
one that could not be written before, without the file being written since.

The registry takes a fingerprint up before it writes the file, and keeps it if that fails. So the
file holds what the registry holds, without the fingerprints that could not be written since the
file was written last (`InStep`). Remembering one of these again succeeds and writes nothing
(`retry_is_not_stored`); the file holds it only once another fingerprint is written.
-/

namespace SharedClipboard

namespace FileTree

theorem get?_put_self (t : FileTree) (p : FilePath) (n : Node) : (t.put p n).get? p = some n := by
  have hnone : (t.entries.filter (·.1 ≠ p)).find? (·.1 = p) = none := by
    simp [List.find?_eq_none]
  have hfind : (t.put p n).entries.find? (·.1 = p) = some (p, n) := by
    rw [put, List.find?_append, hnone]
    simp
  rw [get?, hfind]

/-- A file holds what was written. -/
theorem read_of_write {t t' : FileTree} {p : FilePath} {content : Bytes}
    (h : t.write p content = .ok t') : t'.read p = .ok content := by
  have hput : t' = t.put p (.file content) := by
    simp only [write] at h
    split at h
    · cases h
    · exact (Except.ok.inj h).symm
    · split at h
      · exact (Except.ok.inj h).symm
      · split at h <;> cases h
  rw [hput, read, get?_put_self]

end FileTree

theorem Registry.mem_ofList {f : Fingerprint} {fs : List Fingerprint} :
    f ∈ (ofList fs).fingerprints ↔ f ∈ fs := by
  have hfold : ∀ gs : List Fingerprint,
      f ∈ fs.foldl (fun gs g => insert g gs) gs ↔ f ∈ fs ∨ f ∈ gs := by
    induction fs with
    | nil => simp
    | cons g fs ih =>
      intro gs
      rw [List.foldl_cons, ih, mem_insert, List.mem_cons]
      tauto
  simp [ofList, hfold]

namespace FileRegistry

open Json Reader

variable {files files' : FileTree} {dataDir : FilePath} {r : Registry} {f : Fingerprint}
  {fs : List Fingerprint}

/-! ## The file -/

theorem readField_listText (texts : List String) (rest : Bytes) :
    readField none key (0x3A :: 0x20 :: (Text.utf8 (listText texts) ++ rest)) =
      .ok (some texts, rest) := by
  rw [readField, if_pos rfl, once, if_neg (by simp), bind_ok (colon_cons _)]
  show (array string >>= fun texts => pure (some texts)) _ = _
  rw [bind_ok (array_listText texts rest)]
  rfl

/-- The file spells the fingerprints for which it was made. -/
theorem ofJson?_toJson (fs : List Fingerprint) : ofJson? (toJson fs) = .ok fs := by
  have hrecord : record none readField readComplete
      (do readComplete (← element? true (array string))) (toJson fs) =
        .ok (fs.map (·.text), []) :=
    record_textsUnder (readField_listText _) fun _ => rfl
  rw [ofJson?, run_ok hrecord]
  show Except.ok ((fs.map (·.text)).map Fingerprint.mk) = _
  rw [List.map_map]
  exact congrArg Except.ok (List.map_id fs)

/-- The file spells the fingerprint. -/
def Stored (files : FileTree) (dataDir : FilePath) (f : Fingerprint) : Prop :=
  ∃ content fs, files.read (path dataDir) = .ok content ∧ ofJson? content = .ok fs ∧ f ∈ fs

/-- A registry that is opened holds what the file spells. -/
theorem stored_iff_of_load (h : load files dataDir = .ok r) :
    Stored files dataDir f ↔ f ∈ r.fingerprints := by
  simp only [load] at h
  cases hread : files.read (path dataDir) with
  | error e =>
    rw [hread] at h
    simp only at h
    split at h
    · cases h
      simp [Stored, hread]
    · cases h
  | ok content =>
    rw [hread] at h
    simp only at h
    cases hjson : ofJson? content with
    | error e =>
      rw [hjson] at h
      cases h
    | ok fs =>
      rw [hjson] at h
      cases h
      simp [Stored, hread, hjson, Registry.mem_ofList]

theorem usable_of_load (h : load files dataDir = .ok r) : r.broken = false := by
  simp only [load] at h
  split at h
  · split at h <;> cases h
    rfl
  · split at h <;> cases h
    rfl

theorem trusts_iff_of_load (h : load files dataDir = .ok r) :
    r.trusts f = true ↔ Stored files dataDir f := by
  rw [stored_iff_of_load h, Registry.trusts, usable_of_load h]
  simp

/-- What was saved is what is loaded. -/
theorem load_of_save (h : save files dataDir fs = .ok files') :
    load files' dataDir = .ok (.ofList fs) := by
  have hread : files'.read (path dataDir) = .ok (toJson fs) := by
    cases hmake : files.makeDirectory dataDir with
    | error e =>
      rw [save, hmake] at h
      cases h
    | ok made =>
      have hwrite : (made.write (path dataDir) (toJson fs)).mapError Error.io = .ok files' := by
        rw [save, hmake] at h
        exact h
      cases hwritten : made.write (path dataDir) (toJson fs) with
      | error e =>
        rw [hwritten] at hwrite
        cases hwrite
      | ok written =>
        rw [hwritten] at hwrite
        cases hwrite
        exact FileTree.read_of_write hwritten
  rw [load, hread]
  simp only [ofJson?_toJson]

/-! ## Remembering fingerprints while writing may fail -/

/-- A registry in memory and the files around it. -/
structure Kept where
  registry : Registry
  files : FileTree

/-- Replaces the file, unless the operating system reports a failure. -/
def saveUnder (fault : Option IoError) (files : FileTree) (dataDir : FilePath)
    (fs : List Fingerprint) : Except Error FileTree :=
  match fault with
  | some e => .error (.io e)
  | none => save files dataDir fs

theorem save_of_saveUnder {fault : Option IoError}
    (h : saveUnder fault files dataDir fs = .ok files') : save files dataDir fs = .ok files' := by
  cases fault with
  | none => exact h
  | some e => cases h

/-- Adds a fingerprint and writes the file, unless the operating system reports a failure. -/
def Kept.remember (k : Kept) (dataDir : FilePath) (fault : Option IoError) (f : Fingerprint) :
    Except Error Unit × Kept :=
  match k.registry.remember f with
  | .error e => (.error e, k)
  | .ok (r, none) => (.ok (), { k with registry := r })
  | .ok (r, some fs) =>
    match saveUnder fault k.files dataDir fs with
    | .ok files => (.ok (), ⟨r, files⟩)
    | .error e => (.error e, { k with registry := r })

/-- Without a failure of the operating system a fingerprint is remembered as always. -/
theorem Kept.remember_none (k : Kept) (dataDir : FilePath) (f : Fingerprint) :
    k.remember dataDir none f =
      let done := FileRegistry.remember k.registry k.files dataDir f
      (done.1, ⟨done.2.1, done.2.2⟩) := by
  simp only [Kept.remember, FileRegistry.remember, saveUnder]
  cases k.registry.remember f with
  | error e => rfl
  | ok x =>
    obtain ⟨r, _ | fs⟩ := x
    · rfl
    · cases hsave : save k.files dataDir fs <;> simp only [hsave]

/-- A fingerprint that was to be remembered, and what came of it. -/
structure Call where
  fingerprint : Fingerprint
  /-- The registry held the fingerprint before. -/
  known : Bool
  answer : Except Error Unit

/-- The file was written. -/
def Call.Wrote (c : Call) : Prop := c.known = false ∧ c.answer = .ok ()

/-- The fingerprint could not be written. -/
def Call.Failed (c : Call) : Prop := c.answer ≠ .ok ()

def Kept.call (k : Kept) (dataDir : FilePath) (fault : Option IoError) (f : Fingerprint) :
    Call where
  fingerprint := f
  known := k.registry.fingerprints.contains f
  answer := (k.remember dataDir fault f).1

/-- Fingerprints are remembered one after another, and every write may fail. -/
inductive Run (dataDir : FilePath) (first : Kept) : List Call → Kept → Prop where
  | start : Run dataDir first [] first
  | call {log : List Call} {k : Kept} (fault : Option IoError) (f : Fingerprint) :
      Run dataDir first log k →
      Run dataDir first (log ++ [k.call dataDir fault f]) (k.remember dataDir fault f).2

/-- The fingerprint could not be written, and the file was not written since. -/
def Unwritten (log : List Call) (f : Fingerprint) : Prop :=
  ∃ before c after, log = before ++ c :: after ∧ c.Failed ∧ c.fingerprint = f ∧
    ∀ c' ∈ after, ¬ c'.Wrote

theorem not_unwritten_nil (f : Fingerprint) : ¬ Unwritten [] f := by
  rintro ⟨before, c, after, h, -⟩
  simp at h

theorem unwritten_snoc {log : List Call} {c : Call} {f : Fingerprint} :
    Unwritten (log ++ [c]) f ↔
      c.Failed ∧ c.fingerprint = f ∨ Unwritten log f ∧ ¬ c.Wrote := by
  constructor
  · rintro ⟨before, c', after, h, hfailed, hf, hafter⟩
    cases after using List.reverseRecOn with
    | nil =>
      obtain ⟨-, hc⟩ := List.append_inj' h rfl
      cases hc
      exact .inl ⟨hfailed, hf⟩
    | append_singleton after last =>
      rw [← List.cons_append, ← List.append_assoc] at h
      obtain ⟨rfl, hc⟩ := List.append_inj' h rfl
      cases hc
      exact .inr ⟨⟨before, c', after, rfl, hfailed, hf,
        fun c'' hc'' => hafter c'' (List.mem_append_left _ hc'')⟩, hafter c (by simp)⟩
  · rintro (⟨hfailed, hf⟩ | ⟨⟨before, c', after, rfl, hfailed, hf, hafter⟩, hc⟩)
    · exact ⟨log, c, [], rfl, hfailed, hf, by simp⟩
    · refine ⟨before, c', after ++ [c], by simp, hfailed, hf, fun c'' hc'' => ?_⟩
      obtain hc'' | hc'' := List.mem_append.1 hc''
      · exact hafter c'' hc''
      · rw [List.mem_singleton] at hc''
        exact hc'' ▸ hc

/-! ## The file and the registry -/

variable {k k' : Kept} {log : List Call}

/-- A fingerprint that is known is not written; another one is taken up, and written unless that
fails. -/
theorem Kept.remember_cases (hk : k.registry.broken = false) (dataDir : FilePath)
    (fault : Option IoError) (f : Fingerprint) :
    (f ∈ k.registry.fingerprints ∧ k.remember dataDir fault f = (.ok (), k)) ∨
      f ∉ k.registry.fingerprints ∧ ∃ r, r.broken = false ∧
        r.fingerprints = Registry.insert f k.registry.fingerprints ∧
        ((∃ files, save k.files dataDir r.fingerprints = .ok files ∧
            k.remember dataDir fault f = (.ok (), ⟨r, files⟩)) ∨
          ∃ e, k.remember dataDir fault f = (.error e, ⟨r, k.files⟩)) := by
  by_cases hmem : f ∈ k.registry.fingerprints
  · refine .inl ⟨hmem, ?_⟩
    simp [Kept.remember, Registry.remember, hk, hmem]
  · let r : Registry := { k.registry with
      fingerprints := Registry.insert f k.registry.fingerprints }
    have hremember : k.registry.remember f = .ok (r, some r.fingerprints) := by
      simp [Registry.remember, hk, hmem, r]
    refine .inr ⟨hmem, r, hk, rfl, ?_⟩
    cases hsave : saveUnder fault k.files dataDir r.fingerprints with
    | error e => exact .inr ⟨e, by simp only [Kept.remember, hremember, hsave]⟩
    | ok files =>
      exact .inl ⟨files, save_of_saveUnder hsave, by simp only [Kept.remember, hremember, hsave]⟩

/-- The file holds what the registry holds and could be written. -/
structure InStep (dataDir : FilePath) (log : List Call) (k : Kept) : Prop where
  usable : k.registry.broken = false
  unwritten : ∀ f, Unwritten log f → f ∈ k.registry.fingerprints
  opens : ∃ r, load k.files dataDir = .ok r ∧
    ∀ f, f ∈ r.fingerprints ↔ f ∈ k.registry.fingerprints ∧ ¬ Unwritten log f

theorem inStep_open (h : load files dataDir = .ok r) : InStep dataDir [] ⟨r, files⟩ where
  usable := usable_of_load h
  unwritten f hf := absurd hf (not_unwritten_nil f)
  opens := ⟨r, h, fun f => ⟨fun hf => ⟨hf, not_unwritten_nil f⟩, And.left⟩⟩

/-- Remembering a fingerprint keeps the file in step, and if it succeeds the registry holds the
fingerprint, and only what could not be written before is not written now. -/
theorem InStep.call (h : InStep dataDir log k) (fault : Option IoError) (f : Fingerprint) :
    InStep dataDir (log ++ [k.call dataDir fault f]) (k.remember dataDir fault f).2 ∧
      ((k.remember dataDir fault f).1 = .ok () →
        f ∈ (k.remember dataDir fault f).2.registry.fingerprints ∧
          (Unwritten (log ++ [k.call dataDir fault f]) f ↔ Unwritten log f)) := by
  obtain ⟨r₀, hload, hmem⟩ := h.opens
  obtain ⟨hknown, hcall⟩ | ⟨hnew, r, hr, hfs, ⟨files, hsave, hcall⟩ | ⟨e, hcall⟩⟩ :=
    Kept.remember_cases h.usable dataDir fault f
  · -- Nothing is written, and nothing fails.
    have hsame : ∀ g, Unwritten (log ++ [k.call dataDir fault f]) g ↔ Unwritten log g := by
      intro g
      rw [unwritten_snoc]
      simp [Call.Failed, Call.Wrote, Kept.call, hcall, hknown]
    rw [hcall]
    refine ⟨⟨h.usable, fun g hg => h.unwritten g ((hsame g).1 hg), r₀, hload, fun g => ?_⟩,
      fun _ => ⟨hknown, hsame f⟩⟩
    rw [hsame]
    exact hmem g
  · -- The file is written, with all that the registry holds.
    have hall : ∀ g, ¬ Unwritten (log ++ [k.call dataDir fault f]) g := by
      intro g
      rw [unwritten_snoc]
      simp [Call.Failed, Call.Wrote, Kept.call, hcall, hnew]
    have hf : f ∈ r.fingerprints := by
      rw [hfs, Registry.mem_insert]
      exact .inl rfl
    rw [hcall]
    refine ⟨⟨hr, fun g hg => absurd hg (hall g), _, load_of_save hsave, fun g => ?_⟩, fun _ =>
      ⟨hf, fun hf => absurd hf (hall f), fun hf => absurd (h.unwritten f hf) hnew⟩⟩
    rw [Registry.mem_ofList]
    exact ⟨fun hg => ⟨hg, hall g⟩, And.left⟩
  · -- The fingerprint is taken up and could not be written.
    have hmore : ∀ g, Unwritten (log ++ [k.call dataDir fault f]) g ↔ f = g ∨ Unwritten log g := by
      intro g
      rw [unwritten_snoc]
      simp [Call.Failed, Call.Wrote, Kept.call, hcall]
    have hin : ∀ g, g ∈ r.fingerprints ↔ g = f ∨ g ∈ k.registry.fingerprints := by
      intro g
      rw [hfs, Registry.mem_insert]
    rw [hcall]
    refine ⟨⟨hr, fun g hg => ?_, r₀, hload, fun g => ?_⟩, fun hok => by cases hok⟩
    · obtain rfl | hg := (hmore g).1 hg
      · exact (hin f).2 (.inl rfl)
      · exact (hin g).2 (.inr (h.unwritten g hg))
    · rw [hmem g, hin g, hmore g]
      constructor
      · rintro ⟨hg, hwritten⟩
        exact ⟨.inr hg, fun hor => hor.elim (fun heq => hnew (heq ▸ hg)) hwritten⟩
      · rintro ⟨rfl | hg, hnot⟩
        · exact absurd (.inl rfl) hnot
        · exact ⟨hg, fun hg => hnot (.inr hg)⟩

theorem inStep_run (hopen : InStep dataDir [] k) {k' : Kept} (hrun : Run dataDir k log k') :
    InStep dataDir log k' := by
  induction hrun with
  | start => exact hopen
  | call fault f _ ih => exact (ih.call fault f).1

/-- **What success tells.** A registry is opened and fingerprints are remembered, while any write
may fail. If then remembering a fingerprint succeeds, the file holds it, and a registry that is
opened trusts it, if and only if it is not one that could not be written before, without the file
being written since. -/
theorem remembered_is_stored_iff (hopen : load files dataDir = .ok r)
    (hrun : Run dataDir ⟨r, files⟩ log k) {fault : Option IoError} {f : Fingerprint} {k' : Kept}
    (hok : k.remember dataDir fault f = (.ok (), k')) :
    (Stored k'.files dataDir f ↔ ¬ Unwritten log f) ∧
      ∃ r', load k'.files dataDir = .ok r' ∧ (r'.trusts f = true ↔ ¬ Unwritten log f) := by
  obtain ⟨hstep, hsuccess⟩ := (inStep_run (inStep_open hopen) hrun).call fault f
  rw [hok] at hstep hsuccess
  obtain ⟨hmem, hunwritten⟩ := hsuccess rfl
  obtain ⟨r', hload, hheld⟩ := hstep.opens
  have hstored : Stored k'.files dataDir f ↔ ¬ Unwritten log f := by
    rw [stored_iff_of_load hload, hheld, hunwritten]
    exact ⟨And.right, fun h => ⟨hmem, h⟩⟩
  exact ⟨hstored, r', hload, (trusts_iff_of_load hload).trans hstored⟩

/-- The disk is full. -/
def noSpace : IoError := ⟨.other, "No space left on device (os error 28)"⟩

/-- A new registry, for which there is no file. -/
def unused : Kept := ⟨{}, {}⟩

theorem load_unused : load unused.files ["data"] = .ok unused.registry := by decide +kernel

/-- A new registry that could not write its first fingerprint. -/
def fullDisk : Kept := (unused.remember ["data"] (some noSpace) ⟨"phone"⟩).2

/-- Another fingerprint is remembered when there is space again, and the file holds it. -/
theorem remembered_is_stored_later :
    load unused.files ["data"] = .ok unused.registry ∧
      ∃ log, Run ["data"] unused log fullDisk ∧ ∃ k',
        fullDisk.remember ["data"] none ⟨"laptop"⟩ = (.ok (), k') ∧
        Stored k'.files ["data"] ⟨"laptop"⟩ := by
  have hrun : Run ["data"] unused _ fullDisk := .call (some noSpace) ⟨"phone"⟩ .start
  have hok : fullDisk.remember ["data"] none ⟨"laptop"⟩ =
      (.ok (), (fullDisk.remember ["data"] none ⟨"laptop"⟩).2) := rfl
  have hwritten : ∀ c : Call, c.fingerprint = ⟨"phone"⟩ → ¬ Unwritten ([] ++ [c]) ⟨"laptop"⟩ := by
    intro c hc
    rw [unwritten_snoc, hc]
    rintro (⟨-, hsame⟩ | ⟨hnone, -⟩)
    · exact absurd hsame (by decide)
    · exact not_unwritten_nil _ hnone
  exact ⟨load_unused, _, hrun, _, hok,
    (remembered_is_stored_iff load_unused hrun hok).1.2 (hwritten _ rfl)⟩

/-- **A second attempt reports success without storing.** The disk was full when the fingerprint was
to be remembered for the first time. Remembering it again succeeds, and there is no file. -/
theorem retry_is_not_stored :
    load unused.files ["data"] = .ok unused.registry ∧
      (unused.remember ["data"] (some noSpace) ⟨"phone"⟩).1 = .error (.io noSpace) ∧
      (fullDisk.remember ["data"] none ⟨"phone"⟩).1 = .ok () ∧
      ¬ Stored (fullDisk.remember ["data"] none ⟨"phone"⟩).2.files ["data"] ⟨"phone"⟩ := by
  refine ⟨load_unused, rfl, rfl, ?_⟩
  rintro ⟨content, fs, hread, -⟩
  cases hread

end FileRegistry

end SharedClipboard

/-!
# Tables

A table is a list of keys with their values in which each key stands once, in the order in which
keys were first put in. `Table.get?` is its view; `get?_put`, `get?_erase`, `get?_modify` and
`get?_keep` say what each operation does to it, and `mem_entries_iff` that it shows every entry.
`keysFrom` walks a table in any other order.
-/

namespace SharedClipboard

/-- A table of values under keys, each of which stands once. -/
structure Table (κ : Type) (ν : Type) where
  entries : List (κ × ν)
  distinct : (entries.map (·.1)).Nodup
  deriving Repr, DecidableEq

namespace Table

variable {κ ν : Type} [DecidableEq κ]

def empty : Table κ ν := ⟨[], List.nodup_nil⟩

instance : Inhabited (Table κ ν) := ⟨empty⟩

/-- The value at the first place where a key stands. -/
def find (k : κ) : List (κ × ν) → Option ν
  | [] => none
  | e :: es => if e.1 = k then some e.2 else find k es

def get? (t : Table κ ν) (k : κ) : Option ν := find k t.entries

def contains (t : Table κ ν) (k : κ) : Bool := (t.get? k).isSome

def keys (t : Table κ ν) : List κ := t.entries.map (·.1)

def values (t : Table κ ν) : List ν := t.entries.map (·.2)

/-- Replaces the value of a key in place, or adds the key at the end. -/
def putEntries (k : κ) (v : ν) : List (κ × ν) → List (κ × ν)
  | [] => [(k, v)]
  | e :: es => if e.1 = k then (k, v) :: es else e :: putEntries k v es

theorem keys_putEntries (k : κ) (v : ν) (es : List (κ × ν)) :
    (putEntries k v es).map (·.1) =
      if k ∈ es.map (·.1) then es.map (·.1) else es.map (·.1) ++ [k] := by
  induction es with
  | nil => rfl
  | cons e es ih => grind [putEntries]

theorem nodup_putEntries (k : κ) (v : ν) {es : List (κ × ν)} (h : (es.map (·.1)).Nodup) :
    ((putEntries k v es).map (·.1)).Nodup := by
  rw [keys_putEntries]
  split
  · exact h
  · exact List.nodup_append.2 ⟨h, List.pairwise_singleton _ _, by grind⟩

def put (t : Table κ ν) (k : κ) (v : ν) : Table κ ν :=
  ⟨putEntries k v t.entries, nodup_putEntries k v t.distinct⟩

/-- Drops the keys that do not have a property. -/
def keep (t : Table κ ν) (p : κ → Bool) : Table κ ν :=
  ⟨t.entries.filter (p ·.1), t.distinct.sublist (List.filter_sublist.map _)⟩

def erase (t : Table κ ν) (k : κ) : Table κ ν := t.keep (· ≠ k)

/-- The keys, those in front that stand in a list, in the order of the list. Any order of the keys
is one of these (`keysFrom_of_perm`). -/
def keysFrom (t : Table κ ν) : List κ → List κ
  | [] => t.keys
  | k :: order =>
    let ks := t.keysFrom order
    if k ∈ ks then k :: ks.filter (· != k) else ks

/-- Changes the value under a key, if there is one. -/
def modify (t : Table κ ν) (k : κ) (f : ν → ν) : Table κ ν :=
  ⟨t.entries.map fun e => if e.1 = k then (e.1, f e.2) else e, by
    have hkeys : (t.entries.map fun e => if e.1 = k then (e.1, f e.2) else e).map (·.1) =
        t.entries.map (·.1) := by
      rw [List.map_map]
      exact List.map_congr_left fun e _ => by simp only [Function.comp]; split <;> rfl
    rw [hkeys]
    exact t.distinct⟩

/-- Changes every value. -/
def mapValues (t : Table κ ν) (f : ν → ν) : Table κ ν :=
  ⟨t.entries.map fun e => (e.1, f e.2), by simpa [Function.comp_def] using t.distinct⟩

@[simp] theorem get?_empty (k : κ) : (empty : Table κ ν).get? k = none := rfl

theorem find_putEntries (k k' : κ) (v : ν) (es : List (κ × ν)) :
    find k' (putEntries k v es) = if k = k' then some v else find k' es := by
  induction es with
  | nil => rfl
  | cons e es ih =>
    simp only [putEntries]
    split
    · simp only [find]
      grind
    · simp only [find, ih]
      grind

theorem get?_put (t : Table κ ν) (k k' : κ) (v : ν) :
    (t.put k v).get? k' = if k = k' then some v else t.get? k' :=
  find_putEntries k k' v t.entries

theorem find_filter (p : κ → Bool) (k : κ) (es : List (κ × ν)) :
    find k (es.filter (p ·.1)) = if p k then find k es else none := by
  induction es with
  | nil => simp [find]
  | cons e es ih =>
    simp only [List.filter_cons, find]
    grind [find]

theorem get?_keep (t : Table κ ν) (p : κ → Bool) (k : κ) :
    (t.keep p).get? k = if p k then t.get? k else none :=
  find_filter p k t.entries

theorem get?_erase (t : Table κ ν) (k k' : κ) :
    (t.erase k).get? k' = if k = k' then none else t.get? k' := by
  rw [erase, get?_keep]
  grind

theorem find_modifyEntries (k k' : κ) (f : ν → ν) (es : List (κ × ν)) :
    find k' (es.map fun e => if e.1 = k then (e.1, f e.2) else e) =
      if k = k' then (find k' es).map f else find k' es := by
  induction es with
  | nil => simp [find]
  | cons e es ih =>
    simp only [List.map_cons, find]
    grind

theorem get?_modify (t : Table κ ν) (k k' : κ) (f : ν → ν) :
    (t.modify k f).get? k' = if k = k' then (t.get? k').map f else t.get? k' :=
  find_modifyEntries k k' f t.entries

theorem find_mapEntries (k : κ) (f : ν → ν) (es : List (κ × ν)) :
    find k (es.map fun e => (e.1, f e.2)) = (find k es).map f := by
  induction es with
  | nil => rfl
  | cons e es ih =>
    simp only [List.map_cons, find]
    grind

theorem get?_mapValues (t : Table κ ν) (k : κ) (f : ν → ν) :
    (t.mapValues f).get? k = (t.get? k).map f :=
  find_mapEntries k f t.entries

theorem mem_iff_find {k : κ} {v : ν} {es : List (κ × ν)} (h : (es.map (·.1)).Nodup) :
    (k, v) ∈ es ↔ find k es = some v := by
  induction es with
  | nil => simp [find]
  | cons e es ih =>
    rw [List.map_cons, List.nodup_cons] at h
    have hmem : ∀ w, (e.1, w) ∉ es := fun w hw => h.1 (List.mem_map.2 ⟨_, hw, rfl⟩)
    simp only [List.mem_cons, find]
    grind

theorem mem_entries_iff {t : Table κ ν} {k : κ} {v : ν} :
    (k, v) ∈ t.entries ↔ t.get? k = some v :=
  mem_iff_find t.distinct

theorem mem_values_iff {t : Table κ ν} {v : ν} : v ∈ t.values ↔ ∃ k, t.get? k = some v := by
  simp only [values, List.mem_map, Prod.exists, exists_eq_right, mem_entries_iff]

/-- A key that is not there is added at the end. -/
theorem putEntries_of_find {k : κ} {es : List (κ × ν)} (h : find k es = none) (v : ν) :
    putEntries k v es = es ++ [(k, v)] := by
  induction es with
  | nil => rfl
  | cons e es ih =>
    rw [find] at h
    split at h
    · cases h
    · rename_i hk
      rw [putEntries, if_neg hk, ih h, List.cons_append]

theorem values_put_of_none {t : Table κ ν} {k : κ} (h : t.get? k = none) (v : ν) :
    (t.put k v).values = t.values ++ [v] := by
  show (putEntries k v t.entries).map (·.2) = _
  rw [putEntries_of_find h, List.map_append]
  rfl

theorem perm_filter_of_find {k : κ} {v : ν} {es : List (κ × ν)} (h : (es.map (·.1)).Nodup)
    (hv : find k es = some v) : es.Perm ((k, v) :: es.filter (fun e => e.1 ≠ k)) := by
  induction es with
  | nil => cases hv
  | cons e es ih =>
    rw [List.map_cons, List.nodup_cons] at h
    rw [find] at hv
    split at hv
    · rename_i hk
      cases hv
      have hkeep : es.filter (fun e => e.1 ≠ k) = es :=
        List.filter_eq_self.2 fun e' he' => decide_eq_true fun heq =>
          h.1 (List.mem_map.2 ⟨e', he', heq.trans hk.symm⟩)
      rw [List.filter_cons_of_neg (by simp [hk]), hkeep, ← hk]
    · rename_i hk
      rw [List.filter_cons_of_pos (by simpa using hk)]
      exact ((ih h.2 hv).cons e).trans (.swap _ _ _)

/-- The entries are the one that is taken out and those that stay. -/
theorem entries_perm_erase {t : Table κ ν} {k : κ} {v : ν} (h : t.get? k = some v) :
    t.entries.Perm ((k, v) :: (t.erase k).entries) :=
  perm_filter_of_find t.distinct h

/-! ## Keeping some of the keys -/

omit [DecidableEq κ] in
theorem eq_of_entries {t t' : Table κ ν} (h : t.entries = t'.entries) : t = t' := by
  cases t
  cases t'
  cases h
  rfl

omit [DecidableEq κ] in
theorem keys_keep (t : Table κ ν) (p : κ → Bool) : (t.keep p).keys = t.keys.filter p := by
  simp only [keys, keep, List.filter_map]
  rfl

theorem filter_putEntries (p : κ → Bool) (k : κ) (v : ν) (es : List (κ × ν)) :
    (putEntries k v es).filter (p ·.1) =
      if p k then putEntries k v (es.filter (p ·.1)) else es.filter (p ·.1) := by
  induction es with
  | nil => cases hp : p k <;> simp [putEntries, hp]
  | cons e es ih =>
    simp only [putEntries, List.filter_cons]
    grind [putEntries]

theorem keep_put {p : κ → Bool} {k : κ} (h : p k) (t : Table κ ν) (v : ν) :
    (t.put k v).keep p = (t.keep p).put k v :=
  eq_of_entries ((filter_putEntries p k v t.entries).trans (if_pos h))

theorem keep_put_of_not {p : κ → Bool} {k : κ} (h : p k = false) (t : Table κ ν) (v : ν) :
    (t.put k v).keep p = t.keep p :=
  eq_of_entries ((filter_putEntries p k v t.entries).trans (if_neg (by simp [h])))

theorem keep_erase (t : Table κ ν) (p : κ → Bool) (k : κ) :
    (t.erase k).keep p = (t.keep p).erase k :=
  eq_of_entries (by simp only [keep, erase, List.filter_filter, Bool.and_comm])

theorem keep_erase_of_not {p : κ → Bool} {k : κ} (h : p k = false) (t : Table κ ν) :
    (t.erase k).keep p = t.keep p := by
  refine eq_of_entries ?_
  simp only [keep, erase, List.filter_filter]
  refine List.filter_congr fun e _ => ?_
  by_cases hk : e.1 = k <;> simp [hk, h]

theorem erase_comm (t : Table κ ν) (k k' : κ) : (t.erase k).erase k' = (t.erase k').erase k :=
  eq_of_entries (by simp only [erase, keep, List.filter_filter, Bool.and_comm])

theorem keep_modify (t : Table κ ν) (p : κ → Bool) (k : κ) (f : ν → ν) :
    (t.modify k f).keep p = (t.keep p).modify k f := by
  refine eq_of_entries ?_
  simp only [keep, modify, List.filter_map]
  congr 1
  refine List.filter_congr fun e _ => ?_
  simp only [Function.comp]
  split <;> rfl

theorem keep_modify_of_not {p : κ → Bool} {k : κ} (h : p k = false) (t : Table κ ν) (f : ν → ν) :
    (t.modify k f).keep p = t.keep p := by
  rw [keep_modify]
  refine eq_of_entries ?_
  simp only [keep, modify]
  refine (List.map_congr_left fun e he => if_neg fun hk => ?_).trans (List.map_id _)
  simp [hk, h] at he

/-! ## Walking a table -/

theorem keysFrom_perm (t : Table κ ν) (order : List κ) : (t.keysFrom order).Perm t.keys := by
  induction order with
  | nil => exact List.Perm.refl _
  | cons k order ih =>
    rw [keysFrom]
    split
    · rename_i hk
      have hdistinct : (t.keysFrom order).Nodup := ih.nodup_iff.2 t.distinct
      rw [← hdistinct.erase_eq_filter]
      exact (List.perm_cons_erase hk).symm.trans ih
    · exact ih

theorem keysFrom_of_perm {t : Table κ ν} {order : List κ} (h : order.Perm t.keys) :
    t.keysFrom order = order := by
  -- The keys that are not asked for come last.
  have hrest : ∀ ks : List κ, ks.Nodup → (∀ k ∈ ks, k ∈ t.keys) →
      t.keysFrom ks = ks ++ t.keys.filter (· ∉ ks) := by
    intro ks hks hsub
    induction ks with
    | nil => exact (List.filter_eq_self.2 (by simp)).symm
    | cons k ks ih =>
      obtain ⟨hk, hks⟩ := List.nodup_cons.1 hks
      have hthere : k ∈ t.keysFrom ks := (t.keysFrom_perm ks).mem_iff.2 (hsub k List.mem_cons_self)
      have hothers : ks.filter (· != k) = ks :=
        List.filter_eq_self.2 fun j hj => by simpa using fun hjk : j = k => hk (hjk ▸ hj)
      rw [keysFrom, if_pos hthere, ih hks fun j hj => hsub j (List.mem_cons_of_mem _ hj),
        List.filter_append, hothers, List.filter_filter, List.cons_append]
      congr 2
      exact List.filter_congr fun j _ => by by_cases hj : j = k <;> simp [hj]
  rw [hrest order (h.nodup_iff.2 t.distinct) fun k hk => h.mem_iff.1 hk,
    List.filter_eq_nil_iff.2 fun k hk => by simp [h.mem_iff.2 hk], List.append_nil]

theorem keysFrom_keep (t : Table κ ν) (p : κ → Bool) (order : List κ) :
    (t.keep p).keysFrom order = (t.keysFrom order).filter p := by
  induction order with
  | nil => exact keys_keep t p
  | cons k order ih =>
    rw [keysFrom, keysFrom, ih]
    by_cases hk : k ∈ t.keysFrom order
    · rw [if_pos hk]
      cases hp : p k with
      | true =>
        rw [if_pos (List.mem_filter.2 ⟨hk, hp⟩), List.filter_cons_of_pos hp, List.filter_filter,
          List.filter_filter]
        simp only [Bool.and_comm]
      | false =>
        rw [if_neg (by simp [hp]), List.filter_cons_of_neg (by simp [hp]), List.filter_filter]
        exact List.filter_congr fun j _ => by by_cases hj : j = k <;> simp [hj, hp]
    · simp [hk]

end Table

end SharedClipboard

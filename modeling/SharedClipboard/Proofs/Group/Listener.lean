import SharedClipboard.Proofs.Group.Log
import Mathlib.Data.Finset.Dedup
import Mathlib.Data.Finset.Erase
import Mathlib.Data.Finset.Insert

/-!
# What a listener knows

**Theorem (`events_tell_the_group`).** Whoever starts with nothing and hears the events of a group
in order knows at every moment which devices are members and which are discovered: a device that
joins or is discovered is added, one that leaves or is lost is taken away. Only a member leaves,
only a device that is not discovered is discovered, and only one that is discovered is lost.

A `Picture` is what a listener knows, and `Group.picture` what there is to know. `Group.Announces`
says of a change of a group that its events lead from the one picture to the other and fit on the
way; there is one lemma for each operation. The tables of a group hold every device under its own
identity (`Group.Keyed`), so that a device is found again when it goes. The theorem does not need
that members and sessions are in step: an event is announced whenever the table of the members or
that of the discovered devices changes, whatever the sessions are.
-/

namespace SharedClipboard

/-- Which devices are members and which are discovered. -/
@[ext]
structure Picture where
  members : Finset Device.Identity := ∅
  discovered : Finset Device.Identity := ∅
  deriving DecidableEq

namespace Picture

/-- The picture after an event. -/
def hear (p : Picture) : Event → Picture
  | .deviceJoined d => { p with members := insert d.identity p.members }
  | .deviceLeft d => { p with members := p.members.erase d.identity }
  | .deviceDiscovered d => { p with discovered := insert d.identity p.discovered }
  | .deviceLost d => { p with discovered := p.discovered.erase d.identity }
  | .clipboardUpdated _ _ _ _ | .authenticationFailed _ _ | .discoveryDegraded _ => p

/-- Only members leave, and a device is discovered and lost in turn. -/
def Fits (p : Picture) : Event → Prop
  | .deviceLeft d => d.identity ∈ p.members
  | .deviceDiscovered d => d.identity ∉ p.discovered
  | .deviceLost d => d.identity ∈ p.discovered
  | .deviceJoined _ | .clipboardUpdated _ _ _ _ | .authenticationFailed _ _
  | .discoveryDegraded _ => True

/-- The events fit one after another and lead from one picture to another. -/
def Tells (p : Picture) : List Event → Picture → Prop
  | [], q => p = q
  | e :: es, q => p.Fits e ∧ (p.hear e).Tells es q

variable {p q r : Picture} {es es' : List Event} {e : Event}

theorem Tells.append (h : p.Tells es q) (h' : q.Tells es' r) : p.Tells (es ++ es') r := by
  induction es generalizing p with
  | nil =>
    cases h
    exact h'
  | cons e es ih => exact ⟨h.1, ih h.2⟩

theorem Tells.foldl_eq (h : p.Tells es q) : es.foldl hear p = q := by
  induction es generalizing p with
  | nil => exact h
  | cons e es ih => exact ih h.2

/-- An event fits what the events before it told. -/
theorem Tells.fits (h : p.Tells (es ++ e :: es') q) : (es.foldl hear p).Fits e := by
  induction es generalizing p with
  | nil => exact h.1
  | cons e' es ih => exact ih h.2

/-- An event that fits a picture with fewer members fits one with more. -/
theorem Fits.of_subset (h : p.Fits e) (hmembers : p.members ⊆ q.members)
    (hdiscovered : p.discovered = q.discovered) : q.Fits e := by
  cases e with
  | deviceLeft d => exact hmembers h
  | deviceDiscovered d => exact fun hd => h (hdiscovered ▸ hd)
  | deviceLost d =>
    show d.identity ∈ q.discovered
    rw [← hdiscovered]
    exact h
  | deviceJoined _ | clipboardUpdated _ _ _ _ | authenticationFailed _ _
  | discoveryDegraded _ => trivial

end Picture

/-! ## Tables of devices -/

namespace Table

variable {ν : Type} {t : Table Device.Identity ν} {device : ν → Device} {k k' : Device.Identity}

/-- Every value stands under the identity of its device. -/
def Keyed (t : Table Device.Identity ν) (device : ν → Device) : Prop :=
  ∀ k v, t.get? k = some v → (device v).identity = k

/-- The devices that a table lists. -/
def devices (t : Table Device.Identity ν) (device : ν → Device) : Finset Device.Identity :=
  ((Device.listed (t.values.map device)).map Device.identity).toFinset

theorem Keyed.mem_devices (h : t.Keyed device) : k ∈ t.devices device ↔ t.contains k = true := by
  simp only [devices, List.mem_toFinset, List.mem_map, Device.listed, List.mem_mergeSort,
    mem_values_iff, contains, Option.isSome_iff_exists]
  constructor
  · rintro ⟨d, ⟨v, ⟨k', hv⟩, rfl⟩, hk⟩
    rw [h k' v hv] at hk
    exact ⟨v, hk ▸ hv⟩
  · rintro ⟨v, hv⟩
    exact ⟨device v, ⟨v, ⟨k, hv⟩, rfl⟩, h k v hv⟩

theorem Keyed.put (h : t.Keyed device) {v : ν} (hv : (device v).identity = k) :
    (t.put k v).Keyed device := by
  intro k' w hw
  rw [get?_put] at hw
  split at hw
  · rename_i hk
    cases hw
    exact hv.trans hk
  · exact h k' w hw

theorem Keyed.erase (h : t.Keyed device) (k : Device.Identity) : (t.erase k).Keyed device := by
  intro k' w hw
  rw [get?_erase] at hw
  split at hw
  · cases hw
  · exact h k' w hw

theorem Keyed.devices_put (h : t.Keyed device) {v : ν} (hv : (device v).identity = k) :
    (t.put k v).devices device = insert k (t.devices device) := by
  ext k'
  rw [(h.put hv).mem_devices, Finset.mem_insert, h.mem_devices, contains, get?_put, contains]
  by_cases hk : k = k'
  · simp [hk]
  · simp [hk, Ne.symm hk]

theorem Keyed.devices_erase (h : t.Keyed device) (k : Device.Identity) :
    (t.erase k).devices device = (t.devices device).erase k := by
  ext k'
  rw [(h.erase k).mem_devices, Finset.mem_erase, h.mem_devices, contains, get?_erase, contains]
  by_cases hk : k = k'
  · simp [hk]
  · simp [hk, Ne.symm hk]

end Table

namespace Group

/-- The devices are under their identities. -/
structure Keyed (g : Group) : Prop where
  members : g.members.Keyed Member.device
  discovered : g.discovered.Keyed id

/-- What there is to know about a group. -/
def picture (g : Group) : Picture where
  members := (g.memberDevices.map Device.identity).toFinset
  discovered := (g.discoveredDevices.map Device.identity).toFinset

/-- The events of a change lead from one group to the other, and each fits what was before all of
them. -/
structure Announces (g : Group) (es : List Event) (g' : Group) : Prop where
  keyed : g'.Keyed
  tells : g.picture.Tells es g'.picture
  fits : ∀ e ∈ es, g.picture.Fits e

variable {g g' : Group}

theorem picture_members (g : Group) : g.picture.members = g.members.devices Member.device := rfl

theorem picture_discovered (g : Group) : g.picture.discovered = g.discovered.devices id := by
  simp only [picture, discoveredDevices, Table.devices, List.map_id]

theorem keyed_fresh (limit : Nat) : (fresh limit).Keyed :=
  ⟨fun _ _ h => by simp [fresh] at h, fun _ _ h => by simp [fresh] at h⟩

theorem picture_fresh (limit : Nat) : (fresh limit).picture = {} := by
  simp [picture, memberDevices, discoveredDevices, fresh, Table.values, Table.empty, Device.listed]

/-! ## One lemma per operation -/

theorem announces_nothing (hkeyed : g'.Keyed)
    (hmembers : g'.members.devices Member.device = g.members.devices Member.device)
    (hdiscovered : g'.discovered.devices id = g.discovered.devices id) : g.Announces [] g' where
  keyed := hkeyed
  tells := by
    rw [← picture_members, ← picture_members] at hmembers
    rw [← picture_discovered, ← picture_discovered] at hdiscovered
    exact (Picture.ext hmembers hdiscovered).symm
  fits _ he := by cases he

theorem announces_one {e : Event} (hkeyed : g'.Keyed) (hfits : g.picture.Fits e)
    (hmembers : g'.members.devices Member.device = (g.picture.hear e).members)
    (hdiscovered : g'.discovered.devices id = (g.picture.hear e).discovered) :
    g.Announces [e] g' where
  keyed := hkeyed
  tells := by
    rw [← picture_members] at hmembers
    rw [← picture_discovered] at hdiscovered
    exact ⟨hfits, (Picture.ext hmembers hdiscovered).symm⟩
  fits e' he' := by
    rw [List.mem_singleton.1 he']
    exact hfits

/-- Either nothing happens, or the device of a session joins. Its record stays the one under which
it was a member before, if it was one. -/
theorem promote_joins (g : Group) (id : SessionId) :
    g.promote id = { group := g, answer := false } ∨
      ∃ d, (g.promote id).effects.filterMap Effect.event? = [.deviceJoined d] ∧
        (g.promote id).group.discovered = g.discovered ∧
        (g.promote id).group.members = g.members.put d.identity
          { (g.members.get? d.identity).getD ⟨d, id⟩ with session := id } := by
  cases he : g.sessions.get? id with
  | none => exact .inl (by simp [promote, he])
  | some e =>
    by_cases hrole : e.role = .unauthenticated
    · refine .inr ⟨(g.promoted e).device, ?_⟩
      cases hm : g.members.get? (g.promoted e).device.identity with
      | none => simp [promote, he, hrole, hm, Effect.event?]
      | some old =>
        simp only [promote, he, hrole, hm, ne_eq, not_true_eq_false, if_false,
          List.filterMap_append]
        split <;> simp [Effect.event?]
    · exact .inl (by simp [promote, he, hrole])

theorem announces_promote (h : g.Keyed) (id : SessionId) :
    g.Announces ((g.promote id).effects.filterMap Effect.event?) (g.promote id).group := by
  obtain hsame | ⟨d, hevents, hdiscovered, hmembers⟩ := promote_joins g id
  · rw [hsame]
    exact announces_nothing h rfl rfl
  · have hrecord : ((g.members.get? d.identity).getD ⟨d, id⟩).device.identity = d.identity := by
      cases hm : g.members.get? d.identity with
      | none => rfl
      | some old => exact h.members _ _ hm
    rw [hevents]
    refine announces_one ⟨hmembers ▸ h.members.put hrecord, hdiscovered ▸ h.discovered⟩ trivial
      ?_ ?_
    · rw [hmembers]
      exact h.members.devices_put hrecord
    · rw [hdiscovered, ← picture_discovered]
      rfl

/-- Either a member leaves, or the members stay as they are and no event tells otherwise. -/
theorem remove_leaves (g : Group) (id : SessionId) (reason : CloseReason) :
    (g.remove id reason).group.discovered = g.discovered ∧
      ((∃ d, g.members.contains d.identity = true ∧
          (g.remove id reason).effects.filterMap Effect.event? = [.deviceLeft d] ∧
          (g.remove id reason).group.members = g.members.erase d.identity) ∨
        ((g.remove id reason).group.members = g.members ∧
          ((g.remove id reason).effects.filterMap Effect.event? = [] ∨
            ∃ d cause, (g.remove id reason).effects.filterMap Effect.event? =
              [.authenticationFailed d cause]))) := by
  unfold remove
  cases g.sessions.get? id with
  | none => exact ⟨rfl, .inr ⟨rfl, .inl rfl⟩⟩
  | some e =>
    simp only
    split
    · rename_i hmember
      refine ⟨rfl, .inl ⟨e.device, ?_, rfl, rfl⟩⟩
      rw [Table.contains]
      cases hm : g.members.get? e.device.identity with
      | none => simp [hm] at hmember
      | some m => rfl
    · simp only
      split
      · rename_i cause hrole
        exact ⟨by trivial, .inr ⟨by trivial, .inr ⟨e.device, cause, rfl⟩⟩⟩
      · exact ⟨by trivial, .inr ⟨by trivial, .inl rfl⟩⟩

theorem announces_remove (h : g.Keyed) (id : SessionId) (reason : CloseReason) :
    g.Announces ((g.remove id reason).effects.filterMap Effect.event?)
        (g.remove id reason).group ∧
      (g.remove id reason).group.picture.members ⊆ g.picture.members ∧
      (g.remove id reason).group.picture.discovered = g.picture.discovered := by
  simp only [picture_members, picture_discovered]
  obtain ⟨hdiscovered, ⟨d, hmember, hevents, hmembers⟩ | ⟨hmembers, hevents⟩⟩ :=
    remove_leaves g id reason
  · have hmem : d.identity ∈ g.picture.members := by
      rw [picture_members, h.members.mem_devices]
      exact hmember
    have herase := h.members.devices_erase d.identity
    rw [hevents, hmembers, hdiscovered, herase]
    refine ⟨announces_one ⟨hmembers ▸ h.members.erase _, hdiscovered ▸ h.discovered⟩ hmem ?_ ?_,
      Finset.erase_subset _ _, rfl⟩
    · rw [hmembers]
      exact herase
    · rw [hdiscovered, ← picture_discovered]
      rfl
  · have hkeyed : (g.remove id reason).group.Keyed :=
      ⟨hmembers ▸ h.members, hdiscovered ▸ h.discovered⟩
    rw [hmembers, hdiscovered]
    refine ⟨?_, Finset.Subset.refl _, rfl⟩
    obtain hnone | ⟨d, cause, hfailed⟩ := hevents
    · rw [hnone]
      exact announces_nothing hkeyed (by rw [hmembers]) (by rw [hdiscovered])
    · rw [hfailed]
      refine announces_one hkeyed trivial (by rw [hmembers]; rfl) ?_
      rw [hdiscovered, ← picture_discovered]
      rfl

theorem announces_kickEach (h : g.Keyed) (ids : List SessionId) :
    g.Announces ((g.kickEach ids).effects.filterMap Effect.event?) (g.kickEach ids).group := by
  induction ids generalizing g with
  | nil => exact announces_nothing h rfl rfl
  | cons id ids ih =>
    obtain ⟨hfirst, hsubset, hdiscovered⟩ := announces_remove h id .kicked
    have hrest := ih hfirst.keyed
    have hevents : (g.kickEach (id :: ids)).effects.filterMap Effect.event? =
        (g.remove id .kicked).effects.filterMap Effect.event? ++
          ((g.remove id .kicked).group.kickEach ids).effects.filterMap Effect.event? := by
      rw [← List.filterMap_append]
      rfl
    rw [hevents]
    refine ⟨hrest.keyed, hfirst.tells.append hrest.tells, fun e he => ?_⟩
    obtain he | he := List.mem_append.1 he
    · exact hfirst.fits e he
    · exact (hrest.fits e he).of_subset hsubset hdiscovered

theorem announces_onDiscovery (h : g.Keyed) (me : LocalIdentity) (port : UInt16)
    (machine : List Net.IpAddress) (e : DiscoveryEvent) :
    g.Announces ((g.onDiscovery me port machine e).effects.filterMap Effect.event?)
      (g.onDiscovery me port machine e).group := by
  cases e with
  | added d =>
    by_cases hself : me.isSelf port machine d = true
    · simp only [onDiscovery, hself, if_true]
      exact announces_nothing h rfl rfl
    · simp only [onDiscovery, hself]
      have hput := h.discovered.devices_put (v := d) rfl
      cases hknown : g.discovered.get? d.identity with
      | none =>
        have hnew : d.identity ∉ g.picture.discovered := by
          rw [picture_discovered, h.discovered.mem_devices, Table.contains, hknown]
          exact Bool.false_ne_true
        refine announces_one ⟨h.members, h.discovered.put rfl⟩ hnew rfl ?_
        show (g.discovered.put d.identity d).devices id = insert d.identity g.picture.discovered
        rw [picture_discovered]
        exact hput
      | some known =>
        have hmem : d.identity ∈ g.discovered.devices id := by
          rw [h.discovered.mem_devices, Table.contains, hknown]
          rfl
        by_cases hsame : known.fingerprint = d.fingerprint
        · simp only [hsame, if_true]
          exact announces_nothing h rfl rfl
        · simp only [hsame, if_false]
          exact announces_nothing ⟨h.members, h.discovered.put rfl⟩ rfl
            (hput.trans (Finset.insert_eq_of_mem hmem))
  | removed d =>
    cases hknown : g.discovered.contains d.identity with
    | false =>
      simp only [onDiscovery, hknown]
      exact announces_nothing h rfl rfl
    | true =>
      have hmem : d.identity ∈ g.picture.discovered := by
        rw [picture_discovered, h.discovered.mem_devices]
        exact hknown
      simp only [onDiscovery, hknown, if_true]
      refine announces_one ⟨h.members, h.discovered.erase _⟩ hmem rfl ?_
      show (g.discovered.erase d.identity).devices id = g.picture.discovered.erase d.identity
      rw [picture_discovered]
      exact h.discovered.devices_erase d.identity

theorem announces_accept (h : g.Keyed) (room : SessionId → Room) (mime : String) (data : Bytes)
    (origin : Origin) (except? : Option SessionId) :
    g.Announces ((g.accept room mime data origin except?).effects.filterMap Effect.event?)
      (g.accept room mime data origin except?).group := by
  rw [events_accept]
  exact announces_one ⟨h.members, h.discovered⟩ trivial rfl (picture_discovered g).symm

theorem announces_perform (h : g.Keyed) (room : SessionId → Room) (op : Operation) :
    g.Announces ((g.perform room op).effects.filterMap Effect.event?)
      (g.perform room op).group := by
  cases op with
  | promote id => exact announces_promote h id
  | remove id reason => exact (announces_remove h id reason).1
  | kickAll order => exact announces_kickEach h _
  | flushed id seq => exact announces_nothing ⟨h.members, h.discovered⟩ rfl rfl
  | discovery me port machine e => exact announces_onDiscovery h me port machine e
  | acceptUpdate id mime data =>
    simp only [perform, Outcome.map]
    obtain ⟨hsame, hnone, -⟩ | ⟨e, -, -, -, -, htaken⟩ := acceptUpdate_cases g room id mime data
    · rw [hsame, hnone]
      exact announces_nothing h rfl rfl
    · rw [htaken]
      exact announces_accept h room mime data (.remote e.device) (some id)
  | publishLocal mime data =>
    simp only [perform, Outcome.map]
    obtain ⟨-, hsame⟩ | ⟨-, htaken⟩ := publishLocal_cases g room mime data
    · rw [hsame]
      exact announces_nothing h rfl rfl
    · rw [htaken]
      exact announces_accept h room mime data .local none

end Group

namespace Simulation.GroupRun

/-! ## Every run -/

variable {r : GroupRun}

theorem announces_turn (h : r.group.Keyed) (s : Step) :
    r.group.Announces ((r.turn s).effects.filterMap Group.Effect.event?) (r.turn s).run.group := by
  cases s with
  | attach id e capacity =>
    exact Group.announces_nothing ⟨h.members, h.discovered⟩ rfl rfl
  | operation op => exact Group.announces_perform h r.room op
  | queue id x => exact Group.announces_nothing h rfl rfl
  | take id n =>
    have hgroup : (r.turn (.take id n)).run.group = r.group := group_take r id n
    rw [hgroup]
    exact Group.announces_nothing h rfl rfl
  | closeOutbox id => exact Group.announces_nothing h rfl rfl

theorem announces_run (h : r.group.Keyed) (ss : List Step) :
    (r.after ss).group.Keyed ∧
      r.group.picture.Tells (announced (r.turns ss)) (r.after ss).group.picture := by
  induction ss generalizing r with
  | nil => exact ⟨h, rfl⟩
  | cons s ss ih =>
    have hfirst := announces_turn h s
    obtain ⟨hkeyed, htells⟩ := ih hfirst.keyed
    exact ⟨hkeyed, hfirst.tells.append htells⟩

/-- **The events tell the group.** Hearing all events of a run in order, from nothing, gives the
devices that the group lists as members and those that it lists as discovered. Each event fits what
the events before it told, and what the group listed before the step in which it is announced: only
a member leaves, only a device that is not discovered is discovered, and only one that is discovered
is lost. -/
theorem events_tell_the_group (limit : Nat) (ss : List Step) :
    (announced ((fresh limit).turns ss)).foldl Picture.hear {} =
        ((fresh limit).after ss).group.picture ∧
      (∀ before e rest, announced ((fresh limit).turns ss) = before ++ e :: rest →
        (before.foldl Picture.hear {}).Fits e) ∧
      ∀ s, ∀ e ∈ (((fresh limit).after ss).turn s).effects.filterMap Group.Effect.event?,
        ((fresh limit).after ss).group.picture.Fits e := by
  obtain ⟨hkeyed, htells⟩ := announces_run (r := fresh limit) (Group.keyed_fresh limit) ss
  replace htells := Group.picture_fresh limit ▸ htells
  refine ⟨htells.foldl_eq, fun before e rest hes => ?_, fun s => (announces_turn hkeyed s).fits⟩
  rw [hes] at htells
  exact htells.fits

end Simulation.GroupRun

end SharedClipboard

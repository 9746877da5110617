import SharedClipboard.Discovery.Browse
import SharedClipboard.Proofs.Group.Listener

/-!
# What is discovered is what is on the network

The daemon reports about services, which it knows by their full names; a group discovers devices,
which it knows by address, port and name. Between the two there is only a stream of reports.

**Theorem (`discovered_is_on_the_network`).** Once a group has heard all that a browse reports, the
devices that it lists as discovered are those as which the services stand: a service stands as the
device that it was last resolved to with an address, unless it was removed since (`StandsAs`). There
is one for each service, it has the name that the service bears, and it does not matter in which
order a service lists its addresses.

Services and devices stay one to one because a service bears the name of its device: the name is
read back from the full name (`instanceName_fullnameOf`), so devices of different services differ.
`Mirrors` is the invariant between a browse and a group, and `Mirrors.step` says that a report of
the daemon keeps it. That the stream holds a limited number of reports loses none
(`Feed.Run.loses_none`), and once the daemon reports nothing more it comes to rest
(`Feed.Run.comes_to_rest`): as long as something waits, the stream is full, and taking it out makes
room.
-/

namespace SharedClipboard

/-! ## The preferred address -/

namespace Net.IpAddress

variable {a b c : IpAddress}

/-- The place of an address in the order in which addresses are preferred. -/
def rank : IpAddress → Nat
  | v4 bits => bits.toNat
  | v6 bits => 0x100000000 + bits.toNat

theorem before_iff : a.before b = true ↔ a.rank < b.rank := by
  cases a with
  | v4 x =>
    cases b with
    | v4 y => exact decide_eq_true_iff
    | v6 y => exact ⟨fun _ => by simp only [rank]; omega, fun _ => rfl⟩
  | v6 x =>
    cases b with
    | v4 y =>
      refine ⟨fun h => ?_, fun h => ?_⟩
      · cases h
      · simp only [rank] at h
        omega
    | v6 y => exact decide_eq_true_iff.trans (Nat.add_lt_add_iff_left).symm

theorem rank_injective : Function.Injective rank := by
  intro a b h
  cases a with
  | v4 x =>
    cases b with
    | v4 y => exact congrArg v4 (BitVec.eq_of_toNat_eq h)
    | v6 y => simp only [rank] at h; omega
  | v6 x =>
    cases b with
    | v4 y => simp only [rank] at h; omega
    | v6 y => exact congrArg v6 (BitVec.eq_of_toNat_eq (Nat.add_left_cancel h))

end Net.IpAddress

namespace Discovery

open Net (IpAddress)

/-- No address comes before the preferred one. -/
theorem preferredAddress_spec {as : List IpAddress} {a : IpAddress}
    (h : preferredAddress as = some a) : a ∈ as ∧ ∀ x ∈ as, a.rank ≤ x.rank := by
  cases as with
  | nil => cases h
  | cons first rest =>
    simp only [preferredAddress, Option.some.injEq] at h
    induction rest generalizing first with
    | nil =>
      subst h
      simp
    | cons next rest ih =>
      rw [List.foldl_cons] at h
      obtain ⟨hmem, hleast⟩ := ih _ h
      have hbest : (if next.before first then next else first) = next ∧ next.rank < first.rank ∨
          (if next.before first then next else first) = first ∧ first.rank ≤ next.rank := by
        split
        · rename_i hbefore
          exact .inl ⟨rfl, IpAddress.before_iff.1 hbefore⟩
        · rename_i hbefore
          exact .inr ⟨rfl, Nat.not_lt.1 fun hlt => hbefore (IpAddress.before_iff.2 hlt)⟩
      obtain ⟨heq, hlt⟩ | ⟨heq, hle⟩ := hbest
      all_goals
        rw [heq] at hmem hleast
        have hhead := hleast _ List.mem_cons_self
        grind

theorem preferredAddress_eq_none {as : List IpAddress} :
    preferredAddress as = none ↔ as = [] := by
  cases as <;> simp [preferredAddress]

/-- It does not matter in which order the addresses are listed. -/
theorem preferredAddress_perm {as bs : List IpAddress} (h : as.Perm bs) :
    preferredAddress as = preferredAddress bs := by
  cases ha : preferredAddress as with
  | none =>
    rw [preferredAddress_eq_none.1 ha] at h
    rw [← h.nil_eq]
    rfl
  | some a =>
    cases hb : preferredAddress bs with
    | none =>
      rw [preferredAddress_eq_none.1 hb] at h
      rw [h.eq_nil] at ha
      cases ha
    | some b =>
      obtain ⟨hmem, hleast⟩ := preferredAddress_spec ha
      obtain ⟨hmem', hleast'⟩ := preferredAddress_spec hb
      -- Each is the least of the same addresses, and no two addresses have one rank.
      have hrank := Nat.le_antisymm (hleast b (h.mem_iff.2 hmem')) (hleast' a (h.mem_iff.1 hmem))
      rw [IpAddress.rank_injective hrank]

/-! ## The name of a service -/

theorem beforeEnding?_append (s ending : List Char) :
    beforeEnding? (s ++ ending) ending = some s := by
  simp [beforeEnding?]

theorem toList_fullnameOf (name serviceType : String) :
    (Service.fullnameOf name serviceType).toList = name.toList ++ ['.'] ++ serviceType.toList := by
  simp [Service.fullnameOf, toString]

/-- The name of a device is read back from the full name, whatever is in it. -/
theorem instanceName_fullnameOf (name serviceType : String) :
    instanceName (Service.fullnameOf name serviceType) serviceType = name := by
  simp only [instanceName, toList_fullnameOf, beforeEnding?_append, Option.bind_eq_bind,
    Option.bind_some, Option.getD_some, String.ofList_toList]

variable {serviceType fullname : String} {s : Service} {d d' : Device} {e : ServiceEvent}
  {es : List ServiceEvent}

theorem name_of_device? (h : s.device? serviceType = some d)
    (hname : ∃ name, s.fullname = Service.fullnameOf name serviceType) :
    s.fullname = Service.fullnameOf d.name serviceType := by
  obtain ⟨name, hname⟩ := hname
  obtain ⟨address, -, rfl⟩ := Option.map_eq_some_iff.1 h
  simp only [hname, instanceName_fullnameOf]

/-! ## What the daemon reports -/

/-- The service that a report is about. -/
def ServiceEvent.fullname? : ServiceEvent → Option String
  | resolved s => some s.fullname
  | removed fullname | found fullname => some fullname
  | started | stopped => none

/-- The report leaves the service as it stands. -/
def ServiceEvent.Passes (fullname : String) (e : ServiceEvent) : Prop :=
  e ≠ .removed fullname ∧ ∀ s, e = .resolved s → s.fullname = fullname → s.addresses = []

/-- The service was last resolved to the device with an address, and was not removed since. -/
def StandsAs (serviceType : String) (es : List ServiceEvent) (fullname : String) (d : Device) :
    Prop :=
  ∃ before s after, es = before ++ .resolved s :: after ∧ s.fullname = fullname ∧
    s.device? serviceType = some d ∧ ∀ e ∈ after, e.Passes fullname

theorem standsAs_snoc : StandsAs serviceType (es ++ [e]) fullname d ↔
    (∃ s, e = .resolved s ∧ s.fullname = fullname ∧ s.device? serviceType = some d) ∨
      (StandsAs serviceType es fullname d ∧ e.Passes fullname) := by
  constructor
  · rintro ⟨before, s, after, heq, hname, hdevice, hpasses⟩
    -- Nothing came after the report that resolved the service, or the last report came after it.
    obtain rfl | ⟨rest, x, rfl⟩ := List.eq_nil_or_concat after
    · obtain ⟨rfl, hlast⟩ := List.append_inj' heq rfl
      cases hlast
      exact .inl ⟨s, rfl, hname, hdevice⟩
    · rw [List.concat_eq_append, ← List.cons_append, ← List.append_assoc] at heq
      obtain ⟨rfl, hlast⟩ := List.append_inj' heq rfl
      cases hlast
      exact .inr ⟨⟨before, s, rest, rfl, hname, hdevice, fun y hy => hpasses y (by simp [hy])⟩,
        hpasses e (by simp)⟩
  · rintro (⟨s, rfl, hname, hdevice⟩ | ⟨⟨before, s, after, rfl, hname, hdevice, hpasses⟩, hpass⟩)
    · exact ⟨es, s, [], rfl, hname, hdevice, by simp⟩
    · refine ⟨before, s, after ++ [e], by simp, hname, hdevice, fun x hx => ?_⟩
      obtain hx | hx := List.mem_append.1 hx
      · exact hpasses x hx
      · rw [List.mem_singleton.1 hx]
        exact hpass

/-- The reports are the same but for the order in which a service lists its addresses. -/
inductive ServiceEvent.Like : ServiceEvent → ServiceEvent → Prop where
  | same (e : ServiceEvent) : Like e e
  | resolved {s : Service} {as : List IpAddress} : s.addresses.Perm as →
      Like (.resolved s) (.resolved { s with addresses := as })

/-- What a daemon reports before it says that it stops. -/
def untilStopped (es : List ServiceEvent) : List ServiceEvent := es.takeWhile (· ≠ .stopped)

/-! ## What a browse reports -/

namespace Browse

/-- What a browse reports about devices when the daemon reports about services. -/
def reports (b : Browse) : List ServiceEvent → List DiscoveryEvent
  | [] => []
  | e :: es =>
    match b.step e with
    | none => []
    | some (b, out) => out ++ b.reports es

theorem step_like {e e' : ServiceEvent} (b : Browse) (h : e.Like e') : b.step e = b.step e' := by
  cases h with
  | same => rfl
  | @resolved s as hperm =>
    have hdevice : s.device? b.serviceType = { s with addresses := as }.device? b.serviceType := by
      simp only [Service.device?, preferredAddress_perm hperm, Service.property?]
    simp only [step, hdevice]

theorem reports_like {es es' : List ServiceEvent} (h : List.Forall₂ ServiceEvent.Like es es')
    (b : Browse) : b.reports es = b.reports es' := by
  induction h generalizing b with
  | nil => rfl
  | cons hlike _ ih =>
    simp only [reports, step_like b hlike]
    split
    · rfl
    · rw [ih]

/-- A service stands in a browse under the name of its device. -/
def Named (serviceType : String) (b : Browse) : Prop :=
  ∀ f d, b.resolved.get? f = some d → f = Service.fullnameOf d.name serviceType

theorem Named.unique {b : Browse} {f f' : String} (h : b.Named serviceType)
    (hd : b.resolved.get? f = some d) (hd' : b.resolved.get? f' = some d')
    (hsame : d.identity = d'.identity) : f = f' := by
  have hname : d.name = d'.name := congrArg Device.Identity.name hsame
  rw [h f d hd, h f' d' hd', hname]

/-- The browse knows how the services stand after some reports of the daemon. -/
structure Knows (serviceType : String) (es : List ServiceEvent) (b : Browse) : Prop where
  serviceType_eq : b.serviceType = serviceType
  stands : ∀ f d, b.resolved.get? f = some d ↔ StandsAs serviceType es f d
  named : b.Named serviceType

/-- What a report of the daemon does to a browse, and what the browse reports. -/
inductive Steps (b : Browse) : ServiceEvent → Browse → List DiscoveryEvent → Prop where
  | passes {e : ServiceEvent} : (∀ f d, b.resolved.get? f = some d → e.Passes f) →
      (∀ s d, e = .resolved s → s.device? b.serviceType ≠ some d) → Steps b e b []
  /-- The service appears, or is the same device as before. -/
  | resolves {s : Service} {d : Device} : s.device? b.serviceType = some d →
      (∀ known, b.resolved.get? s.fullname = some known → known.identity = d.identity) →
      Steps b (.resolved s) { b with resolved := b.resolved.put s.fullname d } [.added d]
  /-- The service is another device than before. -/
  | moves {s : Service} {d known : Device} : s.device? b.serviceType = some d →
      b.resolved.get? s.fullname = some known → known.identity ≠ d.identity →
      Steps b (.resolved s) { b with resolved := b.resolved.put s.fullname d }
        [.removed known, .added d]
  | removes {f : String} {d : Device} : b.resolved.get? f = some d →
      Steps b (.removed f) { b with resolved := b.resolved.erase f } [.removed d]

theorem steps_of_step {b b' : Browse} {out : List DiscoveryEvent} (h : b.step e = some (b', out)) :
    b.Steps e b' out := by
  cases e with
  | resolved s =>
    simp only [step] at h
    split at h
    · rename_i hnone
      cases h
      have haddresses : s.addresses = [] := by
        simpa [Service.device?, preferredAddress_eq_none] using hnone
      refine .passes (fun f d _ => ?_) (fun s' d hs' => ?_)
      · simp [ServiceEvent.Passes, haddresses]
      · cases hs'
        simp [hnone]
    · rename_i d hd
      cases hknown : b.resolved.get? s.fullname with
      | none =>
        simp only [hknown, List.nil_append] at h
        cases h
        exact .resolves hd fun known hk => by simp [hknown] at hk
      | some known =>
        simp only [hknown] at h
        split at h
        · rename_i hsame
          cases h
          refine .resolves hd fun known' hk => ?_
          rw [hknown] at hk
          cases hk
          exact Device.same_iff.1 hsame
        · rename_i hother
          cases h
          exact .moves hd hknown fun hid => hother (Device.same_iff.2 hid)
  | removed f =>
    simp only [step] at h
    split at h
    · rename_i hnone
      cases h
      refine .passes (fun f' d hd => ?_) (by simp)
      have hne : f ≠ f' := by
        intro hf
        rw [← hf, hnone] at hd
        cases hd
      simp [ServiceEvent.Passes, hne]
    · rename_i d hd
      cases h
      exact .removes hd
  | found f | started =>
    cases h
    exact .passes (by simp [ServiceEvent.Passes]) (by simp)
  | stopped => cases h

/-- A browse that knows how the services stand knows it after one more report. -/
theorem Knows.step {b b' : Browse} {out : List DiscoveryEvent} (h : b.Knows serviceType es)
    (hstep : b.Steps e b' out)
    (hform : ∀ f ∈ e.fullname?, ∃ name, f = Service.fullnameOf name serviceType) :
    b'.Knows serviceType (es ++ [e]) := by
  -- A service is put into the browse in the same way, whether it was known under its name or not.
  have put : ∀ {s : Service} {d : Device}, e = .resolved s → s.device? b.serviceType = some d →
      Knows serviceType (es ++ [e]) { b with resolved := b.resolved.put s.fullname d } := by
    rintro s d rfl hd
    rw [h.serviceType_eq] at hd
    have hname := name_of_device? hd (hform s.fullname rfl)
    have haddresses : s.addresses ≠ [] := fun hnil => by
      simp [Service.device?, hnil, preferredAddress] at hd
    refine ⟨h.serviceType_eq, fun f c => ?_, fun f c hc => ?_⟩
    · simp only [Table.get?_put, standsAs_snoc, ← h.stands]
      by_cases hf : s.fullname = f
      · subst hf
        simp [hd, ServiceEvent.Passes, haddresses]
      · simp [hf, ServiceEvent.Passes]
    · simp only [Table.get?_put] at hc
      split at hc
      · rename_i hf
        cases hc
        exact hf ▸ hname
      · exact h.named f c hc
  cases hstep with
  | passes hpasses hnone =>
    refine ⟨h.serviceType_eq, fun f d => ?_, h.named⟩
    rw [standsAs_snoc, ← h.stands]
    constructor
    · exact fun hd => .inr ⟨hd, hpasses f d hd⟩
    · rintro (⟨s, rfl, -, hd⟩ | ⟨hd, -⟩)
      · exact absurd (h.serviceType_eq ▸ hd) (hnone s d rfl)
      · exact hd
  | resolves hd _ => exact put rfl hd
  | moves hd _ _ => exact put rfl hd
  | @removes f d hd =>
    refine ⟨h.serviceType_eq, fun f' c => ?_, fun f' c hc => ?_⟩
    · simp only [Table.get?_erase, standsAs_snoc, ← h.stands]
      by_cases hf : f = f'
      · simp [hf, ServiceEvent.Passes]
      · simp [hf, ServiceEvent.Passes]
    · simp only [Table.get?_erase] at hc
      split at hc
      · cases hc
      · exact h.named f' c hc

end Browse

end Discovery

/-! ## What a group hears -/

namespace Group

variable {g : Group} {me : LocalIdentity} {port : UInt16} {machine : List Net.IpAddress}
  {d : Device}

/-- A group takes up reports in order, each with the addresses that the machine has by then. -/
def hearAll (g : Group) (me : LocalIdentity) (port : UInt16) :
    List (List Net.IpAddress × DiscoveryEvent) → Group
  | [] => g
  | x :: xs => (g.onDiscovery me port x.1 x.2).group.hearAll me port xs

theorem hearAll_append (xs ys : List (List Net.IpAddress × DiscoveryEvent)) :
    g.hearAll me port (xs ++ ys) = (g.hearAll me port xs).hearAll me port ys := by
  induction xs generalizing g with
  | nil => rfl
  | cons x xs ih => exact ih

/-- A device that is not this node is on record as it was added. -/
theorem get?_discovered_added (hkeyed : g.discovered.Keyed id)
    (hforeign : me.isSelf port machine d = false) (k : Device.Identity) :
    (g.onDiscovery me port machine (.added d)).group.discovered.get? k =
      if d.identity = k then some d else g.discovered.get? k := by
  simp only [onDiscovery, hforeign, Bool.false_eq_true, if_false]
  cases hknown : g.discovered.get? d.identity with
  | none => exact Table.get?_put ..
  | some known =>
    simp only
    split
    · rename_i hsame
      -- Nothing is written then, and nothing has to be: the record that is there is the same.
      have hid : known.identity = d.identity := hkeyed _ _ hknown
      have heq : known = d := by
        cases known
        cases d
        simp_all [Device.identity]
      split
      · rename_i hk
        rw [← hk, hknown, heq]
      · rfl
    · exact Table.get?_put ..

theorem get?_discovered_removed (k : Device.Identity) :
    (g.onDiscovery me port machine (.removed d)).group.discovered.get? k =
      if d.identity = k then none else g.discovered.get? k := by
  simp only [onDiscovery]
  split
  · exact Table.get?_erase ..
  · rename_i hnone
    split
    · rename_i hk
      rw [← hk]
      simpa [Table.contains] using hnone
    · rfl

/-- The group lists the device as discovered, with this fingerprint. -/
def Lists (g : Group) (d : Device) : Prop := g.discovered.get? d.identity = some d

theorem keyed_onDiscovery (hkeyed : g.discovered.Keyed id) (e : DiscoveryEvent) :
    (g.onDiscovery me port machine e).group.discovered.Keyed id := by
  by_cases hforeign : ∃ d, e = .added d ∧ me.isSelf port machine d = true
  · obtain ⟨d, rfl, hself⟩ := hforeign
    simpa only [onDiscovery, hself, if_true] using hkeyed
  · intro k v hv
    cases e with
    | added d =>
      have hself : me.isSelf port machine d = false :=
        Bool.eq_false_iff.2 fun hself => hforeign ⟨d, rfl, hself⟩
      rw [get?_discovered_added hkeyed hself] at hv
      split at hv
      · rename_i hk
        cases hv
        exact hk
      · exact hkeyed k v hv
    | removed d =>
      rw [get?_discovered_removed] at hv
      split at hv
      · cases hv
      · exact hkeyed k v hv

theorem lists_added (hkeyed : g.discovered.Keyed id) (hforeign : me.isSelf port machine d = false)
    (c : Device) : (g.onDiscovery me port machine (.added d)).group.Lists c ↔
      if d.identity = c.identity then c = d else g.Lists c := by
  rw [Lists, get?_discovered_added hkeyed hforeign]
  split
  · exact ⟨fun h => (Option.some.inj h).symm, fun h => congrArg some h.symm⟩
  · rfl

theorem lists_removed (c : Device) :
    (g.onDiscovery me port machine (.removed d)).group.Lists c ↔
      d.identity ≠ c.identity ∧ g.Lists c := by
  rw [Lists, get?_discovered_removed]
  split
  · simp_all
  · rename_i hne
    simp [hne, Lists]

theorem mem_discoveredDevices (hkeyed : g.discovered.Keyed id) (d : Device) :
    d ∈ g.discoveredDevices ↔ g.Lists d := by
  rw [discoveredDevices, Device.listed, List.mem_mergeSort, Table.mem_values_iff]
  constructor
  · rintro ⟨k, hk⟩
    have hid : d.identity = k := hkeyed k d hk
    rw [Lists, hid, hk]
  · exact fun h => ⟨_, h⟩

/-- No device is listed twice. -/
theorem nodup_discoveredDevices (hkeyed : g.discovered.Keyed id) :
    (g.discoveredDevices.map Device.identity).Nodup := by
  have hkeys : g.discovered.values.map Device.identity = g.discovered.keys := by
    rw [Table.values, Table.keys, List.map_map]
    exact List.map_congr_left fun x hx => hkeyed x.1 x.2 (Table.mem_entries_iff.1 hx)
  have hperm : (g.discoveredDevices.map Device.identity).Perm g.discovered.keys := by
    rw [← hkeys]
    exact (List.mergeSort_perm _ _).map _
  exact hperm.nodup_iff.2 g.discovered.distinct

end Group

namespace Discovery

variable {serviceType : String} {es : List ServiceEvent} {e : ServiceEvent} {b b' : Browse}
  {g : Group} {me : LocalIdentity} {port : UInt16} {out : List DiscoveryEvent} {d : Device}
  {heard : List (List Net.IpAddress × DiscoveryEvent)}

/-- None of the devices that are added is this node when the group hears of it. -/
def Foreign (me : LocalIdentity) (port : UInt16)
    (heard : List (List Net.IpAddress × DiscoveryEvent)) : Prop :=
  ∀ x ∈ heard, ∀ d, x.2 = .added d → me.isSelf port x.1 d = false

/-! ## A browse and a group -/

/-- The group lists the devices that the browse knows. -/
structure Mirrors (b : Browse) (g : Group) : Prop where
  keyed : g.discovered.Keyed id
  lists : ∀ d, g.Lists d ↔ ∃ f, b.resolved.get? f = some d

/-- The group lists all devices but the one that a service is now, and then that one. -/
theorem Mirrors.put {f : String} {machine : List Net.IpAddress} (hkeyed : g.discovered.Keyed id)
    (hnamed : Browse.Named serviceType { b with resolved := b.resolved.put f d })
    (hothers : ∀ c, d.identity ≠ c.identity →
      (g.Lists c ↔ ∃ f', f ≠ f' ∧ b.resolved.get? f' = some c))
    (hforeign : me.isSelf port machine d = false) :
    Mirrors { b with resolved := b.resolved.put f d }
      (g.onDiscovery me port machine (.added d)).group := by
  -- Only the name that is written is looked at here; the caller says what the others hold.
  have hself : (b.resolved.put f d).get? f = some d := by simp [Table.get?_put]
  have hother : ∀ {f'}, f ≠ f' → (b.resolved.put f d).get? f' = b.resolved.get? f' :=
    fun hf => by simp [Table.get?_put, hf]
  refine ⟨Group.keyed_onDiscovery hkeyed _, fun c => ?_⟩
  rw [Group.lists_added hkeyed hforeign]
  split
  · rename_i hid
    constructor
    · rintro rfl
      exact ⟨f, hself⟩
    · rintro ⟨f', hc⟩
      obtain rfl := hnamed.unique hself hc hid
      exact (Option.some.inj (hself.symm.trans hc)).symm
  · rename_i hid
    rw [hothers c hid]
    constructor
    · rintro ⟨f', hf, hc⟩
      exact ⟨f', (hother hf).trans hc⟩
    · rintro ⟨f', hc⟩
      have hf : f ≠ f' := by
        rintro rfl
        exact hid (congrArg Device.identity (Option.some.inj (hself.symm.trans hc)))
      exact ⟨f', hf, hother hf ▸ hc⟩

/-- A group that hears what a browse reports lists what the browse knows then. -/
theorem Mirrors.step (h : Mirrors b g) (hnamed : b.Named serviceType)
    (hnamed' : b'.Named serviceType) (hstep : b.Steps e b' out) (hheard : heard.map (·.2) = out)
    (hforeign : Foreign me port heard) : Mirrors b' (g.hearAll me port heard) := by
  cases hstep with
  | passes =>
    rw [List.map_eq_nil_iff.1 hheard]
    exact h
  | @resolves s d hd hsame =>
    obtain ⟨⟨machine, _⟩, rfl, rfl⟩ := List.map_eq_singleton_iff.1 hheard
    refine Mirrors.put h.keyed hnamed' (fun c hid => ?_)
      (hforeign (machine, .added d) (by simp) d rfl)
    rw [h.lists]
    refine ⟨fun ⟨f, hc⟩ => ⟨f, ?_, hc⟩, fun ⟨f, _, hc⟩ => ⟨f, hc⟩⟩
    rintro rfl
    exact hid (hsame c hc).symm
  | @moves s d known hd hknown hother =>
    -- Two reports: the device is lost where it was and found where it is now.
    obtain ⟨⟨machine, _⟩, rest, rfl, rfl, hrest⟩ := List.map_eq_cons_iff.1 hheard
    obtain ⟨⟨machine', _⟩, rfl, rfl⟩ := List.map_eq_singleton_iff.1 hrest
    refine Mirrors.put (Group.keyed_onDiscovery h.keyed _) hnamed' (fun c hid => ?_)
      (hforeign (machine', .added d) (by simp) d rfl)
    rw [Group.lists_removed, h.lists]
    constructor
    · rintro ⟨hne, f, hc⟩
      refine ⟨f, ?_, hc⟩
      rintro rfl
      exact hne (congrArg Device.identity (Option.some.inj (hknown.symm.trans hc)))
    · rintro ⟨f, hf, hc⟩
      exact ⟨fun hid' => hf (hnamed.unique hknown hc hid'), f, hc⟩
  | @removes f d hd =>
    obtain ⟨⟨machine, _⟩, rfl, rfl⟩ := List.map_eq_singleton_iff.1 hheard
    refine ⟨Group.keyed_onDiscovery h.keyed _, fun c => ?_⟩
    show (g.onDiscovery me port machine (.removed d)).group.Lists c ↔ _
    simp only [Group.lists_removed, h.lists, Table.get?_erase]
    constructor
    · rintro ⟨hne, f', hc⟩
      refine ⟨f', ?_⟩
      rw [if_neg, hc]
      rintro rfl
      exact hne (congrArg Device.identity (Option.some.inj (hd.symm.trans hc)))
    · rintro ⟨f', hc⟩
      split at hc
      · cases hc
      · rename_i hf
        exact ⟨fun hid => hf (hnamed.unique hd hc hid), f', hc⟩

/-- A group that hears all that a browse reports keeps up with the daemon. -/
theorem Mirrors.hearAll {past : List ServiceEvent} (h : Mirrors b g)
    (hknows : b.Knows serviceType past)
    (hform : ∀ e ∈ es, ∀ f ∈ e.fullname?, ∃ name, f = Service.fullnameOf name serviceType)
    (hheard : heard.map (·.2) = b.reports es) (hforeign : Foreign me port heard) :
    ∃ b', b'.Knows serviceType (past ++ untilStopped es) ∧
      Mirrors b' (g.hearAll me port heard) := by
  induction es generalizing past b g heard with
  | nil =>
    rw [List.map_eq_nil_iff.1 hheard]
    exact ⟨b, by simpa [untilStopped] using hknows, h⟩
  | cons e es ih =>
    rw [Browse.reports] at hheard
    split at hheard
    · rename_i hstops
      -- Only the end of the search stops a browse; what the daemon says later goes nowhere.
      have hstopped : e = .stopped := by
        cases e with
        | stopped => rfl
        | resolved s | removed f =>
          simp only [Browse.step] at hstops
          split at hstops <;> cases hstops
        | found f | started => cases hstops
      rw [List.map_eq_nil_iff.1 hheard]
      exact ⟨b, by simpa [untilStopped, hstopped] using hknows, h⟩
    · rename_i b₁ out hstep
      have hgoes : e ≠ .stopped := by
        rintro rfl
        cases hstep
      obtain ⟨first, rest, rfl, hfirst, hrest⟩ := List.map_eq_append_iff.1 hheard
      have hsteps := Browse.steps_of_step hstep
      have hknows₁ := hknows.step hsteps (hform e List.mem_cons_self)
      have hmirrors := h.step hknows.named hknows₁.named hsteps hfirst
        fun x hx => hforeign x (List.mem_append_left _ hx)
      obtain ⟨b', hknows', hmirrors'⟩ := ih hmirrors hknows₁
        (fun x hx => hform x (List.mem_cons_of_mem _ hx)) hrest
        fun x hx => hforeign x (List.mem_append_right _ hx)
      refine ⟨b', ?_, Group.hearAll_append first rest ▸ hmirrors'⟩
      simpa [untilStopped, hgoes] using hknows'

/-! ## The stream between them -/

namespace Feed

/-- What a daemon has reported to a browse, and what was taken out of the stream. -/
inductive Run (serviceType : String) : List ServiceEvent → List DiscoveryEvent → Feed → Prop where
  | start : Run serviceType [] [] { browse := { serviceType } }
  | hears {es : List ServiceEvent} {taken : List DiscoveryEvent} {f : Feed} (e : ServiceEvent) :
      Run serviceType es taken f → Run serviceType (es ++ [e]) taken (f.hear e)
  /-- The browse works until it has to wait. -/
  | works {es : List ServiceEvent} {taken : List DiscoveryEvent} {f : Feed} :
      Run serviceType es taken f → Run serviceType es taken f.settle
  | takes {es : List ServiceEvent} {taken queue : List DiscoveryEvent} {f : Feed}
      {x : DiscoveryEvent} : Run serviceType es taken f → f.queue = x :: queue →
      Run serviceType es (taken ++ [x]) { f with queue }

/-- Nothing waits to be taken up or to be taken out. -/
def AtRest (f : Feed) : Prop := f.inbox = [] ∧ f.held = [] ∧ f.queue = []

instance (f : Feed) : Decidable f.AtRest := inferInstanceAs (Decidable (_ ∧ _))

variable {f : Feed} {taken : List DiscoveryEvent} {all : List ServiceEvent → List DiscoveryEvent}

/-- What was taken out and what is still to come of a browse with these reports of the daemon before
it, whatever more the daemon reports. -/
structure Carries (f : Feed) (inbox : List ServiceEvent) (taken : List DiscoveryEvent)
    (all : List ServiceEvent → List DiscoveryEvent) : Prop where
  listening : f.listening = true
  registered : f.registered = true
  all_eq : ∀ more, taken ++ (f.queue ++ f.held ++
    if f.running then f.browse.reports (inbox ++ more) else []) = all more

theorem Carries.flush (h : Carries f es taken all) : Carries f.flush es taken all := by
  unfold Feed.flush
  split
  · exact h
  · rw [if_neg (by simp [h.listening])]
    refine ⟨h.listening, h.registered, fun more => ?_⟩
    rw [← h.all_eq more]
    simp

/-- A browse that takes up reports of the daemon reports what they lead to. -/
theorem Carries.takeUp (h : Carries f es taken all) :
    Carries (Feed.takeUp es f) (Feed.takeUp es f).inbox taken all := by
  -- The recursion of `takeUp`: each report is taken up in another state of the browse.
  induction es generalizing f with
  | nil =>
    rw [Feed.takeUp, if_neg (by simp [h.registered])]
    exact ⟨h.listening, h.registered, h.all_eq⟩
  | cons e es ih =>
    rw [Feed.takeUp]
    split
    · rename_i hstopped
      refine ⟨h.listening, h.registered, fun more => ?_⟩
      rw [← h.all_eq more]
      simp_all
    · rename_i hruns
      rw [Bool.not_eq_true', Bool.not_eq_false] at hruns
      split
      · exact ⟨h.listening, h.registered, h.all_eq⟩
      · rename_i hheld
        rw [Bool.not_eq_true', Bool.not_eq_false, List.isEmpty_iff] at hheld
        have hall := h.all_eq
        simp only [hruns, hheld, if_true, List.cons_append, Browse.reports] at hall
        split
        · rename_i hstep
          refine ⟨h.listening, h.registered, fun more => ?_⟩
          rw [← hall more, hstep]
          simp [finish]
        · rename_i b' out hstep
          refine ih (Carries.flush ⟨h.listening, h.registered, fun more => ?_⟩)
          rw [← hall more, hstep]
          simp [hruns]

theorem Carries.hear (h : Carries f f.inbox taken all) (e : ServiceEvent) :
    Carries (f.hear e) (f.hear e).inbox taken (fun more => all (e :: more)) := by
  unfold Feed.hear
  split
  · refine ⟨h.listening, h.registered, fun more => ?_⟩
    rw [← h.all_eq (e :: more)]
    simp
  · rename_i hstopped
    rw [h.registered, Bool.true_and, Bool.not_eq_true] at hstopped
    refine ⟨h.listening, h.registered, fun more => ?_⟩
    rw [← h.all_eq (e :: more)]
    simp [hstopped]

theorem Run.carries (h : Run serviceType es taken f) :
    Carries f f.inbox taken fun more => ({ serviceType } : Browse).reports (es ++ more) := by
  induction h with
  | start => exact ⟨rfl, rfl, fun more => rfl⟩
  | hears e _ ih => simpa using ih.hear e
  | works _ ih => exact ih.flush.takeUp
  | takes _ hqueue ih =>
    refine ⟨ih.listening, ih.registered, fun more => ?_⟩
    rw [← ih.all_eq more, hqueue]
    simp

/-- All that a browse reports is taken out of its stream in the end. -/
theorem Run.loses_none (h : Run serviceType es taken f) (hrest : f.AtRest) :
    taken = ({ serviceType } : Browse).reports es := by
  obtain ⟨hinbox, hheld, hqueue⟩ := hrest
  have hall := h.carries.all_eq []
  rw [hinbox, hheld, hqueue] at hall
  simpa [Browse.reports] using hall

/-- Everything that is in the stream is taken out. -/
theorem Run.drain (h : Run serviceType es taken f) :
    Run serviceType es (taken ++ f.drain.1) f.drain.2 := by
  obtain ⟨queue, hqueue⟩ : ∃ queue, f.queue = queue := ⟨_, rfl⟩
  have hdrained : Run serviceType es (taken ++ queue) { f with queue := [] } := by
    induction queue generalizing taken f with
    | nil =>
      rw [List.append_nil, ← hqueue]
      exact h
    | cons x queue ih =>
      have hnext := ih (h.takes hqueue) rfl
      simpa using hnext
  rw [Feed.drain, hqueue]
  exact hdrained

/-! ### Coming to rest -/

/-- A browse with these reports of the daemon before it, as runs lead to it: for one that has
stopped nothing comes, and the stream holds no more than it can. -/
structure Orderly (f : Feed) (inbox : List ServiceEvent) : Prop where
  listening : f.listening = true
  registered : f.registered = true
  stopped : f.running = false → inbox = []
  fits : f.queue.length ≤ capacity

/-- A browse waits only for room in the stream. -/
def WaitsForRoom (f : Feed) : Prop := f.held = [] ∨ f.queue.length = capacity

theorem Orderly.flush (h : Orderly f es) : Orderly f.flush es ∧ f.flush.WaitsForRoom := by
  unfold Feed.flush
  split
  · rename_i hheld
    exact ⟨h, .inl (List.isEmpty_iff.1 hheld)⟩
  · rw [if_neg (by simp [h.listening])]
    have hfits := h.fits
    refine ⟨⟨h.listening, h.registered, h.stopped, ?_⟩, ?_⟩
    · simp only [List.length_append, List.length_take]
      omega
    · by_cases hroom : f.held.length ≤ capacity - f.queue.length
      · exact .inl (List.drop_eq_nil_of_le hroom)
      · refine .inr ?_
        simp only [List.length_append, List.length_take]
        omega

theorem Orderly.takeUp (h : Orderly f es) (hwaits : f.WaitsForRoom) :
    Orderly (Feed.takeUp es f) (Feed.takeUp es f).inbox ∧
      ((Feed.takeUp es f).inbox = [] ∧ (Feed.takeUp es f).held = [] ∨
        (Feed.takeUp es f).queue.length = capacity) := by
  induction es generalizing f with
  | nil =>
    rw [Feed.takeUp, if_neg (by simp [h.registered])]
    exact ⟨⟨h.listening, h.registered, fun _ => rfl, h.fits⟩,
      hwaits.imp_left fun hheld => ⟨rfl, hheld⟩⟩
  | cons e es ih =>
    have hruns : f.running = true := by
      rw [← Bool.not_eq_false]
      exact fun hstopped => nomatch h.stopped hstopped
    rw [Feed.takeUp, if_neg (by simp [hruns])]
    split
    · -- The stream is full, and the browse stays before the report.
      rename_i hheld
      have hfull := hwaits.resolve_left fun hnone => by simp [hnone] at hheld
      exact ⟨⟨h.listening, h.registered,
          fun hstopped => (nomatch hruns.symm.trans hstopped), h.fits⟩,
        .inr hfull⟩
    · split
      · exact ⟨⟨h.listening, h.registered, fun _ => rfl, h.fits⟩, .inl ⟨rfl, rfl⟩⟩
      · rename_i b out _
        have hnext : Orderly { f with browse := b, held := out } es :=
          ⟨h.listening, h.registered, fun hstopped => (nomatch hruns.symm.trans hstopped), h.fits⟩
        exact ih hnext.flush.1 hnext.flush.2

theorem Run.orderly (h : Run serviceType es taken f) : Orderly f f.inbox := by
  induction h with
  | start => exact ⟨rfl, rfl, fun _ => rfl, Nat.zero_le _⟩
  | hears e _ ih =>
    unfold Feed.hear
    split
    · rename_i hopen
      obtain ⟨-, hruns⟩ := (Bool.and_eq_true _ _).mp hopen
      exact ⟨ih.listening, ih.registered, fun hstopped => (nomatch hruns.symm.trans hstopped),
        ih.fits⟩
    · exact ih
  | works _ ih =>
    obtain ⟨hflush, hroom⟩ := ih.flush
    exact (hflush.takeUp hroom).1
  | takes _ hqueue ih =>
    have hfits := ih.fits
    rw [hqueue, List.length_cons] at hfits
    exact ⟨ih.listening, ih.registered, ih.stopped, by simp only; omega⟩

/-- A browse that worked until it has to wait has taken up all reports of the daemon, or the stream
is full. -/
theorem Run.settles (h : Run serviceType es taken f) :
    f.settle.inbox = [] ∧ f.settle.held = [] ∨ f.settle.queue.length = capacity := by
  obtain ⟨hflush, hroom⟩ := h.orderly.flush
  exact (hflush.takeUp hroom).2

theorem Run.length_taken_le (h : Run serviceType es taken f) :
    taken.length ≤ (({ serviceType } : Browse).reports es).length := by
  have hall := congrArg List.length (h.carries.all_eq [])
  rw [List.length_append, List.append_nil es] at hall
  omega

/-- **A stream comes to rest.** Whatever the daemon has reported and however much of it has been
taken out: if it reports nothing more, the browse works and its reports are taken out, then nothing
waits any more. -/
theorem Run.comes_to_rest {taken : List DiscoveryEvent} {f : Feed}
    (h : Run serviceType es taken f) :
    ∃ more f', Run serviceType es (taken ++ more) f' ∧ f'.AtRest := by
  obtain ⟨hinbox, hheld⟩ | hfull := h.settles
  · exact ⟨_, _, h.works.drain, hinbox, hheld, rfl⟩
  · -- A full stream is taken out, and there is an end to what is reported.
    have htaken : (taken ++ f.settle.drain.1).length = taken.length + capacity := by
      rw [List.length_append, Feed.drain, hfull]
    have hle := h.works.drain.length_taken_le
    obtain ⟨more, f', hrun, hrest⟩ := Run.comes_to_rest h.works.drain
    exact ⟨f.settle.drain.1 ++ more, f', by rwa [← List.append_assoc], hrest⟩
termination_by (({ serviceType } : Browse).reports es).length - taken.length
decreasing_by
  simp only [capacity] at htaken
  omega

/-- Everything that a daemon can report has a run at the end of which it is taken out. -/
theorem exists_run_at_rest (serviceType : String) (es : List ServiceEvent) :
    ∃ taken f, Run serviceType es taken f ∧ f.AtRest := by
  have hears : ∃ f, Run serviceType es [] f := by
    induction es using List.reverseRecOn with
    | nil => exact ⟨_, .start⟩
    | append_singleton es e ih =>
      obtain ⟨f, hrun⟩ := ih
      exact ⟨_, hrun.hears e⟩
  obtain ⟨f, hrun⟩ := hears
  obtain ⟨taken, f', hrun', hrest⟩ := hrun.comes_to_rest
  exact ⟨taken, f', hrun', hrest⟩

end Feed

/-! ## What is discovered -/

theorem mirrors_empty (hnone : g.discovered = .empty) : Mirrors { serviceType } g where
  keyed k d hd := by simp [hnone] at hd
  lists d := by simp [Group.Lists, hnone]

theorem knows_start (serviceType : String) : Browse.Knows serviceType [] { serviceType } where
  serviceType_eq := rfl
  stands f d := by simp [StandsAs]
  named f d hd := by simp at hd

/-- **What is discovered is what is on the network.** A browse reports what a daemon tells it about
services, all of which bear a name in front of the type that is browsed for, and a group without
discovered devices hears it all, none of it about the node itself. Then:

* the devices that the group lists, with their fingerprints, are those as which the services stand:
  as which they were last resolved with an address, if they were not removed since;
* no device is listed twice, a service stands as one device, and two services as two devices;
* a device has the name that its service bears;
* the same services with their addresses in another order lead to the same reports. -/
theorem discovered_is_on_the_network {taken : List DiscoveryEvent} {f : Feed}
    (hrun : Feed.Run serviceType es taken f) (hrest : f.AtRest)
    (hform : ∀ e ∈ es, ∀ n ∈ e.fullname?, ∃ name, n = Service.fullnameOf name serviceType)
    (hnone : g.discovered = .empty) (hheard : heard.map (·.2) = taken)
    (hforeign : Foreign me port heard) :
    (∀ d, d ∈ (g.hearAll me port heard).discoveredDevices ↔
      ∃ n, StandsAs serviceType (untilStopped es) n d) ∧
    ((g.hearAll me port heard).discoveredDevices.map Device.identity).Nodup ∧
    (∀ n n' d d', StandsAs serviceType (untilStopped es) n d →
      StandsAs serviceType (untilStopped es) n' d' → (n = n' → d = d') ∧ (d.same d' → n = n')) ∧
    (∀ n d, StandsAs serviceType (untilStopped es) n d →
      n = Service.fullnameOf d.name serviceType) ∧
    ∀ es' taken' f', List.Forall₂ ServiceEvent.Like es es' → Feed.Run serviceType es' taken' f' →
      f'.AtRest → taken' = taken := by
  -- What was taken out is what the browse says of the reports, whatever turns it took; the rest
  -- is about that list alone.
  have htaken := hrun.loses_none hrest
  obtain ⟨b, hknows, hmirrors⟩ := (mirrors_empty hnone).hearAll (knows_start serviceType) hform
    (hheard.trans htaken) hforeign
  rw [List.nil_append] at hknows
  refine ⟨fun d => ?_, Group.nodup_discoveredDevices hmirrors.keyed, fun n n' d d' hd hd' => ?_,
    fun n d hd => hknows.named n d ((hknows.stands n d).2 hd),
    fun es' taken' f' hlike hrun' hrest' => ?_⟩
  · rw [Group.mem_discoveredDevices hmirrors.keyed, hmirrors.lists]
    exact exists_congr fun n => hknows.stands n d
  · rw [← hknows.stands] at hd hd'
    refine ⟨?_, fun hsame => hknows.named.unique hd hd' (Device.same_iff.1 hsame)⟩
    rintro rfl
    exact Option.some.inj (hd.symm.trans hd')
  -- Two runs at rest took out what depends on nothing but the order of preference.
  · rw [hrun'.loses_none hrest', htaken, Browse.reports_like hlike]

/-- A service of a clipboard. -/
def onNetwork (name : String) (addresses : List Net.IpAddress) : Service where
  fullname := Service.fullnameOf name "_clipmesh._tcp.local."
  addresses := addresses
  port := 17394

/-- A desk appears with two addresses and moves to another one, and a tower comes and goes. -/
def moving : List ServiceEvent :=
  [.resolved (onNetwork "Jo's desk" [.v6 1, .v4 0xC000020A]),
    .resolved (onNetwork "tower" [.v4 0xC000020C]),
    .resolved (onNetwork "Jo's desk" [.v4 0xC000020B]),
    .removed (onNetwork "tower" []).fullname, .removed (onNetwork "ghost" []).fullname]

/-- The device that a report is about. -/
def deviceOf : DiscoveryEvent → Device
  | .added d | .removed d => d

/-- The reports are taken out before and after the desk moves. -/
theorem run_moving : ∃ taken f, Feed.Run "_clipmesh._tcp.local." moving taken f ∧ f.AtRest ∧
    ∀ d, .added d ∈ taken → d.name ≠ "this node" := by
  have hstart : Feed.Run "_clipmesh._tcp.local." [] [] _ := .start
  have hrun := hstart
    |>.hears (.resolved (onNetwork "Jo's desk" [.v6 1, .v4 0xC000020A]))
    |>.hears (.resolved (onNetwork "tower" [.v4 0xC000020C])) |>.works |>.drain
    |>.hears (.resolved (onNetwork "Jo's desk" [.v4 0xC000020B]))
    |>.hears (.removed (onNetwork "tower" []).fullname)
    |>.hears (.removed (onNetwork "ghost" []).fullname) |>.works |>.drain
  refine ⟨_, _, hrun, by decide +kernel, fun d hd => ?_⟩
  -- The names are read off the reports, which is shorter than running the stream.
  rw [hrun.loses_none (by decide +kernel)] at hd
  have hnames : ∀ x ∈ ({ serviceType := "_clipmesh._tcp.local." } : Browse).reports moving,
      (deviceOf x).name ≠ "this node" := by
    decide +kernel
  exact hnames _ hd

theorem discovered_is_on_the_network_moving : ∃ taken f,
    Feed.Run "_clipmesh._tcp.local." moving taken f ∧ f.AtRest ∧
    ⟨.v4 0xC000020B, 17394, "Jo's desk", none⟩ ∈ ((Group.fresh 10).hearAll ⟨"this node", none⟩ 17394
      (taken.map fun x => ([], x))).discoveredDevices := by
  obtain ⟨taken, f, hrun, hrest, hnames⟩ := run_moving
  refine ⟨taken, f, hrun, hrest, ?_⟩
  have hform : ∀ e ∈ moving, ∀ n ∈ e.fullname?,
      ∃ name, n = Service.fullnameOf name "_clipmesh._tcp.local." := by
    intro e he n hn
    simp only [moving, List.mem_cons, List.not_mem_nil, or_false] at he
    obtain rfl | rfl | rfl | rfl | rfl := he
    all_goals
      cases hn
      exact ⟨_, rfl⟩
  have hforeign : Foreign ⟨"this node", none⟩ 17394 (taken.map fun x => ([], x)) := by
    intro x hx d hd
    obtain ⟨y, hy, rfl⟩ := List.mem_map.1 hx
    obtain rfl : y = .added d := hd
    simp [LocalIdentity.isSelf, hnames d hy]
  refine ((discovered_is_on_the_network (g := Group.fresh 10) hrun hrest hform rfl ?_ hforeign).1
    _).2 ⟨(onNetwork "Jo's desk" []).fullname, moving.take 2,
      onNetwork "Jo's desk" [.v4 0xC000020B], moving.drop 3, rfl, rfl, by decide +kernel, ?_⟩
  · simp
  · intro e he
    simp only [moving, List.drop, List.mem_cons, List.not_mem_nil, or_false] at he
    obtain rfl | rfl := he
    all_goals
      refine ⟨by decide +kernel, fun s hs => ?_⟩
      cases hs

end Discovery

end SharedClipboard

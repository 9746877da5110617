import SharedClipboard.Proofs.Node.Handle
import Mathlib.Data.Prod.Lex
import Mathlib.Data.String.Basic

/-!
# Which of two nodes dials the other

Two nodes discover each other. Each sees the other's announcement as a device (`Node.Sees`), and
unless there is a session already the one whose name and port come first is to dial.

**Theorem (`first_of_two_dials`).** When each of two nodes is told of the other, exactly one of them
dials the other if and only if their names or their ports differ; and never do both dial, whatever
else they are told and whenever.

The order of the names, and among equal names of the ports, is linear (`Node.rank`), so one of two
different nodes comes first, seen from both sides. But two nodes on different machines may have the
same name and the same port. Neither takes the other for itself, because the addresses differ, and
neither comes first, so neither ever dials the other (`namesakes_stay_apart`).
-/

namespace SharedClipboard

namespace Node

variable {n m : Node} {d e : Device} {room : SessionId → Room}

/-! ## Who comes first -/

/-- By what nodes are ordered. -/
def rank (n : Node) : String ×ₗ Nat := toLex (n.identity.name, n.port.toNat)

/-- How a node sees another: as a device with its name and port, at some address, that it does not
take for itself. -/
structure Sees (n m : Node) (d : Device) : Prop where
  name : d.name = m.identity.name
  port : d.port = m.port
  other : n.identity.isSelf n.port n.machine d = false

/-- A node comes first if it does in the order of nodes, seen from either side. -/
theorem Sees.dialsFirst_iff (hd : n.Sees m d) :
    n.identity.dialsFirst n.port d = true ↔ n.rank < m.rank := by
  rw [rank, rank, Prod.Lex.toLex_lt_toLex, LocalIdentity.dialsFirst, hd.name, hd.port]
  simp [UInt16.lt_iff_toNat_lt]

theorem rank_eq_iff : n.rank = m.rank ↔ n.identity.name = m.identity.name ∧ n.port = m.port := by
  simp [rank, UInt16.toNat_inj]

/-! ## A node that is told of another -/

/-- Nothing keeps a node from dialing a device, if it is the one that is to dial. -/
structure MayDial (n : Node) (d : Device) : Prop where
  autoConnect : n.autoConnect = true
  noSession : n.group.hasSessionFor d = false
  notDialing : d.identity ∉ n.dialing

/-- Discovery reports a device that the node does not take for itself, and for which it has no
session: the device is worth dialing, and there is no session for it afterwards either. -/
theorem onDiscovery_added {g : Group} {me : LocalIdentity} {port : UInt16}
    {machine : List Net.IpAddress} (hd : me.isSelf port machine d = false)
    (hnone : g.hasSessionFor d = false) :
    (g.onDiscovery me port machine (.added d)).answer = some d ∧
      (g.onDiscovery me port machine (.added d)).group.hasSessionFor d = false := by
  constructor
  · simp only [Group.onDiscovery, hd, hnone]
    cases g.discovered.get? d.identity <;> rfl
  · obtain ⟨t, ht⟩ := Group.onDiscovery_group g me port machine (.added d)
    rw [ht]
    exact hnone

/-- A node that is told of a device and may dial it dials it if it comes first. -/
theorem dial_mem_handle_iff (hd : n.identity.isSelf n.port n.machine d = false)
    (hn : n.MayDial d) :
    .dial d 0 ∈ (n.handle room (.discovery (.added d))).effects ↔
      n.identity.dialsFirst n.port d = true := by
  refine ⟨fun h => (dial_of_handle h).2.1, fun hfirst => ?_⟩
  obtain ⟨hanswer, hnone⟩ := onDiscovery_added hd hn.noSession
  have hwould : wouldDial
      (n.take (n.group.onDiscovery n.identity n.port n.machine (.added d))).node d = true := by
    simp [wouldDial, take, hn.autoConnect, hfirst, hnone, hn.notDialing]
  simp [handle, takeAndDial, hanswer, maybeDial, hwould]

/-- Whatever a node has become and is told, it dials only who comes after it. -/
theorem rank_lt_of_dial {n' : Node} {c : Command} {delay : Nat} (hd : n.Sees m d)
    (hsame : SameNode n n') (hdial : .dial d delay ∈ (n'.handle room c).effects) :
    n.rank < m.rank := by
  obtain ⟨-, hfirst, -⟩ := dial_of_handle hdial
  rwa [hsame.identity, hsame.port, hd.dialsFirst_iff] at hfirst

/-- **Who dials.** Two nodes see each other, have no session for each other and are not dialing.
When they are told of each other, exactly one of them dials the other if their names or ports
differ, and neither if both agree. Both dial in no case: of two nodes that have come out of these,
one that is told something and dials the other is never dialed by it, whatever that is told. -/
theorem first_of_two_dials (hd : n.Sees m d) (he : m.Sees n e) (hn : n.MayDial d)
    (hm : m.MayDial e) (room room' : SessionId → Room) :
    (Xor (.dial d 0 ∈ (n.handle room (.discovery (.added d))).effects)
        (.dial e 0 ∈ (m.handle room' (.discovery (.added e))).effects) ↔
      (n.identity.name, n.port) ≠ (m.identity.name, m.port)) ∧
    ∀ n' m' c c' delay delay', SameNode n n' → SameNode m m' →
      .dial d delay ∈ (n'.handle room c).effects →
      .dial e delay' ∉ (m'.handle room' c').effects := by
  constructor
  · have hdiffer : (n.identity.name, n.port) ≠ (m.identity.name, m.port) ↔ n.rank ≠ m.rank := by
      rw [Ne, Ne, rank_eq_iff, Prod.mk.injEq]
    rw [dial_mem_handle_iff hd.other hn, dial_mem_handle_iff he.other hm, hd.dialsFirst_iff,
      he.dialsFirst_iff, hdiffer, ne_iff_lt_or_gt]
    constructor
    · exact Or.imp And.left And.left
    · exact Or.imp (fun hlt => ⟨hlt, lt_asymm hlt⟩) fun hlt => ⟨hlt, lt_asymm hlt⟩
  · intro n' m' c c' delay delay' hsame hsame' hdial hdial'
    exact lt_asymm (rank_lt_of_dial hd hsame hdial) (rank_lt_of_dial he hsame' hdial')

/-! ## Nodes on two machines -/

/-- A node on the machine with an address. -/
def onMachine (name : String) (port : UInt16) (a : Net.IpAddress) : Node :=
  { fresh (.default "/home/user") { name } port with machine := [a] }

/-- How a node on the machine with an address is announced. -/
def announcement (name : String) (port : UInt16) (a : Net.IpAddress) : Device :=
  { address := a, port, name }

def oneAddress : Net.IpAddress := .v4 0xC0000209

def otherAddress : Net.IpAddress := .v4 0xC000020A

/-- Of two nodes with the same name the one with the smaller port dials. -/
theorem first_of_two_dials_by_port :
    let one := onMachine "studio" 17394 oneAddress
    let other := onMachine "studio" 17395 otherAddress
    let toOne := announcement "studio" 17394 oneAddress
    let toOther := announcement "studio" 17395 otherAddress
    one.Sees other toOther ∧ other.Sees one toOne ∧ one.MayDial toOther ∧ other.MayDial toOne ∧
      Xor (.dial toOther 0 ∈ (one.handle (fun _ => .closed) (.discovery (.added toOther))).effects)
        (.dial toOne 0 ∈ (other.handle (fun _ => .closed) (.discovery (.added toOne))).effects) := by
  intro one other toOne toOther
  have hone : one.Sees other toOther := ⟨rfl, rfl, by decide⟩
  have hother : other.Sees one toOne := ⟨rfl, rfl, by decide⟩
  have hmayOne : one.MayDial toOther := ⟨rfl, rfl, by decide⟩
  have hmayOther : other.MayDial toOne := ⟨rfl, rfl, by decide⟩
  exact ⟨hone, hother, hmayOne, hmayOther,
    (first_of_two_dials hone hother hmayOne hmayOther _ _).1.2 (by decide)⟩

/-- **Namesakes stay apart.** Two nodes with the same name listen on the same port of two machines.
They see each other, and nothing keeps either from dialing, but neither dials when it is told of the
other; nor does either dial the other ever after, whatever the two are told. -/
theorem namesakes_stay_apart :
    let one := onMachine "studio" 17394 oneAddress
    let other := onMachine "studio" 17394 otherAddress
    let toOne := announcement "studio" 17394 oneAddress
    let toOther := announcement "studio" 17394 otherAddress
    one.Sees other toOther ∧ other.Sees one toOne ∧ one.MayDial toOther ∧ other.MayDial toOne ∧
      ∀ n room c delay,
        (SameNode one n → .dial toOther delay ∉ (n.handle room c).effects) ∧
        (SameNode other n → .dial toOne delay ∉ (n.handle room c).effects) := by
  intro one other toOne toOther
  have hone : one.Sees other toOther := ⟨rfl, rfl, by decide⟩
  have hother : other.Sees one toOne := ⟨rfl, rfl, by decide⟩
  have hrank : one.rank = other.rank := rfl
  refine ⟨hone, hother, ⟨rfl, rfl, by decide⟩, ⟨rfl, rfl, by decide⟩, fun n room c delay => ?_⟩
  exact ⟨fun hsame hdial => (rank_lt_of_dial hone hsame hdial).ne hrank,
    fun hsame hdial => (rank_lt_of_dial hother hsame hdial).ne hrank.symm⟩

end Node

end SharedClipboard

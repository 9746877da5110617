import SharedClipboard.Config.Basic
import SharedClipboard.Json.Printer
import SharedClipboard.Json.Reader

/-!
# Configuration files

A configuration as JSON: an object, in which missing keys take their defaults and unknown keys are
skipped, or the list of the values in the order of the fields, of which the last ones may be
missing. A configuration is written as an object with all keys.
-/

namespace SharedClipboard.Config

open Json Reader

/-- The fields that were read so far. -/
structure Draft where
  port : Option Nat := none
  serviceType : Option String := none
  dataDir : Option String := none
  maxPayload : Option Nat := none
  handshakeTimeout : Option Nat := none
  decisionTimeout : Option Nat := none
  idleTimeout : Option Nat := none
  pingInterval : Option Nat := none
  historyLimit : Option Nat := none
  outboxCapacity : Option Nat := none
  discovery : Option DiscoveryBackend := none
  autoConnect : Option Bool := none

/-- The draft with defaults for what is missing. -/
def Draft.complete (base : Config) (d : Draft) : Config where
  port := (d.port.map UInt16.ofNat).getD base.port
  serviceType := d.serviceType.getD base.serviceType
  dataDir := d.dataDir.getD base.dataDir
  maxPayload := d.maxPayload.getD base.maxPayload
  handshakeTimeout := d.handshakeTimeout.getD base.handshakeTimeout
  decisionTimeout := d.decisionTimeout.getD base.decisionTimeout
  idleTimeout := d.idleTimeout.getD base.idleTimeout
  pingInterval := d.pingInterval.getD base.pingInterval
  historyLimit := d.historyLimit.getD base.historyLimit
  outboxCapacity := d.outboxCapacity.getD base.outboxCapacity
  discovery := d.discovery.getD base.discovery
  autoConnect := d.autoConnect.getD base.autoConnect

def readBackendName : Reader DiscoveryBackend := do
  let name ← string
  if name = DiscoveryBackend.mdns.text then return .mdns
  else if name = DiscoveryBackend.none.text then return .none
  else fail .wrongShape

/-- A discovery backend: its name, or an object with its name as the only key and nothing under
it. -/
def readBackend : Reader DiscoveryBackend := do
  let b ← start
  if b = 0x22 then readBackendName
  else if b = 0x7B then
    drop
    let backend ← readBackendName
    colon
    null
    endOfObject
    return backend
  else fail .notJson

/-- A count or a time. -/
def readAmount : Reader Nat := natural UInt64.size

def readPort : Reader Nat := natural UInt16.size

def readField (d : Draft) (key : String) : Reader Draft :=
  match key with
  | "port" => do return { d with port := ← once d.port readPort }
  | "service_type" => do return { d with serviceType := ← once d.serviceType string }
  | "data_dir" => do return { d with dataDir := ← once d.dataDir string }
  | "max_payload_size" => do return { d with maxPayload := ← once d.maxPayload readAmount }
  | "handshake_timeout_ms" => do
    return { d with handshakeTimeout := ← once d.handshakeTimeout readAmount }
  | "decision_timeout_ms" => do
    return { d with decisionTimeout := ← once d.decisionTimeout readAmount }
  | "idle_timeout_ms" => do return { d with idleTimeout := ← once d.idleTimeout readAmount }
  | "ping_interval_ms" => do return { d with pingInterval := ← once d.pingInterval readAmount }
  | "history_limit" => do return { d with historyLimit := ← once d.historyLimit readAmount }
  | "outbox_capacity" => do return { d with outboxCapacity := ← once d.outboxCapacity readAmount }
  | "discovery" => do return { d with discovery := ← once d.discovery readBackend }
  | "auto_connect" => do return { d with autoConnect := ← once d.autoConnect truth }
  | _ => do
    skipValue
    return d

def readElements : Reader Draft := do
  let port ← element? true readPort
  let serviceType ← element? false string
  let dataDir ← element? false string
  let maxPayload ← element? false readAmount
  let handshakeTimeout ← element? false readAmount
  let decisionTimeout ← element? false readAmount
  let idleTimeout ← element? false readAmount
  let pingInterval ← element? false readAmount
  let historyLimit ← element? false readAmount
  let outboxCapacity ← element? false readAmount
  let discovery ← element? false readBackend
  let autoConnect ← element? false truth
  return ⟨port, serviceType, dataDir, maxPayload, handshakeTimeout, decisionTimeout, idleTimeout,
    pingInterval, historyLimit, outboxCapacity, discovery, autoConnect⟩

/-- The configuration that a text spells, not validated. -/
def ofJson? (base : Config) (b : Bytes) : Except FormatFault Config := do
  let draft ← (record {} readField pure readElements).run b
  return draft.complete base

def toJson (c : Config) : String :=
  Json.object
    [("port", toString c.port.toNat), ("service_type", quote c.serviceType),
      ("data_dir", quote c.dataDir), ("max_payload_size", toString c.maxPayload),
      ("handshake_timeout_ms", toString c.handshakeTimeout),
      ("decision_timeout_ms", toString c.decisionTimeout),
      ("idle_timeout_ms", toString c.idleTimeout), ("ping_interval_ms", toString c.pingInterval),
      ("history_limit", toString c.historyLimit), ("outbox_capacity", toString c.outboxCapacity),
      ("discovery", quote c.discovery.text), ("auto_connect", toString c.autoConnect)]

end SharedClipboard.Config

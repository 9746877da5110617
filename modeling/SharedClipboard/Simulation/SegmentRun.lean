import SharedClipboard.Discovery.Segment

/-!
# A segment and its providers

A discovery segment in memory, driven step by step. Streams and announcements are numbered in the
order in which they were made.
-/

namespace SharedClipboard.Simulation

open Discovery

structure SegmentRun where
  providers : List Provider
  segment : Segment := {}
  streams : List StreamId := []
  handles : List String := []
  deriving DecidableEq, Repr, Inhabited

namespace SegmentRun

inductive Step where
  | advertise (provider : Nat) (name : String) (port : UInt16)
  | stopAdvertising (handle : Nat)
  | browse (provider : Nat)
  | stopBrowsing (provider : Nat)
  /-- Somebody reports something, several times. -/
  | inject (e : DiscoveryEvent) (times : Nat)
  | dropStream (stream : Nat)
  | drain (stream : Nat)
  deriving DecidableEq, Repr, Inhabited

inductive Told where
  | ok
  | handle (text : String)
  | stream (number : Nat) (known : List DiscoveryEvent)
  | drained (es : List DiscoveryEvent) (ended : Bool)
  /-- Nobody reads the stream any more. -/
  | dropped
  deriving DecidableEq, Repr, Inhabited

def provider (r : SegmentRun) (i : Nat) : Provider := r.providers.getD i default

def on (r : SegmentRun) (segment : Segment) : SegmentRun × Told := ({ r with segment }, .ok)

def step (r : SegmentRun) : Step → SegmentRun × Told
  | .advertise i name port =>
    let (h, segment) := r.segment.advertise (r.provider i) name port
    ({ r with segment, handles := r.handles ++ [h] }, .handle h)
  | .stopAdvertising i => r.on (r.segment.stopAdvertising (r.handles.getD i ""))
  | .browse i =>
    let (id, segment) := r.segment.browse (r.provider i).id
    let (known, segment) := segment.drain id
    ({ r with segment, streams := r.streams ++ [id] }, .stream r.streams.length known)
  | .stopBrowsing i => r.on (r.segment.stopBrowsing (r.provider i).id)
  | .inject e n => r.on ((List.range n).foldl (fun s _ => s.inject e) r.segment)
  | .dropStream i => r.on (r.segment.dropStream (r.streams.getD i 0))
  | .drain i =>
    let id := r.streams.getD i 0
    let stream := (r.segment.streams.get? id).getD default
    let (es, segment) := r.segment.drain id
    ({ r with segment }, if stream.listening then .drained es !stream.registered else .dropped)

end SegmentRun

end SharedClipboard.Simulation

import SharedClipboard.Auth.Challenge
import SharedClipboard.Auth.Handshake
import SharedClipboard.Auth.Registry
import SharedClipboard.Bytes
import SharedClipboard.Clipboard.Monitor
import SharedClipboard.Clipboard.System
import SharedClipboard.CommandLine.Arguments
import SharedClipboard.CommandLine.Discover
import SharedClipboard.CommandLine.Info
import SharedClipboard.CommandLine.Program
import SharedClipboard.CommandLine.Scanner
import SharedClipboard.Config.Basic
import SharedClipboard.Config.Json
import SharedClipboard.Config.Load
import SharedClipboard.Device
import SharedClipboard.Device.Json
import SharedClipboard.Digest.Sha256
import SharedClipboard.Discovery.Browse
import SharedClipboard.Discovery.Multicast
import SharedClipboard.Discovery.Segment
import SharedClipboard.Discovery.Service
import SharedClipboard.Error
import SharedClipboard.FileTree
import SharedClipboard.Group.Basic
import SharedClipboard.Group.Event
import SharedClipboard.Group.History
import SharedClipboard.Group.Outbox
import SharedClipboard.IoError
import SharedClipboard.Json.Printer
import SharedClipboard.Json.Reader
import SharedClipboard.Main
import SharedClipboard.Net.Address
import SharedClipboard.Net.AddressReader
import SharedClipboard.Net.Wire
import SharedClipboard.Node.Basic
import SharedClipboard.Packet.Basic
import SharedClipboard.Packet.Codec
import SharedClipboard.Packet.FrameReader
import SharedClipboard.Packet.Sink
import SharedClipboard.Proofs.Auth.Binding
import SharedClipboard.Proofs.Auth.Handshake
import SharedClipboard.Proofs.Digest.Inputs
import SharedClipboard.Proofs.Discovery.Found
import SharedClipboard.Proofs.Discovery.Streams
import SharedClipboard.Proofs.Group.Announcement
import SharedClipboard.Proofs.Group.Current
import SharedClipboard.Proofs.Group.Delivery
import SharedClipboard.Proofs.Group.Departure
import SharedClipboard.Proofs.Group.History
import SharedClipboard.Proofs.Group.InFlight
import SharedClipboard.Proofs.Group.Listener
import SharedClipboard.Proofs.Group.Log
import SharedClipboard.Proofs.Group.Membership
import SharedClipboard.Proofs.Group.Operation
import SharedClipboard.Proofs.Group.Recipients
import SharedClipboard.Proofs.Group.Reconnect
import SharedClipboard.Proofs.Group.Record
import SharedClipboard.Proofs.Group.Run
import SharedClipboard.Proofs.Group.Strangers
import SharedClipboard.Proofs.Json.RoundTrip
import SharedClipboard.Proofs.Network.Agreement
import SharedClipboard.Proofs.Network.Basic
import SharedClipboard.Proofs.Network.Crowded
import SharedClipboard.Proofs.Network.Flood
import SharedClipboard.Proofs.Network.Play
import SharedClipboard.Proofs.Network.Relay
import SharedClipboard.Proofs.Network.Sound
import SharedClipboard.Proofs.Network.Work
import SharedClipboard.Proofs.Node.Consent
import SharedClipboard.Proofs.Node.Dialing
import SharedClipboard.Proofs.Node.Driven
import SharedClipboard.Proofs.Node.Handle
import SharedClipboard.Proofs.Node.Mirror
import SharedClipboard.Proofs.Node.Payload
import SharedClipboard.Proofs.Node.Rendezvous
import SharedClipboard.Proofs.Node.Reports
import SharedClipboard.Proofs.Node.Shutdown
import SharedClipboard.Proofs.Node.Station
import SharedClipboard.Proofs.Node.Turn
import SharedClipboard.Proofs.Packet.Canonical
import SharedClipboard.Proofs.Packet.CutStream
import SharedClipboard.Proofs.Packet.PrefixFree
import SharedClipboard.Proofs.Packet.RoundTrip
import SharedClipboard.Proofs.Packet.Stream
import SharedClipboard.Proofs.Play
import SharedClipboard.Proofs.Registry.Concurrent
import SharedClipboard.Proofs.Registry.Persistence
import SharedClipboard.Proofs.Service.Echo
import SharedClipboard.Proofs.Session.Admission
import SharedClipboard.Proofs.Session.Deadline
import SharedClipboard.Proofs.Session.Exchange
import SharedClipboard.Proofs.Session.Finality
import SharedClipboard.Proofs.Session.Keepalive
import SharedClipboard.Proofs.Session.Life
import SharedClipboard.Proofs.Session.Mutual
import SharedClipboard.Proofs.Session.Parts
import SharedClipboard.Proofs.Session.Question
import SharedClipboard.Proofs.Session.Silence
import SharedClipboard.Proofs.Session.SmallestBound
import SharedClipboard.Proofs.Session.Undisturbed
import SharedClipboard.Proofs.Session.Wire
import SharedClipboard.Service.Basic
import SharedClipboard.Service.Startup
import SharedClipboard.Session.Basic
import SharedClipboard.Session.Close
import SharedClipboard.Session.Task
import SharedClipboard.Session.Writer
import SharedClipboard.Simulation
import SharedClipboard.Simulation.Answer
import SharedClipboard.Simulation.GroupRun
import SharedClipboard.Simulation.MonitorRun
import SharedClipboard.Simulation.MulticastRun
import SharedClipboard.Simulation.NodeRun
import SharedClipboard.Simulation.Peer
import SharedClipboard.Simulation.RegistryRun
import SharedClipboard.Simulation.SegmentRun
import SharedClipboard.Simulation.ServiceRun
import SharedClipboard.Simulation.SessionRun
import SharedClipboard.Simulation.Surroundings
import SharedClipboard.Stream.Pipe
import SharedClipboard.Table
import SharedClipboard.Terminal.Output
import SharedClipboard.Terminal.Preview
import SharedClipboard.Terminal.Prompt
import SharedClipboard.Terminal.Text
import SharedClipboard.Text.Base64
import SharedClipboard.Text.Blank
import SharedClipboard.Text.Utf8

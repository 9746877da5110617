import SharedClipboard.Simulation.GroupRun
import SharedClipboard.Simulation.MonitorRun
import SharedClipboard.Simulation.MulticastRun
import SharedClipboard.Simulation.NodeRun
import SharedClipboard.Simulation.RegistryRun
import SharedClipboard.Simulation.SegmentRun
import SharedClipboard.Simulation.ServiceRun
import SharedClipboard.Simulation.SessionRun

/-!
# Runs under a made-up clock

Every stateful part of the program, run step by step against surroundings that are values: peers
that read and write as they are told, a clock that moves when it is told, files, a clipboard and a
network segment that fail when they are told to.
-/

import Sdec.Baseline.History
import Sdec.Bevy.EntityMap
import Sdec.Format.AcceptedPacket
import Sdec.Repgraph.Budget
import Sdec.Repgraph.Convergence
import Sdec.Repgraph.Priority
import Sdec.RoundTrip.Acceptance
import Sdec.RoundTrip.ChangeList
import Sdec.RoundTrip.Creates
import Sdec.RoundTrip.Operations
import Sdec.RoundTrip.Reencode
import Sdec.RoundTrip.Scan
import Sdec.RoundTrip.Detection
import Sdec.RoundTrip.Varint
import Sdec.Safety.Limits
import Sdec.Safety.Panics
import Sdec.Safety.Returns
import Sdec.Safety.WellFormed
import Sdec.Schema.HashInput
import Sdec.Session.Delivery
import Sdec.Session.Framing
import Sdec.Session.FullFrame
import Sdec.Bevy.Frames
import Sdec.Bevy.Mirror
import Sdec.Bevy.Ticks
import Sdec.RoundTrip.Selection
import Sdec.Determinism.Input
import Sdec.RoundTrip.Field
import Sdec.Fuzz.Provenance
import Sdec.Session.Exchange
import Sdec.Tools.Counts
import Sdec.BevyDemo.Simulation
import Sdec.RoundTrip.Encodable

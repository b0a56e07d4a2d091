import Spvirit.Calc.Acceptance
import Spvirit.Calc.ArgUsage
import Spvirit.Calc.Correctness
import Spvirit.Client.CacheAnswers
import Spvirit.Client.Packing
import Spvirit.Client.Put
import Spvirit.Codec.Amplification
import Spvirit.Codec.BitsetMeaning
import Spvirit.Codec.GuardedWalk
import Spvirit.Codec.SegmentGrammar
import Spvirit.Gateway.AccessLevels
import Spvirit.Gateway.CachedReads
import Spvirit.Gateway.Isolation
import Spvirit.Gateway.Membership
import Spvirit.Gateway.MonitorCache
import Spvirit.Gateway.PutForward
import Spvirit.Ioc.AlarmState
import Spvirit.Ioc.Egress
import Spvirit.Ioc.Graph
import Spvirit.Ioc.Hysteresis
import Spvirit.Ioc.Periodic
import Spvirit.Ioc.Recursion
import Spvirit.Ioc.ScanList
import Spvirit.Payload.DeltaRefines
import Spvirit.Payload.PvRequestOffset
import Spvirit.Payload.RoundTrip
import Spvirit.Server.Agreement
import Spvirit.Server.ArrayShape
import Spvirit.Server.Bindings
import Spvirit.Server.ConnWriter
import Spvirit.Server.Credit
import Spvirit.Server.Events
import Spvirit.Server.FanoutOrder
import Spvirit.Server.Group
import Spvirit.Server.LinksSettled
import Spvirit.Server.Pump
import Spvirit.Server.Resolver
import Spvirit.Server.Staleness
import Spvirit.Server.Wildcard
import Spvirit.Transport.Resume

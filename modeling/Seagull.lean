import Seagull.DetectionState.Walk
import Seagull.DetectionState.Isolation
import Seagull.DetectionState.Clocks
import Seagull.Analysis.Redelivery
import Seagull.Analysis.Stories
import Seagull.Analysis.Recovery
import Seagull.Agent.Announcing
import Seagull.Ingest.Currency
import Seagull.AgentUpdate.Rollouts
import Seagull.Alerts.Replay
import Seagull.Ruleset.Compaction
import Seagull.Ruleset.Publishing
import Seagull.Agent.Certificates
import Seagull.AdvisoryFeed.Completeness
import Seagull.AdvisoryFeed.Interleaving
import Seagull.DetectionStore.RoundTrip
import Seagull.Alerts.CorrelationKey
import Seagull.Hunt.Literal
import Seagull.DetectionState.Contents
import Seagull.AgentUpdate.Precedence
import Seagull.Detection.Identity
import Seagull.DetectionState.Separation
import Seagull.Broker.Rebuild
import Seagull.Sigma.Threshold
import Seagull.AgentUpdate.Served
import Seagull.AgentPolicy.Signers
import Seagull.Platform.Group
import Seagull.Inventory.Apart

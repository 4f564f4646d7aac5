import Bouine.Header.DirectiveBytes
import Bouine.Header.DirectiveMerge
import Bouine.Server.ServeLoop
import Bouine.Server.Framing
import Bouine.Server.Routing
import Bouine.Server.StaticFile
import Bouine.Cache.QueryPolicy
import Bouine.Cache.Revalidation
import Bouine.Cache.Invalidation
import Bouine.Cache.RequestRewrites
import Bouine.Cache.PlainAnswers
import Bouine.Cache.UrlKey
import Bouine.Cache.VaryAssertion
import Bouine.Cache.BucketPairing
import Bouine.Cache.BucketOrder
import Bouine.Cache.VaryDrift
import Bouine.Cache.IgnoredTarget
import Bouine.Cache.EntityTags
import Bouine.Cache.RangeResponse
import Bouine.Cache.HitHeaders
import Bouine.Cache.FastHead
import Bouine.Cache.SoftPurge
import Bouine.Cache.RefreshLimiter
import Bouine.Storage.BackedEntries
import Bouine.Storage.TieredBans
import Bouine.Storage.TornTail
import Bouine.Storage.SnapshotFile
import Bouine.Storage.SnapshotCopies
import Bouine.Storage.Checkpoint
import Bouine.Storage.WarmBudget
import Bouine.Storage.LogBacklog
import Bouine.Storage.DerivedFields
import Bouine.Storage.Reaper
import Bouine.Storage.BanViews
import Bouine.Cloudflare.Mapper
import Bouine.Cluster.SeqCalls
import Bouine.Cluster.Delivery
import Bouine.Cluster.Batcher
import Bouine.Cluster.Breaker
import Bouine.Origin.Hedge
import Bouine.Origin.Passive

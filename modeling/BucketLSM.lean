import BucketLSM.Bucket.CompactedBuckets
import BucketLSM.Bucket.Remap
import BucketLSM.Compaction.GroupViews
import BucketLSM.Compaction.OverlapDepth
import BucketLSM.Compaction.WriteRanges
import BucketLSM.Filter.Ribbon
import BucketLSM.Flush.BucketBounded
import BucketLSM.Flush.BucketFlush
import BucketLSM.Flush.EpochOrder
import BucketLSM.Lock.Deadlock
import BucketLSM.Lock.Exclusion
import BucketLSM.Log.RoundTrip
import BucketLSM.Log.Termination
import BucketLSM.Log.Recycling
import BucketLSM.Log.TornTail
import BucketLSM.Manifest.EditRoundTrip
import BucketLSM.Manifest.PointInTime
import BucketLSM.Manifest.WalOrder
import BucketLSM.Scan.IteratorTree
import BucketLSM.Scan.Mixed
import BucketLSM.Schedule.CompactionQueue
import BucketLSM.Schedule.FlushQueue
import BucketLSM.Schedule.StallDivisors
import BucketLSM.Table.MetaBlock
import BucketLSM.Table.UniqueId
import BucketLSM.Tiering.SeqnoOrder
import BucketLSM.Transactions.CommitEntry
import BucketLSM.Transactions.PreparedHeap
import BucketLSM.Transactions.SubBatches
import BucketLSM.Write.WriteGroup
import BucketLSM.WriteBatch.MergedView

import Miniredis.Lib.Binary64
import Miniredis.Lib.Binary64Text
import Miniredis.Lib.Numerals
import Miniredis.Lib.HashTable
import Miniredis.Lib.HashIterator
import Miniredis.Lib.Machine
import Miniredis.Lib.Tape
import Miniredis.Lib.Memory
import Miniredis.Lib.FrameLog
import Miniredis.Lib.FileSystem
import Miniredis.Lib.Replacers
import Miniredis.Lib.SkipLane
import Miniredis.Lib.Skiplist
import Miniredis.Lib.SkiplistUpdate
import Miniredis.Lib.SkiplistQuery
import Miniredis.Lib.Links
import Miniredis.Lib.DoublyLinked
import Miniredis.Lib.Stream
import Miniredis.Lib.Wire
import Miniredis.Lib.Block
import Miniredis.Lib.Splits
import Miniredis.Lib.Readers
import Miniredis.Lib.Cursor
import Miniredis.Lib.SipHash
import Miniredis.Model.Util
import Miniredis.Model.Resp
import Miniredis.Model.Dict
import Miniredis.Model.Siphash
import Miniredis.Model.Zset
import Miniredis.Model.Skiplist
import Miniredis.Model.Db
import Miniredis.Model.Strings
import Miniredis.Model.StringBuffers
import Miniredis.Model.PlainChars
import Miniredis.Model.RespBuffer
import Miniredis.Model.Deadlines
import Miniredis.Model.Lists
import Miniredis.Model.ListWalks
import Miniredis.Model.Hashes
import Miniredis.Model.Counters
import Miniredis.Model.Sets
import Miniredis.Model.SetWalks
import Miniredis.Model.SortedSets
import Miniredis.Model.SortedSetWalks
import Miniredis.Model.Rdb
import Miniredis.Model.RdbReader
import Miniredis.Model.Commands
import Miniredis.Model.Server
import Miniredis.Model.Client
import Miniredis.Model.EventLoops
import Miniredis.Model.Pubsub
import Miniredis.Replay.Simulation
import Miniredis.Replay.Writes
import Miniredis.Replay.Table
import Miniredis.Replay.Log
import Miniredis.Dispatch.Replies
import Miniredis.Dispatch.Bodies
import Miniredis.Dispatch.Keyed
import Miniredis.Dispatch.Containers
import Miniredis.Dispatch.Table
import Miniredis.Replay.Reach
import Miniredis.Replay.Sync
import Miniredis.Replay.Pops
import Miniredis.Replay.Refinement
import Miniredis.Replay.Expiry
import Miniredis.Replay.Torn
import Miniredis.Snapshot.Format
import Miniredis.Snapshot.Codec
import Miniredis.Snapshot.Damage
import Miniredis.Snapshot.Bounds
import Miniredis.Snapshot.Restart
import Miniredis.Snapshot.Savers
import Miniredis.Rewrite.Content
import Miniredis.Rewrite.Frames
import Miniredis.Rewrite.Flight
import Miniredis.Rewrite.Background
import Miniredis.Rewrite.Failure
import Miniredis.Rewrite.Foreground
import Miniredis.Rewrite.Scores
import Miniredis.Structures.Siphash
import Miniredis.Structures.DictMap
import Miniredis.Structures.Ranges
import Miniredis.Structures.IntegerTexts
import Miniredis.Structures.GlobPatterns
import Miniredis.Structures.LinkedList
import Miniredis.Structures.ListCalls
import Miniredis.Structures.StringBuffer
import Miniredis.Structures.Skiplist
import Miniredis.Structures.ZsetMap
import Miniredis.Structures.ZsetQueries
import Miniredis.Structures.Sampling
import Miniredis.Network.Loop
import Miniredis.Network.Requests
import Miniredis.Network.RequestGrammar
import Miniredis.Network.Output
import Miniredis.Network.Connections
import Miniredis.Network.LoopRuns
import Miniredis.Network.Recovery
import Miniredis.Network.Pubsub
import Miniredis.Network.PubsubMode
import Miniredis.Dispatch.Grammar
import Miniredis.Dispatch.Effects
import Miniredis.Dispatch.Steady
import Miniredis.Dispatch.Confined
import Miniredis.Dispatch.Expiration
import Miniredis.Dispatch.Deadlines
import Miniredis.Dispatch.ExactDeadlines
import Miniredis.Dispatch.RefusedAdds
import Miniredis.Dispatch.SortedRanges
import Miniredis.Dispatch.ListRanges
import Miniredis.Dispatch.Counters
import Miniredis.Dispatch.FloatFields
import Miniredis.Dispatch.StringEdits
import Miniredis.Dispatch.ExpireCycle
import Miniredis.Dispatch.Cardinality
import Miniredis.Dispatch.KeptDeadlines
import Miniredis.Dispatch.SetPops
import Miniredis.Dispatch.RandomPops
import Miniredis.Dispatch.SetPointers
import Miniredis.Dispatch.SetAlgebra
import Miniredis.Dispatch.KeysListing
import Miniredis.Dispatch.Isolation
import Miniredis.Dispatch.Queues
import Miniredis.Dispatch.Leases

import Inn.Tradindexed.Concurrent
import Inn.Tradindexed.FiniteMap
import Inn.Foundation.Probing
import Inn.Innd.Receive
import Inn.Innd.Nuls
import Inn.Dbz.Contents
import Inn.Wildmat.Expression
import Inn.Foundation.Threaded
import Inn.Tradindexed.Chains
import Inn.Tradindexed.Updates
import Inn.Innd.Stores
import Inn.Innd.Agreement
import Inn.History.Expiry
import Inn.History.Offsets
import Inn.Tradindexed.Expired
import Inn.Tradindexed.Sequences
import Inn.Tradindexed.Renames
import Inn.Innd.StoredSize
import Inn.Innd.Replies
import Inn.Innd.WipRuns
import Inn.Innfeed.Dispatch
import Inn.Innfeed.TapeRuns
import Inn.Innfeed.ArticleRuns
import Inn.Innfeed.ConnectionWrites
import Inn.Innfeed.ConnectionResponses
import Inn.Innfeed.ConnectionRuns
import Inn.Nnrpd.Line
import Inn.Storage.Retrieval
import Inn.Storage.Caf
import Inn.Storage.TocCache
import Inn.Storage.Ov
import Inn.Storage.OvPairs
import Inn.Nnrpd.Newnews
import Inn.Foundation.Walking
import Inn.Foundation.Trees
import Inn.Storage.Names
import Inn.Storage.TimecafWalk
import Inn.Storage.Timehash
import Inn.Storage.TimehashWalk
import Inn.Storage.FileStores
import Inn.Storage.CafStore
import Inn.Innfeed.EndPoints
import Inn.Innfeed.EndPointRuns
import Inn.Foundation.Bitmap
import Inn.Buffindexed.Blocks
import Inn.Buffindexed.BlockRuns
import Inn.Storage.GroupExpiry
import Inn.Storage.GroupVerdicts
import Inn.Nnrpd.Post
import Inn.Nnrpd.Moderation
import Inn.Nnrpd.Range
import Inn.Nnrpd.Perm
import Inn.Foundation.Sorting
import Inn.Buffindexed.Overview
import Inn.Buffindexed.Chains
import Inn.Buffindexed.Added
import Inn.Buffindexed.Retrieved
import Inn.Buffindexed.Expire
import Inn.Buffindexed.Expired
import Inn.Foundation.Caching
import Inn.History.Cache
import Inn.Innd.Limits
import Inn.Innd.Subscriptions
import Inn.Foundation.Linked
import Inn.Innd.Sites
import Inn.Innd.SiteList
import Inn.Innd.SiteData
import Inn.Buffindexed.Groups
import Inn.Buffindexed.GroupSlots
import Inn.Dbz.Modes
import Inn.Foundation.Terminated
import Inn.Storage.OverdataRoundTrip
import Inn.Innd.Active
import Inn.Innd.ActiveTables
import Inn.Innd.ActiveRuns
import Inn.Foundation.Careful
import Inn.Confparse.Reader
import Inn.Confparse.Text
import Inn.Confparse.Window
import Inn.Confparse.Tokens
import Inn.Confparse.Parser
import Inn.Confparse.Splitting
import Inn.Confparse.Groups
import Inn.Confparse.Quoting
import Inn.Lib.Native
import Inn.Storage.MatchGroups
import Inn.Lib.Headers
import Inn.Lib.MessageId
import Inn.Foundation.Tombstones
import Inn.Lib.HashTable
import Inn.Lib.HashTableProbing
import Inn.Lib.HashTableCalls
import Inn.Lib.DateZones
import Inn.Lib.Qio
import Inn.Lib.WireFields
import Inn.Foundation.Allocated
import Inn.Expire.Classes
import Inn.Foundation.Ended
import Inn.Foundation.Stretches
import Inn.Innfeed.BufferList
import Inn.Innfeed.Prepare
import Inn.Innfeed.Transfers
import Inn.Lib.CleanFrom
import Inn.Lib.Moderators
import Inn.Lib.Nodes
import Inn.Lib.SendArticle
import Inn.Nnrpd.Group
import Inn.Nnrpd.Tokens
import Inn.Tradindexed.GroupPath
import Inn.Lib.Argify
import Inn.Buffindexed.Gettoken
import Inn.Innd.Remote
import Inn.Nnrpd.RateLimit
import Inn.Storage.CnfsRuns
import Inn.Nnrpd.PostRec
import Inn.Innfeed.TapeOutput

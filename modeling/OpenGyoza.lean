import OpenGyoza.Locks
import OpenGyoza.NodeNames
import OpenGyoza.KvLists
import OpenGyoza.AuthMethods
import OpenGyoza.ResolverFreshness
import OpenGyoza.RegisterVetting
import OpenGyoza.TxnVetting
import OpenGyoza.KeyTrees
import OpenGyoza.KeyListings
import OpenGyoza.ConnectVersions
import OpenGyoza.IntentionMatch
import OpenGyoza.ReaderGaps
import OpenGyoza.ReplicationDiffs
import OpenGyoza.LockDelays
import OpenGyoza.TombstoneGC
import OpenGyoza.ContentHashes
import OpenGyoza.SharedFetches
import OpenGyoza.Semaphore
import OpenGyoza.StateSyncer
import OpenGyoza.QueryTemplates
import OpenGyoza.QueryExecution
import OpenGyoza.RootWatches
import OpenGyoza.EntryKeys
import OpenGyoza.AliasChecks
import OpenGyoza.FilterEntries

import AuctionServer.Support.Machine
import AuctionServer.Support.Buckets
import AuctionServer.Support.Collection
import AuctionServer.Core.Json
import AuctionServer.Store.Bson
import AuctionServer.Store.Database
import AuctionServer.House.Criteria
import AuctionServer.House.CacheKey
import AuctionServer.House.Indices
import AuctionServer.House.Listings
import AuctionServer.House.Search
import AuctionServer.House.Server
import AuctionServer.Store.Effects
import AuctionServer.House.Maintenance
import AuctionServer.Support.Registry
import AuctionServer.House.Moves
import AuctionServer.House.Sweep
import AuctionServer.House.Loading
import AuctionServer.House.Filing
import AuctionServer.House.Selection
import AuctionServer.House.Runs
import AuctionServer.House.FullScan
import AuctionServer.House.Book
import AuctionServer.House.Disposal
import AuctionServer.House.Identifiers
import AuctionServer.House.Failures
import AuctionServer.House.StaleEntries
import AuctionServer.Support.Memo
import AuctionServer.House.SharedEntries
import AuctionServer.Store.Amounts
import AuctionServer.House.Ledger
import AuctionServer.Session.Framing
import AuctionServer.House.PriceScan
import AuctionServer.House.Sales
import AuctionServer.Store.Codec
import AuctionServer.House.Representation
import AuctionServer.House.Rebuild
import AuctionServer.House.Upkeep
import AuctionServer.House.Exactness
import AuctionServer.House.Lifecycle
import AuctionServer.House.Deadlines
import AuctionServer.House.Recovery
import AuctionServer.Session.Stream
import AuctionServer.Support.Program
import AuctionServer.Session.Writer
import AuctionServer.Session.Messages
import AuctionServer.Session.Replies
import AuctionServer.House.CacheBlind
import AuctionServer.Session.Deeds
import AuctionServer.Session.Authentication
import AuctionServer.Session.Answers
import AuctionServer.Store.ItemCache
import AuctionServer.Store.ItemCoherence
import AuctionServer.House.IndexInverse
import AuctionServer.Support.Pages
import AuctionServer.House.Paging
import AuctionServer.Session.SearchPages
import AuctionServer.Session.CachedReplies
import AuctionServer.Session.FaceValue
import AuctionServer.Session.UnsetReplies
import AuctionServer.House.Overflow
import AuctionServer.House.Occupied
import AuctionServer.House.OpenListings
import AuctionServer.House.RemovalKeys
import AuctionServer.House.ExactSweep
import AuctionServer.House.UnsetFields
import AuctionServer.House.UnsetOperations
import AuctionServer.House.UnsetSearches
import AuctionServer.Support.Threads
import AuctionServer.Store.ConcurrentBalances
import AuctionServer.Store.ConcurrentReads
import AuctionServer.House.History
import AuctionServer.House.Snapshots
import AuctionServer.Session.Delivery
import AuctionServer.Session.Progress
import AuctionServer.Session.LoneUser
import AuctionServer.House.Concurrency
import AuctionServer.House.Release
import AuctionServer.Session.RemoteCalls
import AuctionServer.House.Queries

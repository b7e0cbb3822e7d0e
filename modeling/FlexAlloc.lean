import FlexAlloc.Basic
import FlexAlloc.Bits
import FlexAlloc.Core.BitWord
import FlexAlloc.Core.DList
import FlexAlloc.Core.Ring
import FlexAlloc.Freelist
import FlexAlloc.HashMap
import FlexAlloc.HashPlacement
import FlexAlloc.Geometry
import FlexAlloc.Layout
import FlexAlloc.Capacity
import FlexAlloc.Format
import FlexAlloc.Core.Run
import FlexAlloc.State
import FlexAlloc.SlabCache
import FlexAlloc.SlabList
import FlexAlloc.Slab
import FlexAlloc.ListOps
import FlexAlloc.Objects
import FlexAlloc.Pool
import FlexAlloc.System
import FlexAlloc.Directory
import FlexAlloc.Chains
import FlexAlloc.Steady
import FlexAlloc.Ownership
import FlexAlloc.Partition
import FlexAlloc.PoolMap
import FlexAlloc.CacheCoherence
import FlexAlloc.MdCache
import FlexAlloc.Core.Image
import FlexAlloc.Sync
import FlexAlloc.FreeSlabs
import FlexAlloc.Message
import FlexAlloc.Daemon
import FlexAlloc.FreelistRuns
import FlexAlloc.FreeQueue
import FlexAlloc.Refcounts
import FlexAlloc.Inspector
import FlexAlloc.ObjectData
import FlexAlloc.Open
import FlexAlloc.Effects
import FlexAlloc.Striping
import FlexAlloc.Reopen
import FlexAlloc.Zones
import FlexAlloc.Core.Cut
import FlexAlloc.Mdts
import FlexAlloc.FreelistSearch
import FlexAlloc.ObjectRange
import FlexAlloc.UnalignedWrite
import FlexAlloc.Core.Strides
import FlexAlloc.Core.Interleave
import FlexAlloc.StripeLayout
import FlexAlloc.StripedTransfer
import FlexAlloc.StripedErrors
import FlexAlloc.StripeAddress
import FlexAlloc.Contract
import FlexAlloc.Links
import FlexAlloc.Overlap
import FlexAlloc.Sessions
import FlexAlloc.FailedDestroy
import FlexAlloc.FreeCounters
import FlexAlloc.InspectorLoop
import FlexAlloc.Placement
import FlexAlloc.Handles
import FlexAlloc.PoolCreate
import FlexAlloc.Storable
import FlexAlloc.Preservation
import FlexAlloc.Receive
import FlexAlloc.InitInfo
import FlexAlloc.DaemonLoop
import FlexAlloc.Clients
import FlexAlloc.Exclusive
import FlexAlloc.Dispatched
import FlexAlloc.Mkfs
import FlexAlloc.Crash
import FlexAlloc.Core.Cells
import FlexAlloc.TornWrites
import FlexAlloc.Store
import FlexAlloc.Survival
import FlexAlloc.Transport
import FlexAlloc.Roots

import RnLeveldb.Lib.Machine
import RnLeveldb.Lib.SlotTable
import RnLeveldb.Lib.SortedMap
import RnLeveldb.Lib.Cursor
import RnLeveldb.Lib.Versions
import RnLeveldb.Lib.Zipper
import RnLeveldb.Js
import RnLeveldb.Utf8
import RnLeveldb.ToIndex
import RnLeveldb.LevelDb
import RnLeveldb.HostFunctions
import RnLeveldb.ReadFile
import RnLeveldb.Wrappers
import RnLeveldb.Effects
import RnLeveldb.Invariant
import RnLeveldb.OpenRefs
import RnLeveldb.UseAfterClose
import RnLeveldb.Reload
import RnLeveldb.IteratorLifetime
import RnLeveldb.Teardown
import RnLeveldb.WriteBatches
import RnLeveldb.Merge
import RnLeveldb.Durability
import RnLeveldb.MergeModes
import RnLeveldb.Scan
import RnLeveldb.Directories
import RnLeveldb.Fake.Search
import RnLeveldb.Fake.Store
import RnLeveldb.Fake.Refinement
import RnLeveldb.Fake.Iterator
import RnLeveldb.Fake.App
import RnLeveldb.Fake.Cursor
import RnLeveldb.Fake.Snapshot
import RnLeveldb.Fake.Ownership
import RnLeveldb.Fake.CompareKey
import RnLeveldb.Fake.Closing
import RnLeveldb.Fake.Strings
import RnLeveldb.Engine.Coding
import RnLeveldb.Engine.Batch
import RnLeveldb.Engine.Crc32c
import RnLeveldb.Engine.Log
import RnLeveldb.Engine.LogReading
import RnLeveldb.Engine.InternalKey
import RnLeveldb.Engine.MemTable
import RnLeveldb.Engine.WriteQueue
import RnLeveldb.Engine.Recovery
import RnLeveldb.Engine.CrashSafety
import RnLeveldb.Engine.DbIter
import RnLeveldb.Engine.Merger
import RnLeveldb.Engine.Compaction
import RnLeveldb.Engine.NewIterator
import RnLeveldb.Engine.Block
import RnLeveldb.Engine.SkipList
import RnLeveldb.Engine.Bloom

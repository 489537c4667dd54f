import TinySql.Lib.ExceptList
import TinySql.Lib.GoInt
import TinySql.Lib.Segments
import TinySql.Expression.BuiltinInt
import TinySql.Expression.BuiltinIntVec
import TinySql.Expression.VecAgreement
import TinySql.Autoid.Allocator
import TinySql.Autoid.Spec
import TinySql.Autoid.System
import TinySql.Autoid.Runs
import TinySql.Mocktikv.Store
import TinySql.Mocktikv.KeyInv
import TinySql.Tikv.TwoPhaseCommit
import TinySql.Lib.IntervalSweep
import TinySql.Lib.GoUtf8
import TinySql.Lib.Lex
import TinySql.Lib.Digits
import TinySql.Lib.GoSlice
import TinySql.Lib.GoVarint
import TinySql.Lib.Float64Bits
import TinySql.Types.Datum
import TinySql.Codec.Number
import TinySql.Codec.Bytes
import TinySql.Codec.Key
import TinySql.Codec.GroupKey
import TinySql.Ranger.Points
import TinySql.Ranger.Ranges
import TinySql.Lib.Bitmap
import TinySql.Chunk.Column
import TinySql.Codec.Decode
import TinySql.Mocktikv.Retry
import TinySql.Mocktikv.MvccKey
import TinySql.Rowcodec.Common
import TinySql.Rowcodec.Row
import TinySql.Rowcodec.Encoder
import TinySql.Rowcodec.Decoder
import TinySql.Rowcodec.Reformat
import TinySql.Rowcodec.RoundTrip
import TinySql.Mocktikv.Iterator
import TinySql.Mocktikv.Scan
import TinySql.Mocktikv.Gc
import TinySql.Lib.Slices
import TinySql.Chunk.Codec
import TinySql.Chunk.Decoder
import TinySql.Tikv.Scanner
import TinySql.Expression.Overflow
import TinySql.Expression.Filter
import TinySql.Expression.Scalar
import TinySql.Expression.Rewrite
import TinySql.Expression.ConstantPropagation
import TinySql.Planner.OuterJoin
import TinySql.Expression.Aggregation
import TinySql.Planner.Logical
import TinySql.Planner.AggregationElimination
import TinySql.Planner.JoinElimination
import TinySql.Types.Convert
import TinySql.Tikv.Coprocessor
import TinySql.Structure.TxStructure
import TinySql.Lib.CountSweep
import TinySql.Ranger.Merge
import TinySql.Ranger.InList
import TinySql.Ranger.Build
import TinySql.Kv.Key
import TinySql.Lib.SortedAssoc
import TinySql.Kv.UnionIter
import TinySql.Distsql.RequestBuilder
import TinySql.Statistics.Scalar
import TinySql.Statistics.Histogram
import TinySql.Statistics.Builder
import TinySql.Structure.Refinement
import TinySql.Types.Decimal
import TinySql.Lib.KeyedView
import TinySql.Lib.UpTo
import TinySql.Meta.Meta
import TinySql.Meta.Catalog
import TinySql.Meta.Stores
import TinySql.Meta.Refinement
import TinySql.Meta.Invariants
import TinySql.Meta.Reads
import TinySql.Meta.System

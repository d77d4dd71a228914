import Ferrisetw2.Callback
import Ferrisetw2.EventRecord
import Ferrisetw2.Lib.Accumulators
import Ferrisetw2.Lib.Buffers
import Ferrisetw2.Lib.Calendar
import Ferrisetw2.Lib.CallMachine
import Ferrisetw2.Lib.Calls
import Ferrisetw2.Lib.Checked
import Ferrisetw2.Lib.Circular
import Ferrisetw2.Lib.Descent
import Ferrisetw2.Lib.Ensures
import Ferrisetw2.Lib.HashMap
import Ferrisetw2.Lib.Interleaving
import Ferrisetw2.Lib.Locks
import Ferrisetw2.Lib.Loops
import Ferrisetw2.Lib.Plans
import Ferrisetw2.Lib.Slice
import Ferrisetw2.Lib.Text
import Ferrisetw2.Native.Context
import Ferrisetw2.Native.EventName
import Ferrisetw2.Native.Evntrace
import Ferrisetw2.Native.ExtendedData
import Ferrisetw2.Native.ExtendedItems
import Ferrisetw2.Native.FixedSize
import Ferrisetw2.Native.Flatten
import Ferrisetw2.Native.Guids
import Ferrisetw2.Native.KernelSettings
import Ferrisetw2.Native.Pla
import Ferrisetw2.Native.QueryArray
import Ferrisetw2.Native.Tdh
import Ferrisetw2.Native.TdhTypes
import Ferrisetw2.Native.Time
import Ferrisetw2.Native.Timestamps
import Ferrisetw2.Parser.Decode
import Ferrisetw2.Parser.ExactSize
import Ferrisetw2.Parser.Follow
import Ferrisetw2.Parser.History
import Ferrisetw2.Parser.Layout
import Ferrisetw2.Parser.Lookup
import Ferrisetw2.Parser.Namesakes
import Ferrisetw2.Parser.Size
import Ferrisetw2.Parser.Strings
import Ferrisetw2.Parser.Truncation
import Ferrisetw2.Parser.Walk
import Ferrisetw2.Provider.EventFilter
import Ferrisetw2.Provider.FilterLayout
import Ferrisetw2.Query
import Ferrisetw2.Schema.Cache
import Ferrisetw2.Schema.Coherence
import Ferrisetw2.Schema.Threads
import Ferrisetw2.Ser.Arrays
import Ferrisetw2.Ser.Asked
import Ferrisetw2.Ser.ByName
import Ferrisetw2.Ser.ContentSized
import Ferrisetw2.Ser.Handler
import Ferrisetw2.Ser.Lenient
import Ferrisetw2.Ser.Member
import Ferrisetw2.Ser.MemberWalk
import Ferrisetw2.Ser.Record
import Ferrisetw2.Ser.Rewalk
import Ferrisetw2.Ser.SelfSized
import Ferrisetw2.Ser.Serialize
import Ferrisetw2.Ser.Strict
import Ferrisetw2.Ser.StructArray
import Ferrisetw2.Ser.Typed
import Ferrisetw2.Ser.Values
import Ferrisetw2.Trace.Counters
import Ferrisetw2.Trace.Handles
import Ferrisetw2.Trace.Lifetime
import Ferrisetw2.Trace.LockOrder
import Ferrisetw2.Trace.Mutations
import Ferrisetw2.Trace.Names
import Ferrisetw2.Trace.Plan
import Ferrisetw2.Trace.Refusal
import Ferrisetw2.Trace.Registry
import Ferrisetw2.Trace.Settings
import Ferrisetw2.Trace.Start

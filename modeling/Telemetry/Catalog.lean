import Telemetry.Heap
import Telemetry.Metric.Basic
/-!
# The catalogue of measurements

What an agent measures by itself, under which names. A sampler is one source of measurements: the
process with its heap, a random number, and the host, which is optional.

## Main definitions

* `Telemetry.Catalog`: the names.
* `Telemetry.Catalog.heapGauges`: the counters of the heap as gauges.
* `Telemetry.Catalog.process`, `Telemetry.Catalog.random`, `Telemetry.Catalog.host`: the samples
  of each source, made from what it measured.
-/

namespace Telemetry.Catalog

/-- The counter of polls that goes with every report. -/
def pollCount : String := "PollCount"

/-- The gauge of a random number between zero and one. -/
def randomValue : String := "RandomValue"

/-- The gauges of the heap. -/
def heapNames : List String :=
  ["Alloc", "HeapAlloc", "PeakAlloc", "TotalAlloc", "TotalFreed", "Mallocs", "Frees", "Reallocs",
    "ZeroedAllocs", "HeapObjects", "LargestAlloc", "SmallAllocs", "MediumAllocs", "LargeAllocs"]

/-- The gauges of the process. -/
def processNames : List String :=
  ["Sys", "VirtualMemory", "ProcessCPU", "DiskReadBytes", "DiskWrittenBytes",
    "TotalDiskReadBytes", "TotalDiskWrittenBytes", "Uptime", "StartTime", "Threads", "NumCPU"]

/-- The gauges of the host. There is one more for each of its processors. -/
def hostNames : List String := ["TotalMemory", "FreeMemory"]

/-- What the name of a processor's gauge begins with. -/
def processorName : String := "CPUutilization"

/-- How many metrics a report has at least. -/
def baselineLength : Nat := heapNames.length + processNames.length + 2

/-- The counters of the heap in the order of their names. -/
def heapValues (t : Heap.Tally) : List UInt64 :=
  [t.live, t.heap, t.peak, t.allocated, t.freed, t.mallocs, t.frees, t.reallocs, t.zeroed,
    t.objects, t.largest, t.small, t.medium, t.large]

/-- Gauges of given names. -/
def gauges (names : List String) (levels : List Binary64) : List Metric :=
  names.zipWith (fun name level => ⟨name, .gauge level⟩) levels

/-- The counters of the heap as gauges. -/
def heapGauges (t : Heap.Tally) : List Metric :=
  gauges heapNames ((heapValues t).map fun n => Binary64.ofNat n.toNat)

/-- The sources of measurements. -/
inductive Source where
  | process
  | random
  | host
  deriving DecidableEq, Repr

/-- The name of a source. -/
def Source.name : Source → String
  | .process => "runtime"
  | .random => "random"
  | .host => "host"

/-- The samples of the process: its heap and eleven measurements. -/
def process (t : Heap.Tally) (levels : List Binary64) : List Metric :=
  heapGauges t ++ gauges processNames levels

/-- The sample of the random number. -/
def random (level : Binary64) : List Metric := gauges [randomValue] [level]

/-- The name of the gauge of a processor. -/
def processorGauge (i : Nat) : String := processorName ++ toString i

/-- The samples of the host: its memory and the load of each processor. -/
def host (total free : Binary64) (loads : List Binary64) : List Metric :=
  gauges hostNames [total, free] ++ gauges ((List.range loads.length).map processorGauge) loads

end Telemetry.Catalog

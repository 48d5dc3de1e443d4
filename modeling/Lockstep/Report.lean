import Lockstep.Decimal.Layout
import Lockstep.Duration.Layout
import Lockstep.Json.Read
import Lockstep.Json.Render
import Lockstep.Metrics.Tally
import Lockstep.Text.Quoted

/-!
# Reports

A report derives from the totals of every operation what a reader wants to know: how many succeeded
and how long they took.  Tallies and reports can be written as JSON and read back, and a report can
be printed as a list.

* `Report.ofTally?` derives a report;
* `Tally.toJson`, `Tally.read` and `Report.toJson`, `Report.read` write and read JSON;
* `Report.listing` is the printed list.
-/

namespace Lockstep

/-- What a report says about one operation. -/
structure Figures where
  count : Nat
  /-- The share of successes, in percent. -/
  successRatio : Float
  average : Duration
  max : Duration
  documents : Nat
  bytes : Nat

/-- What is reported about each operation. -/
abbrev Report := SortedMap String Figures

/-! ### Deriving a report -/

/-- The report on one operation; nothing ran when nothing is counted. -/
def Figures.ofStats? (s : Stats) : Except Duration.SecondsFault Figures := do
  if s.count = 0 then
    return ⟨0, 0.0, .zero, s.max, s.documents, s.bytes⟩
  else
    let count := Decimal.ofWord s.count
    let average ← s.total.divide? count
    return ⟨s.count, Decimal.ofWord s.successes / count * 100.0, average, s.max, s.documents,
      s.bytes⟩

/-- The report on all operations. -/
def Report.ofTally? (t : Tally) : Except Duration.SecondsFault Report :=
  t.entries.foldlM (fun (r : Report) e => do
    return r.insert e.1 (← Figures.ofStats? e.2)) SortedMap.empty

/-! ### JSON -/

/-- A duration in JSON. -/
def Duration.toJson (d : Duration) : Json :=
  .object [("secs", .word d.secs), ("nanos", .word d.subsecNanos)]

/-- The totals of an operation in JSON. -/
def Stats.toJson (s : Stats) : Json :=
  .object [("count", .word s.count), ("successes", .word s.successes),
    ("failures", .word s.failures), ("total_duration", s.total.toJson),
    ("max_duration", s.max.toJson), ("documents", .word s.documents), ("bytes", .word s.bytes),
    ("iterations", .word s.iterations)]

/-- A tally in JSON. -/
def Tally.toJson (t : Tally) : Json :=
  .object [("operations", .object (t.entries.map fun e => (e.1, e.2.toJson)))]

/-- The report on an operation in JSON. -/
def Figures.toJson (r : Figures) : Json :=
  .object [("count", .word r.count), ("success_ratio", .float r.successRatio),
    ("average_latency", r.average.toJson), ("max_latency", r.max.toJson),
    ("documents", .word r.documents), ("bytes", .word r.bytes)]

/-- A report in JSON. -/
def Report.toJson (r : Report) : Json :=
  .object [("operations", .object (r.entries.map fun e => (e.1, e.2.toJson)))]

open Json.Read in
/-- The fields of the totals of an operation. -/
def Stats.fields : List (RecordField Stats) :=
  [⟨"count", fun s => return { s with count := ← word }⟩,
    ⟨"successes", fun s => return { s with successes := ← word }⟩,
    ⟨"failures", fun s => return { s with failures := ← word }⟩,
    ⟨"total_duration", fun s => return { s with total := ← duration }⟩,
    ⟨"max_duration", fun s => return { s with max := ← duration }⟩,
    ⟨"documents", fun s => return { s with documents := ← word }⟩,
    ⟨"bytes", fun s => return { s with bytes := ← word }⟩,
    ⟨"iterations", fun s => return { s with iterations := ← word }⟩]

open Json.Read in
/-- The fields of the report on an operation. -/
def Figures.fields : List (RecordField Figures) :=
  [⟨"count", fun r => return { r with count := ← word }⟩,
    ⟨"success_ratio", fun r => return { r with successRatio := ← float }⟩,
    ⟨"average_latency", fun r => return { r with average := ← duration }⟩,
    ⟨"max_latency", fun r => return { r with max := ← duration }⟩,
    ⟨"documents", fun r => return { r with documents := ← word }⟩,
    ⟨"bytes", fun r => return { r with bytes := ← word }⟩]

open Json.Read in
/-- Reads a map from names to data that is the only field of a structure. -/
def readOperations {α : Type} (fields : List (RecordField α)) (start : α) (text : List Char) :
    Except Json.Fault (SortedMap String α) :=
  let entry (key : String) (m : SortedMap String α) : Json.Read (SortedMap String α) := do
    colon
    return m.insert key (← record fields false start some)
  let operations : RecordField (SortedMap String α) :=
    ⟨"operations", fun _ => object entry SortedMap.empty⟩
  whole (record [operations] false SortedMap.empty some) text

/-- Reads a tally. -/
def Tally.read (text : List Char) : Except Json.Fault Tally :=
  readOperations Stats.fields .zero text

/-- Reads a report. -/
def Report.read (text : List Char) : Except Json.Fault Report :=
  readOperations Figures.fields ⟨0, 0.0, .zero, .zero, 0, 0⟩ text

/-! ### The printed list -/

/-- A line of a printed list at some depth. -/
def listingLine (depth : Nat) (text : List Char) : List Char :=
  List.replicate (4 * depth) ' ' ++ text ++ ['\n']

/-- A field of a printed structure at some depth. -/
def listingField (depth : Nat) (name : String) (value : List Char) : List Char :=
  listingLine depth (name.toList ++ ": ".toList ++ value ++ [','])

/-- The report on one operation in a printed list. -/
def Figures.listing (key : String) (r : Figures) : List Char :=
  listingLine 2 (Text.quoted key.toList ++ ": OperationReport \x7b".toList)
    ++ listingField 3 "count" (Nat.toDigits 10 r.count)
    ++ listingField 3 "success_ratio" (Decimal.Layout.listing.render r.successRatio)
    ++ listingField 3 "average_latency" r.average.listing
    ++ listingField 3 "max_latency" r.max.listing
    ++ listingField 3 "documents" (Nat.toDigits 10 r.documents)
    ++ listingField 3 "bytes" (Nat.toDigits 10 r.bytes)
    ++ listingLine 2 "\x7d,".toList

/-- The printed list of a report. -/
def Report.listing (r : Report) : List Char :=
  let operations :=
    if r.entries.isEmpty then listingLine 1 "operations: \x7b\x7d,".toList
    else
      listingLine 1 "operations: \x7b".toList
        ++ r.entries.flatMap (fun e => e.2.listing e.1)
        ++ listingLine 1 "\x7d,".toList
  listingLine 0 "RunReport \x7b".toList ++ operations ++ listingLine 0 "\x7d".toList

end Lockstep

import ExprCompiler.Table

/-!
Counts of what the service has done, each under a name and labels.
-/

namespace ExprCompiler

structure Metrics where
  compilations : Table Nat := []
  requests : Table Nat := []
  deriving DecidableEq, Repr

namespace Metrics

def increment (labels : Bytes) (counts : Table Nat) : Table Nat :=
  counts.set labels ((counts.find? labels).getD 0 + 1)

def labelText (name : String) (value : Bytes) : Bytes :=
  utf8 name ++ utf8 "=\"" ++ value ++ utf8 "\""

def labelSet (labels : List (String × Bytes)) : Bytes :=
  [0x7b] ++ Text.join (utf8 ",") (labels.map fun label => labelText label.1 label.2) ++ [0x7d]

def countCompilation (metrics : Metrics) (stage result : Bytes) : Metrics :=
  { metrics with
    compilations :=
      increment (labelSet [("result", result), ("stage", stage)]) metrics.compilations }

def countRequest (metrics : Metrics) (method path : Bytes) (status : Nat) : Metrics :=
  { metrics with
    requests :=
      increment (labelSet [("method", method), ("path", path), ("status", Text.decimal status)])
        metrics.requests }

def sample (name : String) (labels : Bytes) (count : Nat) : Bytes :=
  utf8 name ++ labels ++ utf8 " " ++ Text.decimal count

def samples (name : String) (counts : Table Nat) : List Bytes :=
  counts.map fun entry => sample name entry.1 entry.2

def lines (metrics : Metrics) : List Bytes :=
  Text.sortedSet
    (samples "exprc_compilations_total" metrics.compilations ++
      [sample "exprc_compile_duration_seconds_count" []
        ((metrics.compilations.map Prod.snd).foldl (· + ·) 0)] ++
      samples "http_request_duration_seconds_count" metrics.requests ++
      samples "http_requests_total" metrics.requests)

def text (metrics : Metrics) : Bytes := metrics.lines.flatMap fun line => line ++ [10]

end Metrics
end ExprCompiler

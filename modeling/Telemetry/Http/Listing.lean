import Telemetry.Metric.Basic
/-!
# The page of all metrics

A page lists every metric with its kind and its value. Names may be any text, so what has a
meaning in HTML is escaped.

## Main definitions

* `Telemetry.Http.escape`: a text as it stands on a page.
* `Telemetry.Http.listing`: the page of a list of metrics.
-/

namespace Telemetry.Http

/-- A character as it stands on a page. -/
def escapeChar (c : Char) : List Char :=
  if c = '&' then "&amp;".toList
  else if c = '<' then "&lt;".toList
  else if c = '>' then "&gt;".toList
  else if c = '"' then "&quot;".toList
  else if c = '\'' then "&#39;".toList
  else [c]

/-- A text as it stands on a page. -/
def escape (s : String) : String := String.ofList (s.toList.flatMap escapeChar)

/-- What comes before the items of the page. -/
def listingHead : String :=
  "<!DOCTYPE html>\n<html><head><title>Metrics</title></head><body>\n<ul>\n"

/-- What comes behind the items of the page. -/
def listingTail : String := "</ul>\n</body></html>\n"

/-- The item of a metric. -/
def listingItem (m : Metric) : String :=
  "<li>" ++ escape m.id ++ " (" ++ m.kind.word ++ "): " ++ m.value.display ++ "</li>\n"

/-- The page of a list of metrics. -/
def listing (ms : List Metric) : String :=
  listingHead ++ String.join (ms.map listingItem) ++ listingTail

end Telemetry.Http

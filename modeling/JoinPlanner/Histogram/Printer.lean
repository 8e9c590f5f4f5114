import JoinPlanner.Histogram.Textual

/-!
# JoinPlanner — text of histograms

* `Histogram.toText`   — a line for each bucket, with its edges and a bar.
* `Histogram.describe`, `TextHistogram.describe` — short descriptions.
-/

namespace JoinPlanner

namespace Histogram

/-- The length that no bar exceeds. -/
def longestBar : Nat := 50

/-- Widths and edges have two places. -/
def shown (x : Binary64) : String := x.toFixed 2

/-- The line of a bucket. -/
def bucketLine (h : Histogram Binary64) (bucket count : Nat) : Except NumberError String := do
  let lower ← h.edge bucket
  let upper ← h.edge (bucket + 1)
  let bar := String.ofList (List.replicate (min count longestBar) '*')
  let edges := "[" ++ shown lower ++ ", " ++ shown upper ++ ")"
  return s!"Bucket {bucket} " ++ edges ++ ": " ++ bar ++ s!" ({count})"

/-- The domain and the buckets, a line each. -/
def toText (h : Histogram Binary64) : Outcome String := do
  let heading := s!"Buckets: {h.bucketCount}, Min: {h.low}, Max: {h.high}, Bucket width: "
    ++ shown h.width
  let lines ← h.counts.toList.zipIdx.mapM fun (count, bucket) => h.bucketLine bucket count
  return "\n".intercalate (heading :: lines)

/-- A short description. -/
def describe (h : Histogram Binary64) : String :=
  s!"Histogram(buckets={h.bucketCount}, min_value={h.low}, max_value={h.high}, total={h.total})"

end Histogram

/-- A short description. -/
def TextHistogram.describe (h : TextHistogram Binary64) : String :=
  s!"OrdinalHistogram(buckets={h.inner.bucketCount}, total={h.inner.total})"

end JoinPlanner

import Dashboard.Scrollback
import Dashboard.TimeWindow

/-!
# Sample Stores

What a line plot needs of the store of its samples. A scrollback keeps a number of samples,
a time window those of a period.
-/

namespace Dashboard

/-- A store of samples. -/
class SampleStore (σ : Type) where
  push : σ → Sample → σ
  /-- The samples, oldest first. -/
  samples : σ → List Sample
  clear : σ → σ

instance : SampleStore (Scrollback Sample) where
  push := Scrollback.push
  samples := Scrollback.chronological
  clear := Scrollback.reset

instance : SampleStore TimeWindow where
  push := TimeWindow.push
  samples := TimeWindow.samples
  clear := TimeWindow.clear

end Dashboard

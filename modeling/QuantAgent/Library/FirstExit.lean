import Mathlib.Topology.Instances.Real.Lemmas

/-!
# The first exit of a path from a band

A continuous path that starts strictly between two levels and comes to one of them, or over it,
is on a level at the moment it first does.
-/

namespace QuantAgent.Library.FirstExit

variable {path : ℝ → ℝ} {start finish lower upper : ℝ}

structure Exits (path : ℝ → ℝ) (start finish lower upper moment : ℝ) : Prop where
  mem : moment ∈ Set.Icc start finish
  inside : ∀ earlier ∈ Set.Ico start moment, lower < path earlier ∧ path earlier < upper
  onLevel : path moment = lower ∨ path moment = upper

end QuantAgent.Library.FirstExit

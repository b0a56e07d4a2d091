import Mathlib.Data.List.Induction

/-! A state that takes inputs one after another, and what holds after every one of them. -/

namespace History

variable {σ ι : Type*} {step : σ → ι → σ} {good : σ → Prop} {keeps : σ → ι → Prop}

/-- If one input leaves a good state good exactly if it keeps it, then every state along
the inputs is good exactly if every input keeps the state it comes to. -/
theorem good_along_iff (one : ∀ s i, good s → (good (step s i) ↔ keeps s i)) {start : σ} (begins : good start)
    (inputs : List ι) :
    (∀ done, done <+: inputs → good (done.foldl step start)) ↔
      ∀ done i, done ++ [i] <+: inputs → keeps (done.foldl step start) i := by
  have next : ∀ done i, (done ++ [i]).foldl step start = step (done.foldl step start) i := by
    intro done i
    rw [List.foldl_append, List.foldl_cons, List.foldl_nil]
  constructor
  · intro good_along done i reached
    have before := good_along done ((List.prefix_append done [i]).trans reached)
    rw [← one _ _ before, ← next]
    exact good_along _ reached
  · intro kept done
    induction done using List.reverseRecOn with
    | nil => exact fun _ => begins
    | append_singleton done i ih =>
      intro reached
      have before := ih ((List.prefix_append done [i]).trans reached)
      rw [next, one _ _ before]
      exact kept done i reached

end History

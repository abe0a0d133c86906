import FuzzyInference.Proofs.Double.Unit
import FuzzyInference.Proofs.Exact.Scalar

/-!
# Doubles with any elementary functions

The elementary functions of doubles come from the C library, which promises little about them. What is
proved here holds for all functions in their place that have a few properties.

## Contents
- `withElementary`: double arithmetic with given elementary functions. `withElementary_library`: with
  those of the library it is the arithmetic that runs.
- `ExpLaws`, `PowLaws`: what is asked of the functions.
-/

namespace FuzzyInference.Double

open Scalar

/-- Double arithmetic with given elementary functions. -/
@[reducible] def withElementary (E : Elementary Float) : Scalar Float :=
  { (inferInstance : Scalar Float) with exp := E.exp, ln := E.ln, sqrt := E.sqrt, pow := E.pow }

/-- The elementary functions of the C library. -/
@[reducible] def library : Elementary Float := ⟨Float.exp, Float.log, Float.sqrt, Float.pow⟩

/-- The machine's own scalar is the one with the library's functions in it. -/
theorem withElementary_library : withElementary library = (inferInstance : Scalar Float) := rfl

/-- The exponential grows from 0 and is 1 at 0; what it makes of NaN is NaN. -/
structure ExpLaws (E : Elementary Float) : Prop where
  mono {x y : Float} (h : x ≤ y) : E.exp x ≤ E.exp y
  nonneg {x : Float} (h : isNaN x = false) : (0.0 : Float) ≤ E.exp x
  zero : E.exp 0.0 = 1.0
  nan {x : Float} (h : isNaN x = true) : isNaN (E.exp x) = true

/-- A power of a degree is a degree. -/
structure PowLaws (E : Elementary Float) : Prop where
  inUnit {base exponent : Float} (hbase : inUnit base = true) (hfinite : isFinite exponent = true)
    (hnonneg : (0.0 : Float) ≤ exponent) : inUnit (E.pow base exponent) = true

end FuzzyInference.Double

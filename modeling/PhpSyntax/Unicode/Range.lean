namespace PhpSyntax.Unicode

/-- The code points from the first to the second, both included. -/
abbrev Range := Nat × Nat

def covers (ranges : List Range) (n : Nat) : Bool :=
  ranges.any fun (lo, hi) => lo ≤ n && n ≤ hi

/-- Every `step`-th code point from `lo` to `hi` is mapped `shift` further on. -/
structure CaseRun where
  lo : Nat
  hi : Nat
  step : Nat
  shift : Int

namespace CaseRun

def covers (run : CaseRun) (n : Nat) : Bool :=
  run.lo ≤ n && n ≤ run.hi && (n - run.lo) % run.step == 0

def image (run : CaseRun) (n : Nat) : Nat :=
  (n + run.shift).toNat

def preimage (run : CaseRun) (n : Nat) : Nat :=
  (n - run.shift).toNat

def reaches (run : CaseRun) (n : Nat) : Bool :=
  run.shift ≤ n && run.covers (run.preimage n)

end CaseRun

end PhpSyntax.Unicode

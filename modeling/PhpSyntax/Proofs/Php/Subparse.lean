import PhpSyntax.Proofs.Peg.Subparse
import PhpSyntax.Proofs.Php.Locating
import PhpSyntax.Proofs.Php.Moved

namespace PhpSyntax.Php

open Peg

variable {table : List RuleDef} {skipped : Option Terminal} {g : Grammar}

section Bare

def bare : List RuleDef :=
  [(define "S" (seq [field "string" (scan restScanner)])).processedBy interpolateDoubleQuoted,
    define "StringParts" (seq [field "part" (scan restScanner)])]

variable (source : String) (b : Nat)

end Bare

end PhpSyntax.Php

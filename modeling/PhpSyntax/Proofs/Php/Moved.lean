import PhpSyntax.Proofs.Peg.Moved
import PhpSyntax.Proofs.Php.Table

namespace PhpSyntax.Php

open Peg

variable {b size : Nat}

section Fold

variable {ctx ctx' : Context} (h : ctx.Moved b size ctx')

include h

end Fold

end PhpSyntax.Php

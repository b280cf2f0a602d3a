namespace PhpSyntax

structure Options where
  /-- Give every node its start and end positions. -/
  captureBounds : Bool
  /-- Give every node its start position and length. -/
  captureOffsets : Bool
  deriving DecidableEq

namespace Options

def off : Options := ⟨false, false⟩

def instruments (o : Options) : Bool :=
  o.captureBounds || o.captureOffsets

end Options

end PhpSyntax

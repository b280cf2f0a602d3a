import PhpSyntax.Peg.Build

namespace PhpSyntax.Php

/-- A line comment ends in front of a closing tag; question marks that begin none belong to it. -/
def trivia : Peg.Terminal :=
  Peg.re ("(?:\\s+"
    ++ "|(?://|#)(?:[^\\r\\n?]|\\?+[^\\r\\n>?])*(?:\\?+(?:\\r\\n|\\n|\\r|\\z))?"
    ++ "|/\\*(?s:.)*?\\*/"
    ++ ")+")

end PhpSyntax.Php

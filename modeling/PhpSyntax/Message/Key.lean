namespace PhpSyntax.Message

def unexpectedEnd : String := "core.unexpected_end_of_input"

def unexpectedCharacter : String := "core.syntax_error"

def malformedHaltCompiler : String := "core.malformed_halt_compiler"

def nestedHaltCompiler : String := "core.nested_halt_compiler"

def tryWithoutHandler : String := "core.try_without_catch_or_finally"

def nestingTooDeep : String := "core.nesting_too_deep"

end PhpSyntax.Message

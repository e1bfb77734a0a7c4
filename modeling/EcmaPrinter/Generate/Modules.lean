import EcmaPrinter.Generate.Basic

/-!
Code of imports and exports.
-/

namespace EcmaPrinter.Generate

open EcmaPrinter
open EcmaPrinter.Text

/-- A directive, between the quotation marks that suit it. -/
def directive (spell : String → String) (raw : String) : Fragment :=
  .sequence [.token (spell (quoteDirective raw)), .statementEnd]

/-- An import of the given bindings. -/
def importBindings (spell : String → String) (bindings : List Fragment) (specifier : String) :
    Fragment :=
  .sequence
    [.token "import", .separated bindings, .token "from", stringLiteral spell specifier,
     .statementEnd]

/-- An import of names, or of nothing but the module. -/
def importNamed (spell : String → String) (default? : Option Fragment) (names : List Fragment)
    (specifier : String) : Fragment :=
  if default?.isNone && names.isEmpty then
    .sequence [.token "import", stringLiteral spell specifier, .statementEnd]
  else
    importBindings spell
      (default?.toList ++ if names.isEmpty then [] else [properties names]) specifier

/-- An import of a module as an object. -/
def importNamespace (spell : String → String) (default? : Option Fragment) (binding : Fragment)
    (specifier : String) : Fragment :=
  importBindings spell (default?.toList ++ [.sequence [.token "*", .token "as", binding]])
    specifier

/-- An imported name. -/
def importSpecifier (spell : String → String) (name? : Option String) (binding : Fragment) :
    Fragment :=
  match name? with
  | some name => .sequence [.token (spell name), .token "as", binding]
  | none => binding

/-- An export of all names of another module. -/
def exportAll (spell : String → String) (specifier : String) : Fragment :=
  .sequence
    [.token "export", .token "*", .token "from", stringLiteral spell specifier, .statementEnd]

/-- An export of names of another module. -/
def exportFrom (spell : String → String) (names : List Fragment) (specifier : String) :
    Fragment :=
  .sequence
    [.token "export", properties names, .token "from", stringLiteral spell specifier,
     .statementEnd]

/-- An export of local names. -/
def exportLocals (names : List Fragment) : Fragment :=
  .sequence [.token "export", properties names, .statementEnd]

/-- An export of a declaration, given with its end. -/
def exportDeclared (parts : List Fragment) : Fragment :=
  .sequence (.token "export" :: parts)

/-- A default export, given with its end. -/
def exportDefault (parts : List Fragment) : Fragment :=
  .sequence (.token "export" :: .token "default" :: parts)

/-- An expression as a default export.  It may not be read as a declaration. -/
def defaultExpression (e : Operand) : List Fragment :=
  let body := e.single
  [if body.marks.startsWithFunctionOrClass then .paren body else body, .statementEnd]

end EcmaPrinter.Generate

/-!
The name and version of the program.
-/

namespace EcmaPrinter

/-- The name of the command. -/
def programName : String := "unparse"

/-- The version of the library. -/
def version : String := "0.2.0"

/-- Name and version on one line. -/
def versionLine : String := s!"{programName} {version}"

end EcmaPrinter

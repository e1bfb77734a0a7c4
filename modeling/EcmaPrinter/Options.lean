import EcmaPrinter.Json.Record
import EcmaPrinter.Stream
import EcmaPrinter.Text.WebSafe

/-!
The options of a rendering, and how they are read from JSON.
-/

namespace EcmaPrinter

/-- How a program is rendered. -/
structure Options where
  /-- Break lines and indent blocks? -/
  pretty : Bool := false
  /-- Spaces per level of indentation. -/
  indent : Nat := 2
  /-- May large integers be hexadecimal? -/
  hexLargeIntegers : Bool := true
  /-- Make the text safe for a `script` element? -/
  webSafe : Bool := false
  deriving DecidableEq, Repr

namespace Options

/-- The style of the output stream. -/
def style (o : Options) : Style where
  indent? := if o.pretty then some o.indent else none
  hex := o.hexLargeIntegers
  webSafe := o.webSafe

/-- How names, literals and template texts are spelled. -/
def spell (o : Options) (text : String) : String :=
  if o.webSafe then Text.webSafe text else text

/-! ### Reading -/

/-- The fields of the options. -/
def fields : List (Json.RecordField Options) :=
  [.of "pretty" Json.readBool fun o b => { o with pretty := b },
   .of "indent" Json.readWord64 fun o n => { o with indent := n },
   .of "hexLargeIntegers" Json.readBool fun o b => { o with hexLargeIntegers := b },
   .of "webSafe" Json.readBool fun o b => { o with webSafe := b }]

/-- Read options. -/
def reader : Reader Options :=
  Json.readRecord fields {}

/-- The options that a text stands for. -/
def ofText (text : String) : Except Fault Options :=
  Json.readAll reader text

/-- The options as JSON. -/
def toJson (o : Options) : Json :=
  .object
    [("pretty", .bool o.pretty), ("indent", .ofNat o.indent),
     ("hexLargeIntegers", .bool o.hexLargeIntegers), ("webSafe", .bool o.webSafe)]

end Options

end EcmaPrinter

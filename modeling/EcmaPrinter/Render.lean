import EcmaPrinter.Fragment.Emit
import EcmaPrinter.Generate.Code
import EcmaPrinter.Options
import EcmaPrinter.Tree.Summary

/-!
Rendering: from a tree to source text.

Web-safe rendering can fail.  Regular expressions and the texts of tagged templates mean what is
written, so they cannot be spelled in another way; one that is not safe as it stands is a hazard.
A generator goes through the nodes of a tree in the order of a visit and fails with the first hazard
that it meets.  The same generator may be used for many trees.
-/

namespace EcmaPrinter

open EcmaPrinter.Text

/-! ### Hazards -/

/-- A text that cannot be made safe for the web. -/
inductive Hazard where
  | regExp (pattern : String)
  | template (raw : String)
  deriving DecidableEq, Repr

/-- What is said about a hazard. -/
def Hazard.message : Hazard → String
  | .regExp pattern =>
    s!"regular expression /{pattern}/ cannot be rendered safely inside a script element"
  | .template raw =>
    s!"tagged template text `{raw}` cannot be rendered safely inside a script element"

/-- Is the text safe as it stands? -/
def isWebSafe (text : String) : Bool :=
  webSafe text == text

/-! ### Code -/

/-- The code of a program under the given options. -/
def Program.fragment (o : Options) (p : Program) : Fragment :=
  p.code o.spell

/-- The code of an expression under the given options. -/
def Expression.fragment (o : Options) (e : Expression) : Fragment :=
  (e.code o.spell).code

/-! ### Generators -/

/-- A generator renders one tree after the other.  While it goes through a tree, it keeps the first
hazard. -/
structure Generator where
  options : Options := {}
  hazard? : Option Hazard := none
  deriving DecidableEq, Repr

namespace Generator

/-- Keep a hazard, unless there is one already. -/
def fail (g : Generator) (hazard : Hazard) : Generator :=
  match g.hazard? with
  | some _ => g
  | none => { g with hazard? := some hazard }

/-- For the web, a text must be safe as it stands. -/
def require (g : Generator) (text : String) (hazard : Hazard) : Generator :=
  if g.options.webSafe && !isWebSafe text then g.fail hazard else g

/-- Look at a node.  A regular expression is looked at together with the slash behind it. -/
def reduce (g : Generator) : Head → Generator
  | .regExp pattern _ => g.require (pattern ++ "/") (.regExp pattern)
  | .template true texts => texts.foldl (fun g raw => g.require raw (.template raw)) g
  | _ => g

/-- Take steps one after the other. -/
def steps (g : Generator) (fs : List (Generator → Generator)) : Generator :=
  fs.foldl (fun g f => f g) g

/-- Look at a node behind its children. -/
def foldStep (h : Head) (children : List (Generator → Generator)) : Generator → Generator :=
  fun g => (g.steps children).reduce h

/-- Go through all nodes of a tree. -/
def fold {c : Category} (g : Generator) (t : Tree c) : Generator :=
  g.steps (t.visit foldStep)

/-- Forget the hazard of an earlier rendering. -/
def reset (g : Generator) : Generator :=
  { g with hazard? := none }

/-- Hand out the hazard or, if there is none, the text of the code. -/
def finish (g : Generator) (code : Fragment) : Except Hazard String × Generator :=
  match g.hazard? with
  | some hazard => (.error hazard, g.reset)
  | none => (.ok (code.render g.options.style), g)

/-- Render a program. -/
def program (g : Generator) (p : Program) : Except Hazard String × Generator :=
  (g.reset.fold p).finish (Program.fragment g.options p)

/-- Render an expression, without a statement end. -/
def expression (g : Generator) (e : Expression) : Except Hazard String × Generator :=
  (g.reset.fold e).finish (Expression.fragment g.options e)

end Generator

/-! ### Programs and expressions -/

/-- The source text of a program. -/
def Program.render (o : Options) (p : Program) : Except Hazard String :=
  (Generator.program { options := o } p).1

/-- The source text of an expression, without a statement end. -/
def Expression.render (o : Options) (e : Expression) : Except Hazard String :=
  (Generator.expression { options := o } e).1

/-- The compact source text of a program, which always exists. -/
def Program.compact (p : Program) : String :=
  (Program.fragment {} p).render {}

end EcmaPrinter

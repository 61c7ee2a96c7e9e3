import MarkupTemplate.Render

/-!
Diagnostics: a failure together with the source it is about, for a tool that shows both. One
label marks the stretch of the source to look at.
-/

namespace MarkupTemplate

structure Diagnostic where
  message : String
  sourceName : String
  source : String
  label : String
  position : Nat
  length : Nat
deriving DecidableEq, Repr

namespace Diagnostic

def of (message : String) (s : Span) (sourceName source : String) : Diagnostic where
  message := message
  sourceName := sourceName
  source := source
  label := "here"
  position := s.start
  length := s.length

def report (d : Diagnostic) : String :=
  d.message

end Diagnostic

def RenderError.diagnostic (e : RenderError) (sourceName source : String) : Diagnostic :=
  .of e.reason e.span sourceName source

end MarkupTemplate

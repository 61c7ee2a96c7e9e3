import MarkupTemplate.Render

/-!
Sessions: scopes and templates kept under slot names, and the commands that build, compare and
use them. A command writes at most one slot, and one that fails or only looks writes none.
-/

namespace MarkupTemplate

-- A template keeps its source, to which the spans in its tree refer.
structure Template where
  source : String
  tree : Tree Span
deriving DecidableEq

structure Session where
  scopes : Std.ExtTreeMap String Scope
  templates : Std.ExtTreeMap String Template

namespace Session

inductive Command where
  | create (slot : String)
  | collect (slot : String) (bindings : List (String × Value))
  | convert (slot : String) (bindings : Std.HashMap String Value)
  | copy (slot target : String)
  | insert (slot name : String) (v : Value)
  | extend (slot target name : String) (v : Value)
  | get (slot name : String)
  | measure (slot : String)
  | compare (slot other : String)
  | load (template source : String)
  | evaluate (template slot : String) (result : Option (String × String))
  | render (slot source : String)

-- Failures come with the source that they are about.
inductive Answer where
  | size (n : Nat)
  | binding (v : Option Value) (contained : Bool)
  | extent (n : Nat) (isEmpty : Bool)
  | comparison (equal : Bool)
  | loaded (s : Span)
  | value (v : Value)
  | notLoaded (e : SyntaxError) (source : String)
  | notEvaluated (e : EvaluationError Span) (source : String)
  | notRendered (e : RenderError) (source : String)
  | noSlot (slot : String)

def empty : Session :=
  ⟨∅, ∅⟩

def store (s : Session) (slot : String) (scope : Scope) : Session :=
  { s with scopes := s.scopes.insert slot scope }

def storeTemplate (s : Session) (slot : String) (t : Template) : Session :=
  { s with templates := s.templates.insert slot t }

-- A command on a slot that was never written changes nothing.
def withScope (s : Session) (slot : String) (use : Scope → Session × Answer) :
    Session × Answer :=
  match s.scopes[slot]? with
  | some scope => use scope
  | none       => (s, .noSlot slot)

def withTemplate (s : Session) (slot : String) (use : Template → Session × Answer) :
    Session × Answer :=
  match s.templates[slot]? with
  | some t => use t
  | none   => (s, .noSlot slot)

def written (s : Session) (slot : String) (scope : Scope) : Session × Answer :=
  (s.store slot scope, .size scope.size)

def perform (s : Session) : Command → Session × Answer
  | .create slot => s.written slot ∅
  | .collect slot bindings => s.written slot (.ofList bindings)
  | .convert slot bindings => s.written slot (.ofMap bindings)
  | .copy slot target => s.withScope slot fun scope => s.written target scope
  | .insert slot name v => s.withScope slot fun scope => s.written slot (scope.bind name v)
  | .extend slot target name v =>
    s.withScope slot fun scope => s.written target (scope.bind name v)
  | .get slot name => s.withScope slot fun scope =>
    (s, .binding (scope.get? name) (scope.contains name))
  | .measure slot => s.withScope slot fun scope => (s, .extent scope.size scope.isEmpty)
  | .compare slot other => s.withScope slot fun scope => s.withScope other fun scope' =>
    (s, .comparison (scope = scope'))
  | .load slot source =>
    match Tree.parse source with
    | .ok t    => (s.storeTemplate slot ⟨source, t⟩, .loaded t.site)
    | .error e => (s, .notLoaded e source)
  | .evaluate template slot result =>
    s.withTemplate template fun t => s.withScope slot fun scope =>
      match t.tree.evaluate scope, result with
      | .error e, _ => (s, .notEvaluated e t.source)
      | .ok v, none => (s, .value v)
      | .ok v, some (target, name) =>
        s.withScope target fun scope' => (s.store target (scope'.bind name v), .value v)
  | .render slot source => s.withScope slot fun scope =>
    match MarkupTemplate.render source scope with
    | .ok v    => (s, .value v)
    | .error e => (s, .notRendered e source)

def answers : Session → List Command → List Answer
  | _, [] => []
  | s, c :: cs =>
    let (s, a) := s.perform c
    a :: answers s cs

end Session
end MarkupTemplate

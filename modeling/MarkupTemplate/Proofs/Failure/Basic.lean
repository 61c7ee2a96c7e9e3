import MarkupTemplate.Parser.Basic
import MarkupTemplate.Proofs.Grammar.Word

/-!
What an error says about its source. The text before the position of an error is the front of
some template, which goes on with what the cause of the error names, and the text after the
position does not.
-/

namespace MarkupTemplate.SyntaxError

def AfterBlanks (p : List Char → Prop) (cs : List Char) : Prop :=
  ∃ (b : Blanks) (ds : List Char), cs = b.text ++ ds ∧ p ds

-- Some text that `p` accepts makes a template of the text `before`.
def Completable (before : List Char) (p : List Char → Prop) : Prop :=
  ∃ w, p w ∧ ∃ t, Tree.parse (.ofList (before ++ w)) = .ok t

namespace Cause

def closing (tag : String) : List Char :=
  ['<', '/'] ++ tag.toList ++ ['>']

-- What is named does not come next. Only when the source is at its end is `end` missing, and only
-- there or at another closing tag is an element unclosed.
def Lacks : Cause → List Char → Prop
  | missing literal, cs =>
    literal ∈ ["=", "\x7b", "\x7d", "in"] ∧ ¬literal.toList <+: cs ∨ literal = "end" ∧ cs = []
  | unclosed tag, cs => (cs = [] ∨ ['<', '/'] <+: cs) ∧ ¬closing tag <+: cs
  | unnamed k, cs => ¬Leads isAlphabetic cs ∧ (k = .attributeName → ¬['>'] <+: cs)
  | unexpected, cs => ¬['<'] <+: cs ∧ ¬['{'] <+: cs

-- What is named comes next. The name of a tag cannot stand apart from the sign before it.
def Supplies : Cause → List Char → Prop
  | missing literal =>
    AfterBlanks ((if literal = "end" then "\x7b end \x7d" else literal).toList <+: ·)
  | unclosed tag => AfterBlanks (closing tag <+: ·)
  | unnamed .tagName => Leads isAlphabetic
  | unnamed _ => AfterBlanks (Leads isAlphabetic)
  | unexpected => fun _ => False

-- Where something unexpected stands the template was complete, or a node could begin.
def Truthful (before after : List Char) : Cause → Prop
  | unexpected =>
    after ≠ [] ∧ Completable before (· = []) ∨
      unexpected.Lacks after ∧ Completable before (['<'] <+: ·) ∧ Completable before (['{'] <+: ·)
  | cause => cause.Lacks after ∧ Completable before cause.Supplies

end Cause
end MarkupTemplate.SyntaxError

import MarkupTemplate.Proofs.Markup.SameShape
import MarkupTemplate.Proofs.Printing.RoundTrip

/-!
No text becomes markup. A page that a template comes to without bound markup is read back as the
tags of the template itself, whatever the texts are.
-/

namespace MarkupTemplate.Tree

variable {source : String} {t : Tree Span} {scope scope' : Scope} {html html' : String}

-- The page is read as the unrolled template, with its texts escaped.
theorem read_of_evaluate (sound : t.Sound) (plain : scope.Plain)
    (h : t.evaluate scope = .ok (.markup html)) :
    ∃ ps, t.unroll scope = some ps ∧
      Document.read html.toList = some ((Document.ofPieces ps).mapText Document.escape) := by
  have ⟨ps, unrolled, eq⟩ := exists_unroll plain h rfl
  exact ⟨ps, unrolled, eq ▸ Document.read_html (legal_of_unroll sound unrolled)⟩

theorem isMarkup_of_evaluate {v : Value} (root : ¬t.IsVariable) (h : t.evaluate scope = .ok v) :
    ∃ html, v = .markup html := by
  by_contra other
  obtain ⟨_, x | _ | _⟩ := t
  case var => exact root ⟨x, rfl⟩
  all_goals cases bound?_of_evaluate h fun s eq => other ⟨s, eq⟩

theorem read_evaluate (parsed : parse source = .ok t) (root : ¬t.IsVariable)
    (plain : scope.Plain) :
    (∀ html, t.evaluate scope = .ok (.markup html) → ∃ ps d, t.unroll scope = some ps ∧
      Document.read html.toList = some d ∧ d.mapText Document.decode = .ofPieces ps ∧
        ∀ cs ∈ d.texts, '<' ∉ cs ∧ '>' ∉ cs) ∧
    ∀ scope', scope'.Plain → scope.SameShape scope' →
      (∃ e, t.evaluate scope = .error e ∧ t.evaluate scope' = .error e) ∨
      ∃ html html' d d', t.evaluate scope = .ok (.markup html) ∧
        t.evaluate scope' = .ok (.markup html') ∧ Document.read html.toList = some d ∧
          Document.read html'.toList = some d' ∧ d.outline = d'.outline := by
  have sound := sound_of_parse parsed
  constructor
  · intro html h
    have ⟨ps, unrolled, read⟩ := read_of_evaluate sound plain h
    exact ⟨ps, _, unrolled, read, Document.mapText_decode_escape _,
      fun cs => Document.not_mem_texts_mapText⟩
  · intro scope' plain' shape
    have agree := agree_evaluate (t := t) shape
    match h : t.evaluate scope, h' : t.evaluate scope' with
    | .error e, .error e' =>
      rw [h, h'] at agree
      cases agree
      exact .inl ⟨e, rfl, rfl⟩
    | .ok v, .ok v' =>
      obtain ⟨html, rfl⟩ := isMarkup_of_evaluate root h
      obtain ⟨html', rfl⟩ := isMarkup_of_evaluate root h'
      have ⟨ps, unrolled, read⟩ := read_of_evaluate sound plain h
      have ⟨ps', unrolled', read'⟩ := read_of_evaluate sound plain' h'
      refine .inr ⟨html, html', _, _, rfl, rfl, read, read', ?_⟩
      rw [Document.outline_mapText, Document.outline_mapText, Piece.outline_ofPieces,
        Piece.outline_ofPieces, outline_unroll shape unrolled unrolled']
    | .ok _, .error _ | .error _, .ok _ =>
      rw [h, h'] at agree
      exact agree.elim

-- Signs in a text end neither the value that it is put into nor the text that it is a part of, and
-- leave the same tags as any other text.
theorem read_evaluate_sign :
    let scope (s : String) : Scope := Scope.empty.bind "y" (.text s)
    ∃ t, parse "<a x=\x7b y \x7d>\x7b y \x7d</a>" = .ok t ∧
      (∃ ps d, t.unroll (scope "></a>") = some ps ∧
        Document.read "<a x=\"></a>\">&gt;&lt;/a&gt;</a>".toList = some d ∧
          d.mapText Document.decode = .ofPieces ps ∧ ∀ cs ∈ d.texts, '<' ∉ cs ∧ '>' ∉ cs) ∧
      ∃ html html' d d', t.evaluate (scope "></a>") = .ok (.markup html) ∧
        t.evaluate (scope "z") = .ok (.markup html') ∧ Document.read html.toList = some d ∧
          Document.read html'.toList = some d' ∧ d.outline = d'.outline := by
  intro scope
  let y (p : Nat) : Tree Span := ⟨⟨p, p + 1⟩, .var "y"⟩
  let t : Tree Span := ⟨⟨0, 20⟩, .element "a" [("x", y 7)] [y 13]⟩
  have parsed : parse "<a x=\x7b y \x7d>\x7b y \x7d</a>" = .ok t := by decide +kernel
  have evaluated : t.evaluate (scope "></a>") =
      .ok (.markup "<a x=\"></a>\">&gt;&lt;/a&gt;</a>") := by
    decide +kernel
  have plain (s : String) : (scope s).Plain :=
    Scope.Plain.bind (fun _ _ h => by simp at h) (.text s) _
  have shape (s s' : String) : (scope s).SameShape (scope s') :=
    Scope.SameShape.bind (fun _ => by simp) (.text s s') _
  refine ⟨t, parsed, (read_evaluate parsed nofun (plain _)).1 _ evaluated, ?_⟩
  obtain ⟨e, failed, -⟩ | same := (read_evaluate parsed nofun (plain _)).2 _ (plain _) (shape _ "z")
  case inl => cases evaluated.symm.trans failed
  case inr => exact same

end MarkupTemplate.Tree

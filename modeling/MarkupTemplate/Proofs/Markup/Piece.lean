import MarkupTemplate.Proofs.Grammar.Word
import MarkupTemplate.Proofs.Markup.Document
import MarkupTemplate.Text.Escape

/-!
Pages as sequences of pieces, which are tags and texts. `Document.read_html` says that a page that
is written piece by piece is read back as the same tags, and between them as the texts, escaped.
-/

namespace MarkupTemplate

inductive Piece where
  | text (content : String)
  | tag (t : Tag)
deriving DecidableEq, Repr

namespace Tag

def attributesText (as : List (String × String)) : List Char :=
  as.flatMap fun a => [' '] ++ a.1.toList ++ ['=', '"'] ++ a.2.toList ++ ['"']

-- Without the sign `<` at its front.
def inner (t : Tag) : List Char :=
  (if t.closing then ['/'] else []) ++ t.name.toList ++ attributesText t.attributes ++ ['>']

structure Legal (t : Tag) : Prop where
  name       : IsName t.name
  attributes : ∀ a ∈ t.attributes, IsName a.1 ∧ ∀ c ∈ a.2.toList, isQuoted c

-- A value never holds the quote that would end it.
theorem isQuoted_escapeAttribute (s : String) : ∀ c ∈ (escapeAttribute s).toList, isQuoted c := by
  intro c hc
  rw [escapeAttribute_eq, Escape.toList_replace, List.mem_flatMap] at hc
  obtain ⟨d, -, hd⟩ := hc
  obtain ⟨-, eq⟩ | ⟨quote, eq⟩ := Escape.written_attributeEntity d
  all_goals rw [eq] at hd
  case inl =>
    have all : ['&', 'q', 'u', 'o', 't', ';'].all isQuoted := by decide
    exact List.all_eq_true.mp all c hd
  case inr => simpa [isQuoted, List.mem_singleton.mp hd] using quote

variable {cs : List Char} {x v : String}

theorem readName_append (h : IsName x) (ends : ¬Leads isAlphabetic cs) :
    readName (x.toList ++ cs) = some (x, cs) := by
  simp [readName, Leads.takeWhile_append h.2 ends, Leads.dropWhile_append h.2 ends, h.1]

theorem readValue_append (h : ∀ c ∈ v.toList, isQuoted c) (cs : List Char) :
    readValue (['=', '"'] ++ v.toList ++ ['"'] ++ cs) = some (v, cs) := by
  have ends : ¬Leads isQuoted ('"' :: cs) := by simp [isQuoted]
  simp [readValue, Leads.takeWhile_append h ends, Leads.dropWhile_append h ends]

theorem readAttribute_append (hx : IsName x) (hv : ∀ c ∈ v.toList, isQuoted c) (cs : List Char) :
    readAttribute (x.toList ++ ['=', '"'] ++ v.toList ++ ['"'] ++ cs) = some ((x, v), cs) := by
  have ends : ¬Leads isAlphabetic (['=', '"'] ++ v.toList ++ ['"'] ++ cs) := by
    simp [not_isAlphabetic_of_mem_signs '=' (by decide)]
  have name := readName_append hx ends
  simp only [List.append_assoc] at name
  simp only [readAttribute, List.append_assoc, name, Option.bind_eq_bind, Option.bind_some]
  have value := readValue_append hv cs
  simp only [List.append_assoc] at value
  rw [value]
  rfl

theorem readAttributes_cons {a : String × String} {ds : List Char}
    (h : readAttribute cs = some (a, ds)) :
    readAttributes (' ' :: cs) = (readAttributes ds).map fun (as, rest) => (a :: as, rest) := by
  rw [readAttributes]
  split
  case h_1 h' => cases h.symm.trans h'
  case h_2 h' => cases h.symm.trans h'; rfl

theorem readAttributes_append {as : List (String × String)}
    (h : ∀ a ∈ as, IsName a.1 ∧ ∀ c ∈ a.2.toList, isQuoted c) :
    readAttributes (attributesText as ++ ['>'] ++ cs) = some (as, '>' :: cs) := by
  induction as with
  | nil => simp [attributesText, readAttributes]
  | cons a as ih =>
    obtain ⟨⟨name, value⟩, has⟩ := List.forall_mem_cons.mp h
    have first := readAttribute_append name value (attributesText as ++ ['>'] ++ cs)
    have text : attributesText (a :: as) ++ ['>'] ++ cs =
        ' ' :: (a.1.toList ++ ['=', '"'] ++ a.2.toList ++ ['"'] ++
          (attributesText as ++ ['>'] ++ cs)) := by
      simp [attributesText]
    rw [text, readAttributes_cons first, ih has]
    rfl

theorem attributesText_not_isAlphabetic (as : List (String × String)) :
    ¬Leads isAlphabetic (attributesText as ++ ['>'] ++ cs) := by
  cases as with
  | nil       => simp [attributesText, not_isAlphabetic_of_mem_signs '>' (by decide)]
  | cons a as => simp [attributesText, not_isAlphabetic_of_isBlank (c := ' ') (by decide)]

theorem readEnd_append {as : List (String × String)} (hx : IsName x)
    (has : ∀ a ∈ as, IsName a.1 ∧ ∀ c ∈ a.2.toList, isQuoted c) (closing : Bool) :
    readEnd closing (x.toList ++ (attributesText as ++ ['>'] ++ cs)) =
      some (⟨closing, x, as⟩, cs) := by
  rw [readEnd, readName_append hx (attributesText_not_isAlphabetic as)]
  simp only [Option.bind_eq_bind, Option.bind_some]
  rw [readAttributes_append has]
  rfl

theorem read_append {t : Tag} (h : t.Legal) : read (t.inner ++ cs) = some (t, cs) := by
  obtain ⟨closing, x, as⟩ := t
  have rest : readEnd closing (x.toList ++ (attributesText as ++ ['>'] ++ cs)) = _ :=
    readEnd_append h.name h.attributes closing
  cases closing with
  | true  => simpa [inner, read] using rest
  | false =>
    obtain ⟨c, ds, eq, letter⟩ := Leads.exists_cons <|
      Leads.of_all h.name.2 h.name.1 (attributesText as ++ ['>'] ++ cs)
    have ne : c ≠ '/' := by
      rintro rfl
      simp [not_isAlphabetic_of_mem_signs '/' (by decide)] at letter
    have text : inner ⟨false, x, as⟩ ++ cs = c :: ds := by simpa [inner] using eq
    rw [text, read.eq_2 _ (by simpa using ne), ← eq, rest]

end Tag

def Piece.html : Piece → List Char
  | text s => (escapeText s).toList
  | tag t  => '<' :: t.inner

namespace Document

-- Texts that no tag parts are one.
def ofPieces : List Piece → Document
  | []            => ⟨[], []⟩
  | .text s :: ps => { ofPieces ps with text := s.toList ++ (ofPieces ps).text }
  | .tag t :: ps  => ⟨[], (t, (ofPieces ps).text) :: (ofPieces ps).tags⟩

def mapText (f : List Char → List Char) (d : Document) : Document where
  text := f d.text
  tags := d.tags.map fun t => (t.1, f t.2)

def texts (d : Document) : List (List Char) :=
  d.text :: d.tags.map (·.2)

def escape (cs : List Char) : List Char :=
  cs.flatMap (Escape.written Escape.textEntity)

-- Undoes the three entities that stand for a sign in a text.
def decode : List Char → List Char
  | '&' :: 'a' :: 'm' :: 'p' :: ';' :: cs => '&' :: decode cs
  | '&' :: 'l' :: 't' :: ';' :: cs        => '<' :: decode cs
  | '&' :: 'g' :: 't' :: ';' :: cs        => '>' :: decode cs
  | c :: cs                               => c :: decode cs
  | []                                    => []

theorem written_cases (c : Char) :
    c = '&' ∧ Escape.written Escape.textEntity c = ['&', 'a', 'm', 'p', ';'] ∨
    c = '<' ∧ Escape.written Escape.textEntity c = ['&', 'l', 't', ';'] ∨
    c = '>' ∧ Escape.written Escape.textEntity c = ['&', 'g', 't', ';'] ∨
    (c ≠ '&' ∧ c ≠ '<' ∧ c ≠ '>') ∧ Escape.written Escape.textEntity c = [c] := by
  by_cases amp : c = '&'
  case pos => exact .inl ⟨amp, by rw [amp]; rfl⟩
  by_cases lt : c = '<'
  case pos => exact .inr <| .inl ⟨lt, by rw [lt]; rfl⟩
  by_cases gt : c = '>'
  case pos => exact .inr <| .inr <| .inl ⟨gt, by rw [gt]; rfl⟩
  have none : Escape.textEntity c = none :=
    Escape.textEntity_eq_none_iff.mpr (by simp [Escape.textSigns, amp, lt, gt])
  exact .inr <| .inr <| .inr ⟨⟨amp, lt, gt⟩, Escape.written_of_none none⟩

theorem not_mem_escape (cs : List Char) : '<' ∉ escape cs ∧ '>' ∉ escape cs := by
  simp only [escape, List.mem_flatMap, not_exists, not_and, ← forall_and]
  intro c _
  obtain ⟨-, eq⟩ | ⟨-, eq⟩ | ⟨-, eq⟩ | ⟨⟨-, lt, gt⟩, eq⟩ := written_cases c
  case inr.inr.inr => simpa [eq] using ⟨Ne.symm lt, Ne.symm gt⟩
  all_goals simp [eq]

theorem decode_cons {c : Char} (ne : c ≠ '&') (cs : List Char) :
    decode (c :: cs) = c :: decode cs := by
  rw [decode.eq_def]
  split <;> simp_all

theorem decode_escape (cs : List Char) : decode (escape cs) = cs := by
  induction cs with
  | nil => rfl
  | cons c cs ih =>
    rw [escape, List.flatMap_cons, ← escape]
    obtain ⟨rfl, eq⟩ | ⟨rfl, eq⟩ | ⟨rfl, eq⟩ | ⟨⟨amp, -, -⟩, eq⟩ := written_cases c
    case inr.inr.inr => rw [eq, List.singleton_append, decode_cons amp, ih]
    all_goals simp [eq, decode, ih]

theorem read_append {cs : List Char} (h : ∀ c ∈ cs, isText c) (ds : List Char) :
    read (cs ++ ds) = (read ds).map fun d => { d with text := cs ++ d.text } := by
  simp [read, List.takeWhile_append_of_pos h, List.dropWhile_append_of_pos h, Function.comp_def]

theorem read_tag {t : Tag} (h : t.Legal) (cs : List Char) :
    read ('<' :: t.inner ++ cs) = (read cs).map fun d => ⟨[], (t, d.text) :: d.tags⟩ := by
  have tags : readTags ('<' :: (t.inner ++ cs)) =
      (readTags (cs.dropWhile isText)).map ((t, cs.takeWhile isText) :: ·) := by
    rw [readTags]
    split
    case h_1 h' => cases h'.symm.trans (Tag.read_append h)
    case h_2 h' => cases h'.symm.trans (Tag.read_append h); rfl
  simp [read, isText, tags, Function.comp_def]

theorem read_html {ps : List Piece} (h : ∀ t, .tag t ∈ ps → t.Legal) :
    read (ps.flatMap Piece.html) = some ((ofPieces ps).mapText escape) := by
  induction ps with
  | nil => simp [read, readTags, ofPieces, mapText, escape]
  | cons p ps ih =>
    have ih := ih fun t ht => h t (List.mem_cons_of_mem _ ht)
    cases p with
    | text s =>
      have text : ∀ c ∈ escape s.toList, isText c := by
        have := (not_mem_escape s.toList).1
        simp only [isText, bne_iff_ne]
        grind
      rw [List.flatMap_cons, Piece.html, escapeText_eq, Escape.toList_replace, ← escape,
        read_append text, ih]
      simp [ofPieces, mapText, escape]
    | tag t =>
      rw [List.flatMap_cons, Piece.html, read_tag (h t List.mem_cons_self), ih]
      simp [ofPieces, mapText, escape]

theorem not_mem_texts_mapText {d : Document} {cs : List Char}
    (h : cs ∈ (d.mapText escape).texts) : '<' ∉ cs ∧ '>' ∉ cs := by
  simp only [texts, mapText, List.map_map, List.mem_cons, List.mem_map] at h
  obtain rfl | ⟨_, _, rfl⟩ := h
  all_goals exact not_mem_escape _

theorem mapText_decode_escape (d : Document) : (d.mapText escape).mapText decode = d := by
  simp [mapText, decode_escape, Function.comp_def]

end Document
end MarkupTemplate

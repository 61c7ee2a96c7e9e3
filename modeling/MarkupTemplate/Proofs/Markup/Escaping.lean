import MarkupTemplate.Proofs.Markup.Piece

/-!
Escaping takes all markup out of a text and nothing else. What is written between tags can always be
read back. Between quotes a text can be read back unless it has the entity for a quote in it already
(`Escape.unquote_escapeAttribute_iff`).
-/

namespace MarkupTemplate.Escape

open Document

def textEntities : List String :=
  ["&amp;", "&lt;", "&gt;"]

def quoteEntity : List Char :=
  ['&', 'q', 'u', 'o', 't', ';']

-- Undoes the entity for a quote wherever it is met on the way from left to right.
def unquote : List Char → List Char
  | '&' :: 'q' :: 'u' :: 'o' :: 't' :: ';' :: cs => '"' :: unquote cs
  | c :: cs                                      => c :: unquote cs
  | []                                           => []

-- What stands between two tags for the text `s`.
structure WritesText (s html : String) : Prop where
  no_tag   : '<' ∉ html.toList ∧ '>' ∉ html.toList
  entities : ∀ rest, '&' :: rest <:+ html.toList →
    ∃ e ∈ textEntities, e.toList <+: '&' :: rest
  decoded  : decode html.toList = s.toList
  kept_iff : html = s ↔ ∀ c ∈ ['&', '<', '>'], c ∉ s.toList

-- What stands between two quotes for the text `s`.
structure WritesAttribute (s value : String) : Prop where
  no_quote     : '"' ∉ value.toList
  unquoted_iff : unquote value.toList = s.toList ↔ ¬"&quot;".toList <:+: s.toList

variable {c : Char} {cs ds rest : List Char} {entity : Char → Option String} {s t : String}

section

variable (longer : ∀ c e, entity c = some e → 1 < e.toList.length)

include longer

theorem length_le_flatMap_written (cs : List Char) :
    cs.length ≤ (cs.flatMap (written entity)).length := by
  induction cs with
  | nil => exact Nat.le_refl _
  | cons c cs ih =>
    have one : 1 ≤ (written entity c).length := by
      cases eq : entity c with
      | none   => rw [written_of_none eq, List.length_singleton]
      | some e => exact written_of_some eq ▸ (longer c e eq).le
    rw [List.flatMap_cons, List.length_append, List.length_cons]
    omega

theorem replace_eq_self_iff : replace entity s = s ↔ ∀ c ∈ s.toList, entity c = none := by
  refine ⟨fun kept => ?_, replace_eq_self⟩
  have kept := congrArg String.toList kept
  rw [toList_replace] at kept
  generalize s.toList = cs at kept ⊢
  induction cs with
  | nil => exact List.forall_mem_nil _
  | cons c cs ih =>
    have rest := length_le_flatMap_written longer cs
    rw [List.flatMap_cons] at kept
    cases eq : entity c with
    | none =>
      rw [written_of_none eq, List.singleton_append, List.cons_inj_right] at kept
      exact List.forall_mem_cons.mpr ⟨eq, ih kept⟩
    | some e =>
      have size := congrArg List.length kept
      have := longer c e eq
      rw [written_of_some eq, List.length_append, List.length_cons] at size
      omega

end

theorem one_lt_length_textEntity (c : Char) (e : String) (h : textEntity c = some e) :
    1 < e.toList.length := by
  rw [textEntity.eq_def] at h
  split at h <;> cases h <;> decide

-- What ends the text and starts with `c` lies behind `cs`, which has no `c` in it.
theorem suffix_of_not_mem (none : c ∉ cs) (h : c :: rest <:+ cs ++ ds) : c :: rest <:+ ds := by
  induction cs with
  | nil => exact h
  | cons d cs ih =>
    simp only [List.mem_cons, not_or] at none
    obtain eq | h := List.suffix_cons_iff.mp h
    case inl => cases eq; exact absurd rfl none.1
    case inr => exact ih none.2 h

theorem prefix_or_suffix_of_suffix (none : c ∉ cs) (h : c :: rest <:+ c :: cs ++ ds) :
    c :: cs <+: c :: rest ∨ c :: rest <:+ ds := by
  obtain here | later := List.suffix_cons_iff.mp h
  case inl => exact .inl (here ▸ List.prefix_append (c :: cs) ds)
  case inr => exact .inr (suffix_of_not_mem none later)

-- An entity starts with its only `&`.
theorem written_entity_or_self (c : Char) :
    (∃ e ∈ textEntities, ∃ cs, e.toList = '&' :: cs ∧ '&' ∉ cs ∧
      written textEntity c = '&' :: cs) ∨
    '&' ∉ [c] ∧ written textEntity c = [c] := by
  obtain ⟨-, eq⟩ | ⟨-, eq⟩ | ⟨-, eq⟩ | ⟨⟨amp, -, -⟩, eq⟩ := written_cases c
  case inl         => exact .inl ⟨"&amp;", by decide, _, rfl, by decide, eq⟩
  case inr.inl     => exact .inl ⟨"&lt;", by decide, _, rfl, by decide, eq⟩
  case inr.inr.inl => exact .inl ⟨"&gt;", by decide, _, rfl, by decide, eq⟩
  case inr.inr.inr => exact .inr ⟨by simpa using amp.symm, eq⟩

theorem entity_of_suffix (h : '&' :: rest <:+ escape cs) :
    ∃ e ∈ textEntities, e.toList <+: '&' :: rest := by
  induction cs with
  | nil => cases List.suffix_nil.mp h
  | cons c cs ih =>
    rw [escape, List.flatMap_cons, ← escape] at h
    obtain ⟨e, mem, es, text, none, eq⟩ | ⟨none, eq⟩ := written_entity_or_self c
    all_goals rw [eq] at h
    case inl =>
      obtain here | later := prefix_or_suffix_of_suffix none h
      case inl => exact ⟨e, mem, text ▸ here⟩
      case inr => exact ih later
    case inr => exact ih (suffix_of_not_mem none h)

theorem toList_escapeText (s : String) : (escapeText s).toList = escape s.toList := by
  rw [escapeText_eq, toList_replace, escape]

theorem decode_escapeText (s : String) : decode (escapeText s).toList = s.toList := by
  rw [toList_escapeText, decode_escape]

theorem injective_escapeText : escapeText.Injective := by
  intro s t eq
  apply String.toList_inj.mp
  rw [← decode_escapeText s, eq, decode_escapeText]

theorem not_prefix_quoteEntity
    (other : ∀ ds, c = '&' → cs = 'q' :: 'u' :: 'o' :: 't' :: ';' :: ds → False) :
    ¬quoteEntity <+: c :: cs := by
  rintro ⟨ds, eq⟩
  cases eq
  exact other ds rfl rfl

theorem unquote_cons (other : ¬quoteEntity <+: c :: cs) : unquote (c :: cs) = c :: unquote cs := by
  rw [unquote.eq_def]
  split
  case h_1 cs eq =>
    rw [eq] at other
    exact absurd (List.prefix_append quoteEntity cs) other
  case h_2 eq => cases eq; rfl
  case h_3 eq => cases eq

theorem length_unquote_le (cs : List Char) : (unquote cs).length ≤ cs.length := by
  fun_induction unquote cs with
  | case1 | case2 => simp only [List.length_cons]; omega
  | case3         => exact Nat.le_refl _

theorem length_unquote_lt (h : quoteEntity <:+: cs) : (unquote cs).length < cs.length := by
  fun_induction unquote cs with
  | case1 cs =>
    have := length_unquote_le cs
    simp only [List.length_cons]
    omega
  | case2 c cs other ih =>
    obtain here | later := List.infix_cons_iff.mp h
    case inl => exact absurd here (not_prefix_quoteEntity other)
    case inr => exact Nat.succ_lt_succ (ih later)
  | case3 => cases List.infix_nil.mp h

theorem unquote_eq_self_iff : unquote cs = cs ↔ ¬quoteEntity <:+: cs where
  mp kept found := by
    have := length_unquote_lt found
    rw [kept] at this
    exact Nat.lt_irrefl _ this
  mpr none := by
    fun_induction unquote cs with
    | case1 cs => exact absurd (List.prefix_append quoteEntity cs).isInfix none
    | case2 c cs other ih => rw [ih fun h => none (h.trans (List.suffix_cons c cs).isInfix)]
    | case3 => rfl

-- What has no `&` in it was there before, for everything that is put in starts with one.
theorem prefix_of_prefix_flatMap (none : '&' ∉ cs)
    (h : cs <+: ds.flatMap (written attributeEntity)) : cs <+: ds := by
  induction cs generalizing ds with
  | nil => exact List.nil_prefix
  | cons c cs ih =>
    simp only [List.mem_cons, not_or] at none
    cases ds with
    | nil => simp at h
    | cons d ds =>
      rw [List.flatMap_cons] at h
      obtain ⟨-, eq⟩ | ⟨-, eq⟩ := written_attributeEntity d
      all_goals
        rw [eq] at h
        obtain ⟨here, later⟩ := List.cons_prefix_cons.mp h
      case inl => exact absurd here.symm none.1
      case inr => exact List.cons_prefix_cons.mpr ⟨here, ih none.2 later⟩

-- Escaping puts no new entity together from what was there before and what is put in.
theorem unquote_flatMap (cs : List Char) :
    unquote (cs.flatMap (written attributeEntity)) = unquote cs := by
  fun_induction unquote cs with
  | case1 cs ih => exact congrArg ('"' :: ·) ih
  | case2 c cs other ih =>
    rw [List.flatMap_cons]
    obtain ⟨rfl, eq⟩ | ⟨-, eq⟩ := written_attributeEntity c
    all_goals rw [eq]
    case inl => exact congrArg ('"' :: ·) ih
    case inr =>
      have other : ¬quoteEntity <+: c :: cs.flatMap (written attributeEntity) := by
        intro h
        obtain ⟨here, later⟩ := List.cons_prefix_cons.mp h
        refine not_prefix_quoteEntity other (List.cons_prefix_cons.mpr ⟨here, ?_⟩)
        exact prefix_of_prefix_flatMap (by decide) later
      rw [List.singleton_append, unquote_cons other, ih]
  | case3 => rfl

theorem unquote_escapeAttribute_iff :
    unquote (escapeAttribute s).toList = s.toList ↔ ¬"&quot;".toList <:+: s.toList := by
  rw [escapeAttribute_eq, toList_replace, unquote_flatMap, unquote_eq_self_iff]
  rfl

theorem writesText_escapeText (s : String) : WritesText s (escapeText s) where
  no_tag         := toList_escapeText s ▸ not_mem_escape s.toList
  entities _ h   := entity_of_suffix (toList_escapeText s ▸ h)
  decoded        := decode_escapeText s
  kept_iff       := by
    simp only [escapeText_eq, replace_eq_self_iff one_lt_length_textEntity, textEntity_eq_none_iff]
    exact ⟨fun h c sign mem => h c mem sign, fun h c mem sign => h c sign mem⟩

theorem writesAttribute_escapeAttribute (s : String) : WritesAttribute s (escapeAttribute s) where
  no_quote mem := by simpa [isQuoted] using Tag.isQuoted_escapeAttribute s _ mem
  unquoted_iff := unquote_escapeAttribute_iff

-- Both are homomorphisms, and looking for signs first makes no difference.
theorem neutral_and_reversible :
    (∀ s, WritesText s (escapeText s) ∧ WritesAttribute s (escapeAttribute s)) ∧
    escapeText.Injective ∧
    (∀ s t, escapeText (s ++ t) = escapeText s ++ escapeText t ∧
      escapeAttribute (s ++ t) = escapeAttribute s ++ escapeAttribute t) ∧
    ∀ s, escapeText s = replace textEntity s ∧ escapeAttribute s = replace attributeEntity s := by
  refine ⟨fun s => ?_, injective_escapeText, fun s t => ?_, fun s => ?_⟩
  · exact ⟨writesText_escapeText s, writesAttribute_escapeAttribute s⟩
  · simp only [escapeText_eq, escapeAttribute_eq, replace_append, and_self]
  · exact ⟨escapeText_eq s, escapeAttribute_eq s⟩

-- Two values that cannot be told apart any more.
example : escapeAttribute "&quot;" = escapeAttribute "\"" := by
  decide

end MarkupTemplate.Escape

import SourcePreprocessor.Proofs.Expr.Lexing
import SourcePreprocessor.Proofs.Text.Escaping
import SourcePreprocessor.Proofs.Text.Trim
import SourcePreprocessor.Text.Escape

/-!
# Text inside markup

In markup an ampersand begins an entity, which goes on to the next semicolon: a name, or in a web
page also a number sign and the decimal code of a character. A markup reserves the characters that
mean something to it, and a text keeps clear of them when each is written as an entity.

> `Markup.encodes`: what is written character by character, the reserved ones as entities, holds no
> reserved character but the ampersands of its entities, and is read back as the text.

A text that looks like an entity itself stays apart from one, since its ampersand is reserved.
-/

namespace SourcePreprocessor.Text

/-- The characters that names of entities and decimal codes are made of. -/
def isEntityPart (c : Char) : Bool := c.isAlphanum || c = '#'

theorem isAscii_of_isEntityPart {c : Char} (h : isEntityPart c = true) : isAscii c = true := by
  unfold isEntityPart Char.isAlphanum at h
  rw [Bool.or_eq_true, Bool.or_eq_true, isAlpha_iff, isDigit_iff, decide_eq_true_eq] at h
  refine decide_eq_true ?_
  rcases h with h | rfl
  · omega
  · decide

/-- A markup. -/
structure Markup where
  /-- The character that an entity stands for, told by its text between the ampersand and the
  semicolon. -/
  entity? : Text → Option Char
  /-- Whether a character has to be written as an entity. -/
  reserved : Char → Bool
  ampersand : reserved '&' = true
  semicolon : reserved ';' = false
  named : ∀ c, isEntityPart c = true → reserved c = false

namespace Markup

/-- The entities of a markup. -/
def escaping (m : Markup) : Escaping Char where
  mark := '&'
  escape? t := do
    let (name, _) ← cutAt? (· = ';') t
    let c ← m.entity? name
    return (c, name.length + 1)
  plain _ := true

/-- The character is written as the text: as itself or as an entity. -/
inductive Writes (m : Markup) (c : Char) : Text → Prop
  | itself (h : m.reserved c = false) : Writes m c [c]
  | entity {name : Text} (hname : ∀ d ∈ name, isEntityPart d = true) (h : m.entity? name = some c) :
    Writes m c ('&' :: (name ++ [';']))

/-- The second text is the first one, written in the markup. -/
structure Encodes (m : Markup) (t written : Text) : Prop where
  /-- Of the reserved characters only the ampersand is written. -/
  raw : ∀ c ∈ written, m.reserved c = true → c = '&'
  /-- Every ampersand begins an entity. -/
  entities : ∀ before after, written = before ++ '&' :: after →
    ∃ name c rest, after = name ++ ';' :: rest ∧ m.entity? name = some c
  /-- It is the first text once its entities are read. -/
  decodes : m.escaping.read written = some t

section Writes

variable {m : Markup} {c : Char} {written : Text}

theorem Writes.reads (h : m.Writes c written) : Reads m.escaping.read written [c] := by
  cases h with
  | itself h =>
    refine Escaping.reads_plain fun d hd => ⟨?_, rfl⟩
    rintro rfl
    rw [← List.mem_singleton.1 hd] at h
    exact Bool.noConfusion (h.symm.trans m.ampersand)
  | @entity name hname h =>
    have hsemicolon : ∀ d ∈ name, decide (d = ';') = false := by
      intro d hd
      refine decide_eq_false ?_
      rintro rfl
      nomatch hname ';' hd
    refine Escaping.reads_escape fun rest => ?_
    show (cutAt? (· = ';') (name ++ [';'] ++ rest)).bind _ = _
    rw [List.append_assoc, cutAt?_append hsemicolon, List.singleton_append, cutAt?_cons (by decide)]
    show (m.entity? (name ++ [])).bind _ = _
    rw [List.append_nil, h, List.length_append]
    rfl

theorem Writes.raw (h : m.Writes c written) {d : Char} (hd : d ∈ written)
    (hreserved : m.reserved d = true) : d = '&' := by
  cases h with
  | itself h =>
    rw [List.mem_singleton.1 hd, h] at hreserved
    nomatch hreserved
  | entity hname h =>
    rcases List.mem_cons.1 hd with hd | hd
    · exact hd
    · rcases List.mem_append.1 hd with hd | hd
      · rw [m.named d (hname d hd)] at hreserved
        nomatch hreserved
      · rw [List.mem_singleton.1 hd, m.semicolon] at hreserved
        nomatch hreserved

/-- The ampersand in what a character is written as begins its entity. -/
theorem Writes.entity_of_ampersand (h : m.Writes c written) {left right : Text}
    (hsplit : written = left ++ '&' :: right) :
    ∃ name, right = name ++ [';'] ∧ m.entity? name = some c := by
  cases h with
  | itself h =>
    have hmem : '&' ∈ [c] := hsplit ▸ List.mem_append_right left List.mem_cons_self
    rw [← List.mem_singleton.1 hmem] at h
    exact Bool.noConfusion (h.symm.trans m.ampersand)
  | @entity name hname h =>
    obtain ⟨rfl, hright⟩ | ⟨left', -, hright⟩ := List.cons_eq_append_iff.1 hsplit
    · exact ⟨name, (List.cons.inj hright).2, h⟩
    · have hmem : '&' ∈ name ++ [';'] := hright ▸ List.mem_append_right left' List.mem_cons_self
      rcases List.mem_append.1 hmem with hmem | hmem
      · nomatch hname '&' hmem
      · exact absurd hmem (by decide)

/-- A text that is written character by character is written in the markup. -/
theorem encodes {write : Char → Text} (hwrite : ∀ c, m.Writes c (write c)) (t : Text) :
    m.Encodes t (t.flatMap write) where
  raw d hd hreserved := by
    obtain ⟨c, -, hd⟩ := List.mem_flatMap.1 hd
    exact (hwrite c).raw hd hreserved
  entities before after h := by
    obtain ⟨done, c, later, left, right, -, hc, -, rfl⟩ := exists_written h
    obtain ⟨name, rfl, hname⟩ := (hwrite c).entity_of_ampersand hc
    exact ⟨name, c, later.flatMap write, by rw [List.append_assoc]; rfl, hname⟩
  decodes := by
    have hreads := Reads.flatMap fun c (_ : c ∈ t) => (hwrite c).reads
    rw [List.flatMap_singleton'] at hreads
    exact hreads.whole rfl

end Writes

end Markup

/-! ## XML and web pages -/

/-- The entities that XML and web pages share. -/
def sharedEntities : List (Text × Char) :=
  [("amp".toList, '&'), ("lt".toList, '<'), ("gt".toList, '>'), ("quot".toList, '"')]

/-- XML, with the apostrophe among its entities. -/
def xml : Markup where
  entity? name := (("apos".toList, '\'') :: sharedEntities).lookup name
  reserved c := c ∈ ['&', '<', '>', '"', '\'']
  ampersand := rfl
  semicolon := rfl
  named c h := by
    have hparts : ['&', '<', '>', '"', '\''].any isEntityPart = false := by decide
    exact decide_eq_false fun hmem => List.any_eq_false.1 hparts c hmem h

/-- The character of a number sign and its decimal code. -/
def characterReference? : Text → Option Char
  | '#' :: digits =>
    if !digits.isEmpty && digits.all Char.isDigit then scalar? (Number.ofDigits digits) else none
  | _ => none

/-- A web page that is ASCII only: other characters are written by their codes. -/
def html : Markup where
  entity? name :=
    match sharedEntities.lookup name with
    | some c => some c
    | none => characterReference? name
  reserved c := c ∈ ['&', '<', '>', '"'] || !isAscii c
  ampersand := rfl
  semicolon := rfl
  named c h := by
    have hparts : ['&', '<', '>', '"'].any isEntityPart = false := by decide
    have hnone : decide (c ∈ ['&', '<', '>', '"']) = false :=
      decide_eq_false fun hmem => List.any_eq_false.1 hparts c hmem h
    rw [hnone, isAscii_of_isEntityPart h]
    rfl

/-- The shared entities are written for their characters, and for no other. -/
theorem entity?_cases (c : Char) :
    (∃ name, (name, c) ∈ sharedEntities ∧ entity? c = some ('&' :: (name ++ [';']))) ∨
      c ∉ ['&', '<', '>', '"'] ∧ entity? c = none := by
  unfold entity?
  split
  · exact .inl ⟨"amp".toList, by decide, rfl⟩
  · exact .inl ⟨"lt".toList, by decide, rfl⟩
  · exact .inl ⟨"gt".toList, by decide, rfl⟩
  · exact .inl ⟨"quot".toList, by decide, rfl⟩
  · next hand hless hgreater hquote =>
    refine .inr ⟨?_, rfl⟩
    simp only [List.mem_cons, List.not_mem_nil, or_false, not_or]
    exact ⟨hand, hless, hgreater, hquote⟩

/-- Markup that knows the shared entities can be written with them. -/
theorem writes_shared {m : Markup} (h : ∀ entry ∈ sharedEntities, m.entity? entry.1 = some entry.2)
    {name : Text} {c : Char} (hmem : (name, c) ∈ sharedEntities) :
    m.Writes c ('&' :: (name ++ [';'])) := by
  have hparts : ∀ entry ∈ sharedEntities, entry.1.all isEntityPart = true := by decide
  exact .entity (List.all_eq_true.1 (hparts _ hmem)) (h _ hmem)

theorem writes_xmlChar (c : Char) : xml.Writes c (xmlChar c) := by
  unfold xmlChar
  obtain ⟨name, hmem, hentity⟩ | ⟨hnone, hentity⟩ := entity?_cases c
  · rw [hentity]
    exact writes_shared (by decide) hmem
  · rw [hentity]
    dsimp only
    split
    · next h =>
      have hname : "apos".toList.all isEntityPart = true := by decide
      rw [h]
      exact .entity (List.all_eq_true.1 hname) rfl
    · next h =>
      refine .itself (decide_eq_false ?_)
      rw [show ['&', '<', '>', '"', '\''] = ['&', '<', '>', '"'] ++ ['\''] from rfl,
        List.mem_append, List.mem_singleton, not_or]
      exact ⟨hnone, h⟩

theorem characterReference?_decimal (c : Char) :
    characterReference? ('#' :: Number.decimal c.toNat) = some c := by
  have hne : (Number.decimal c.toNat).isEmpty = false :=
    List.isEmpty_eq_false_iff.2 Nat.toDigits_ne_nil
  have hdigits : (Number.decimal c.toNat).all Char.isDigit = true :=
    List.all_eq_true.2 fun d => Number.isDigit_of_mem_decimal
  rw [characterReference?, hne, hdigits, Number.ofDigits_decimal, scalar?_toNat]
  rfl

theorem writes_htmlChar (c : Char) : html.Writes c (htmlChar c) := by
  unfold htmlChar
  obtain ⟨name, hmem, hentity⟩ | ⟨hnone, hentity⟩ := entity?_cases c
  · rw [hentity]
    exact writes_shared (by decide) hmem
  · rw [hentity]
    dsimp only
    split
    · next hascii =>
      refine .itself ?_
      show (decide (c ∈ ['&', '<', '>', '"']) || !isAscii c) = false
      rw [decide_eq_false hnone, hascii]
      rfl
    · have hname : ∀ d ∈ '#' :: Number.decimal c.toNat, isEntityPart d = true := by
        rw [List.forall_mem_cons]
        refine ⟨rfl, fun d hd => ?_⟩
        rw [isEntityPart, Char.isAlphanum, Number.isDigit_of_mem_decimal hd, Bool.or_true]
        rfl
      exact .entity hname (characterReference?_decimal c)

/-- What is written for a web page is read back, and nothing in it is taken for markup. -/
theorem html_encodes (t : Text) : html.Encodes t (escapeHtml t) := Markup.encodes writes_htmlChar t

theorem xml_encodes (t : Text) : xml.Encodes t (escapeXml t) := Markup.encodes writes_xmlChar t

end SourcePreprocessor.Text

import SourcePreprocessor.Number.Numeral
import SourcePreprocessor.Text.Line

/-!
# Escaping

Text that goes into a document of another format is escaped for it: web pages, XML, fields of comma
separated values, and string literals of scripts and of Java. All but the separated values replace
each character on its own, so each is a `flatMap` of what it does to one character.
-/

namespace SourcePreprocessor.Text

/-- The characters that markup reserves, as entities. -/
def entity? : Char → Option Text
  | '&' => some "&amp;".toList
  | '<' => some "&lt;".toList
  | '>' => some "&gt;".toList
  | '"' => some "&quot;".toList
  | _ => none

/-- A character of a web page: reserved ones as entities, those beyond ASCII as numbers. -/
def htmlChar (c : Char) : Text :=
  match entity? c with
  | some entity => entity
  | none => if isAscii c then [c] else "&#".toList ++ Number.decimal c.toNat ++ [';']

/-- Text for a web page. -/
def escapeHtml (t : Text) : Text := t.flatMap htmlChar

/-- A character of an XML document: the reserved ones and the apostrophe as entities. -/
def xmlChar (c : Char) : Text :=
  match entity? c with
  | some entity => entity
  | none => if c = '\'' then "&apos;".toList else [c]

/-- Text for an XML document. -/
def escapeXml (t : Text) : Text := t.flatMap xmlChar

/-- Whether a field of comma separated values needs quotes around it. -/
def needsQuotes (t : Text) : Bool := t.any fun c => c = ',' || c = '"' || c = '\n' || c = '\r'

/-- The text with every double quote written twice. -/
def doubleQuotes (t : Text) : Text := t.flatMap fun c => if c = '"' then ['"', '"'] else [c]

/-- A field of comma separated values, in quotes when it holds a separator, a quote or a line
break. -/
def escapeCsv (t : Text) : Text :=
  if needsQuotes t then '"' :: doubleQuotes t ++ ['"'] else t

/-- The letter that follows the backslash in the escape of a character, for those that have one. -/
def escapeLetter? : Char → Option Char
  | '\\' => some '\\'
  | '"' => some '"'
  | '\n' => some 'n'
  | '\r' => some 'r'
  | '\t' => some 't'
  | '\x08' => some 'b'
  | '\x0c' => some 'f'
  | _ => none

/-- The escape of a character inside a string literal, for those that need one: a letter, or the
code of a control character. -/
def literalEscape? (c : Char) : Option Text :=
  if c = '\'' then some ['\\', '\'']
  else match escapeLetter? c with
    | some letter => some ['\\', letter]
    | none => if isControl c then some ('\\' :: 'u' :: Number.upperHex4 c.toNat) else none

/-- A character of a script's string literal; the slash is escaped so that no literal can end the
element around it. -/
def scriptChar (c : Char) : Text :=
  if c = '/' then ['\\', '/'] else (literalEscape? c).getD [c]

/-- Text for a string literal of a script. -/
def escapeScript (t : Text) : Text := t.flatMap scriptChar

/-- The UTF-16 code units of a character. -/
def utf16 (c : Char) : List Nat :=
  if c.toNat < 0x10000 then [c.toNat]
  else [0xD800 + (c.toNat - 0x10000) / 0x400, 0xDC00 + (c.toNat - 0x10000) % 0x400]

/-- A character of a Java string literal; those beyond ASCII are written as their code units. -/
def javaChar (c : Char) : Text :=
  match literalEscape? c with
  | some escape => escape
  | none =>
    if isAscii c then [c] else (utf16 c).flatMap fun unit => '\\' :: 'u' :: Number.upperHex4 unit

/-- Text for a Java string literal. -/
def escapeJava (t : Text) : Text := t.flatMap javaChar

/-- Text for a sum of Java string literals, one per line. -/
def escapeJavaLines (t : Text) : Text :=
  join ['"', '\n', '+', '"'] ((splitLines t).map fun line => escapeJava line.text)

/-- A character of a literal of the expression language. -/
def quotedChar (c : Char) : Text :=
  match escapeLetter? c with
  | some letter => ['\\', letter]
  | none => if isControl c then '\\' :: 'u' :: Number.hex4 c.toNat else [c]

/-- A literal of the expression language. -/
def quote (t : Text) : Text := '"' :: t.flatMap quotedChar ++ ['"']

end SourcePreprocessor.Text

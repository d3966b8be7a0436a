import Quire.Highlight.Grammar.CSharp
import Quire.Highlight.Grammar.Html
import Quire.Highlight.Grammar.Css
import Quire.Highlight.Grammar.JavaScript
import Quire.Highlight.Grammar.TypeScript
import Quire.Highlight.Markup
import Quire.Text.Blank

/-!
# Languages

The languages that come with a grammar, and the names they go by. A name is read without the blanks
around it and without regard to the case of its ASCII letters; it is the name of the grammar or one
of its aliases.
-/

namespace Quire.Highlight

/-- A language that comes with a grammar. -/
inductive Language where
  | csharp
  | html
  | css
  | javascript
  | typescript
  deriving Repr, DecidableEq, Inhabited

/-- A name that no language goes by, as it was given. -/
structure UnknownLanguage where
  name : String
  deriving Repr, DecidableEq

/-- What is said of an unknown language. -/
def UnknownLanguage.message (e : UnknownLanguage) : String :=
  s!"unknown language: {e.name}"

namespace Language

/-- Every language, in the order in which names are looked up. -/
def all : List Language :=
  [csharp, html, css, javascript, typescript]

/-- The grammar of a language. -/
def grammar : Language → Grammar
  | csharp => .csharp
  | html => .html
  | css => .css
  | javascript => .javascript
  | typescript => .typescript

/-- The name of a language. -/
def name (l : Language) : String :=
  l.grammar.name

/-- The lexer of a language. Every grammar above can be run, so nothing is ever left out of it. -/
def lexer (l : Language) : Lexer :=
  match l.grammar.compile with
  | .ok lexer => lexer
  | .error _ => ⟨l.name, [], [], [], false⟩

/-- The language that goes by a name. -/
def ofName (name : String) : Except UnknownLanguage Language :=
  let wanted := Text.lowercaseAscii (Text.trimmed name)
  match all.find? fun l => l.name == wanted || l.grammar.aliases.contains wanted with
  | some l => .ok l
  | none => .error ⟨name⟩

end Language

/-- A source as markup with the tokens marked that a language has in it. -/
def highlight (source : String) (language : Language) : String :=
  language.lexer.highlight source

end Quire.Highlight

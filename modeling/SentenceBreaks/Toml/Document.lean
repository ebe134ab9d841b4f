import SentenceBreaks.Toml.Statement

/-! TOML documents. A document is the table that its statements build up; the definitions behind a
header belong to the table of the header. -/

namespace SentenceBreaks.Toml

/-- The fields of the document so far, and the path of the table that definitions go to. -/
structure Document where
  fields : Fields
  place : List Key

namespace Document

def change (change : Fields.Change) (place : List Key) (document : Document) : Option Document := do
  let (_, fields) ← change .header document.fields
  return ⟨fields, place⟩

def add (document : Document) : Statement → Option Document
  | .define path key value =>
      document.change (Fields.alter false (Fields.define path key value) document.place)
        document.place
  | .header path key => document.change (Fields.name path key) (path ++ [key])
  | .element path key => document.change (Fields.extend path key) (path ++ [key])

def withoutMark : List Char → List Char
  | '\ufeff' :: rest => rest
  | cs => cs

/-- Reads a document, which may begin with a byte order mark. -/
def read (cs : List Char) : Option Fields := do
  let text := withoutMark cs
  let statements ← Statement.readAll (text.length + 1) text
  return (← statements.foldlM add ⟨[], []⟩).fields

end Document

end SentenceBreaks.Toml

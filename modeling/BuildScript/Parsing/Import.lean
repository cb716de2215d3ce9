import BuildScript.Text.Source

namespace BuildScript

/-- The answer to an import. A program is read in place of the import; an
external thing is known but cannot be imported; a failure may come with a
remark for the journal. -/
inductive Resolution where
  | program (source : Source)
  | external
  | failed (remark : Option String)

/-- Specifiers with what they stand for. The first entry of a specifier
counts, and a specifier without one fails. -/
structure ImportTable where
  entries : List (String × Resolution)

namespace ImportTable

def empty : ImportTable := ⟨[]⟩

def resolve (table : ImportTable) (specifier : String) : Resolution :=
  (table.entries.lookup specifier).getD (.failed none)

/-- How deep imports can nest without going round in a circle, the program
itself included. -/
def depth (table : ImportTable) : Nat := table.entries.length + 1

end ImportTable

end BuildScript

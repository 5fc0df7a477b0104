import Milp.Value.Text

/-!
# Phrases

A wording may show values, and some values are objects whose text depends on what they hold. A
phrase is a wording in which such values stand as they are, until it is written out where the
objects are known.
-/

namespace Milp

/-- A part of a phrase. -/
inductive Phrase.Part where
  | text (s : String)
  | literal (v : Value)
  | plain (v : Value)
  /-- A value as it is written within a larger text. -/
  | within (v : Value)
  deriving Repr, Inhabited

/-- A wording, part by part. -/
structure Phrase where
  parts : List Phrase.Part
  deriving Repr, Inhabited

namespace Phrase

def ofText (s : String) : Phrase := ⟨[.text s]⟩

instance : Coe String Phrase := ⟨ofText⟩

instance : Append Phrase := ⟨fun p q => ⟨p.parts ++ q.parts⟩⟩

def literal (v : Value) : Phrase := ⟨[.literal v]⟩

def plain (v : Value) : Phrase := ⟨[.plain v]⟩

/-- A value as it is written within a larger text. -/
def within (v : Value) : Phrase := ⟨[.within v]⟩

@[simp] theorem parts_append (p q : Phrase) : (p ++ q).parts = p.parts ++ q.parts := rfl

@[simp] theorem parts_ofText (s : String) : (ofText s).parts = [.text s] := rfl

end Phrase

end Milp

import QueryViews.Artifact

/-!
# Assemblies of documents

An assembly is any unit that may carry artifacts, and may refer to other assemblies. This one
holds its artifacts as documents and reads them all or not at all.
-/

namespace QueryViews

/-- An assembly that holds its artifacts as documents. -/
inductive DocumentAssembly
  | mk (name : String) (documents : List String) (references : List DocumentAssembly)

namespace DocumentAssembly

/-- The name of an assembly. -/
def name : DocumentAssembly → String
  | .mk name _ _ => name

/-- The documents that an assembly holds. -/
def documents : DocumentAssembly → List String
  | .mk _ documents _ => documents

/-- The assemblies that this one refers to directly. -/
def references : DocumentAssembly → List DocumentAssembly
  | .mk _ _ references => references

/-- Reads the document at a place; its error names the place. -/
def read (assembly : String) (document : String) (index : Nat) : Except Error Artifact :=
  match Artifact.parse document with
  | .ok a => .ok a
  | .error e => .error (e.within (.plain s!"document {index} of assembly `{assembly}`"))

/-- All artifacts, or the error of the first document that is none. -/
def artifacts (a : DocumentAssembly) : Except Error (List Artifact) :=
  a.documents.zipIdx.mapM fun (document, index) => read a.name document index

end DocumentAssembly

end QueryViews

/-!
Names in the syntax tree. A name keeps the qualifier it was written with and the namespace that the
qualifier stands for; two names are the same if namespace and local part agree.
-/

namespace XQuerySyntax

/-- A name as written, with the namespace found for it. A name without a namespace is either in
none, or its qualifier is not bound to one. -/
structure QName where
  qualifier : Option String
  localPart : String
  namespaceUri : Option String
  deriving DecidableEq, Repr, Inhabited

/-- What makes two names the same. -/
structure ExpandedName where
  namespaceUri : Option String
  localPart : String
  deriving DecidableEq, Repr, Inhabited

namespace QName

/-- The name apart from its qualifier. -/
def expanded (n : QName) : ExpandedName := ⟨n.namespaceUri, n.localPart⟩

/-- The name as written. -/
def text (n : QName) : String :=
  match n.qualifier with
  | some q => q ++ ":" ++ n.localPart
  | none => n.localPart

end QName

/-- The name with its namespace in braces. -/
def ExpandedName.text (n : ExpandedName) : String :=
  match n.namespaceUri with
  | some uri => "Q\x7b" ++ uri ++ "\x7d" ++ n.localPart
  | none => n.localPart

/-- A test on names. -/
inductive NameTest where
  | name (name : QName)
  /-- Any name. -/
  | any
  /-- Any name of a namespace. -/
  | inNamespace (qualifier : String) (namespaceUri : Option String)
  /-- A local name in any namespace. -/
  | localPart (name : String)
  deriving DecidableEq, Repr, Inhabited

end XQuerySyntax

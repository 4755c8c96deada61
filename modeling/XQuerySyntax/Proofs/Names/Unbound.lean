import XQuerySyntax.Proofs.Tree.Contents

/-! Unbound names: those whose qualifier stands for no namespace. For each part of a tree the qualifiers
of the unbound names in it are listed in the order of its fields, the names in expressions inside the
part left out; for a tree they are collected from its nodes. -/

namespace XQuerySyntax

variable {ε : Type}

/-! ### Names and types -/

/-- The qualifier of a name without a namespace. -/
def QName.unbound (n : QName) : List String :=
  if n.namespaceUri.isNone then n.qualifier.toList else []

/-- A name test is on a name, or on any name with a qualifier. -/
def NameTest.unbound : NameTest → List String
  | .name n => n.unbound
  | .inNamespace qualifier none => [qualifier]
  | .any | .inNamespace _ (some _) | .localPart _ => []

def ElementName.unbound : ElementName → List String
  | .name n => n.unbound
  | .wildcard => []

def ContentType.unbound (t : ContentType) : List String := t.typeName.unbound

def KindTest.unbound : KindTest → List String
  | .document none => []
  | .document (some root) => root.unbound
  | .element name type | .attribute name type =>
    name.toList.flatMap ElementName.unbound ++ type.toList.flatMap ContentType.unbound
  | .schemaElement name | .schemaAttribute name => name.unbound
  | .processingInstruction _ | .comment | .text | .namespaceNode | .anyKind => []

def NodeTest.unbound : NodeTest → List String
  | .name test => test.unbound
  | .kind test => test.unbound

mutual

def SequenceType.unbound : SequenceType → List String
  | .mk itemType _ => itemType.unbound

def ItemType.unbound : ItemType → List String
  | .atomicOrUnion name => name.unbound
  | .kindTest test => test.unbound
  | .functionTest params returnType => SequenceType.unboundInAll params ++ returnType.unbound
  | .parenthesized inner => inner.unbound
  | .emptySequence | .item | .anyFunction => []

def SequenceType.unboundInAll : List SequenceType → List String
  | [] => []
  | t :: ts => t.unbound ++ SequenceType.unboundInAll ts

end

theorem SequenceType.unboundInAll_eq (ts : List SequenceType) :
    SequenceType.unboundInAll ts = ts.flatMap SequenceType.unbound := by
  induction ts with
  | nil => rfl
  | cons t ts ih => rw [SequenceType.unboundInAll, ih, List.flatMap_cons]

def SingleType.unbound (t : SingleType) : List String := t.typeName.unbound

/-! ### Full text -/

def Pragma.unbound (p : Pragma) : List String := p.name.unbound

def FtMatchOptions.unbound (o : FtMatchOptions) : List String :=
  o.extensions.flatMap fun p => p.1.unbound

/-- Those of nested selections are included. -/
def FtSelection.unbound : FtSelection ε → List String
  | .or operands => operands.flatMap fun s => s.unbound
  | .and operands => operands.flatMap fun s => s.unbound
  | .mildNot operands => operands.flatMap fun s => s.unbound
  | .not operand => operand.unbound
  | .words .. | .computedWords .. => []
  | .withOptions selection options _ => selection.unbound ++ options.unbound
  | .positional selection _ => selection.unbound
  | .extension pragmas none => pragmas.flatMap Pragma.unbound
  | .extension pragmas (some selection) => pragmas.flatMap Pragma.unbound ++ selection.unbound

/-! ### Clauses and bindings -/

def ForBinding.unbound (b : ForBinding ε) : List String :=
  b.name.unbound ++ b.typeDecl.toList.flatMap SequenceType.unbound
    ++ b.positional.toList.flatMap QName.unbound ++ b.score.toList.flatMap QName.unbound

def LetBinding.unbound (b : LetBinding ε) : List String :=
  b.name.unbound ++ b.typeDecl.toList.flatMap SequenceType.unbound

def WindowVars.unbound (v : WindowVars) : List String := v.names.flatMap QName.unbound

def WindowCondition.unbound (w : WindowCondition ε) : List String := w.names.unbound

def GroupingSpec.unbound (g : GroupingSpec ε) : List String := g.name.unbound

def Clause.unbound : Clause ε → List String
  | .forEach bindings => bindings.flatMap ForBinding.unbound
  | .letBe bindings => bindings.flatMap LetBinding.unbound
  | .window _ name typeDecl _ start finish =>
    name.unbound ++ typeDecl.toList.flatMap SequenceType.unbound ++ start.unbound
      ++ finish.toList.flatMap WindowCondition.unbound
  | .count name => name.unbound
  | .filter _ => []

def Flwor.unbound (q : Flwor ε) : List String :=
  q.clauses.flatMap Clause.unbound ++ q.groupBy.flatMap GroupingSpec.unbound
    ++ q.postGroup.flatMap Clause.unbound

def Param.unbound (p : Param) : List String :=
  p.name.unbound ++ p.typeDecl.toList.flatMap SequenceType.unbound

def AnnotationDecl.unbound (a : AnnotationDecl) : List String := a.name.unbound

def TypeswitchCase.unbound (c : TypeswitchCase ε) : List String :=
  c.name.toList.flatMap QName.unbound ++ c.types.flatMap SequenceType.unbound

def CatchClause.unbound (k : CatchClause ε) : List String :=
  k.tests.flatMap NameTest.unbound ++ k.names.flatMap QName.unbound

def VariableBinding.unbound (b : VariableBinding ε) : List String :=
  b.name.unbound ++ b.typeDecl.toList.flatMap SequenceType.unbound

def BlockVarDecl.unbound (d : BlockVarDecl ε) : List String :=
  d.name.unbound ++ d.typeDecl.toList.flatMap SequenceType.unbound

/-! ### Constructors -/

def DirAttribute.unbound (a : DirAttribute ε) : List String := a.name.unbound

def DirElement.unbound (e : DirElement ε) : List String :=
  e.name.unbound ++ e.attributes.flatMap DirAttribute.unbound

def ComputedName.unbound : ComputedName ε → List String
  | .literal name => name.unbound
  | .expr _ => []

/-! ### Expressions -/

/-- The qualifiers of the unbound names that a form is written with, those of the nodes inside it left
out. -/
def ExprKind.unbound : ExprKind ε → List String
  | .varRef name | .functionCall name _ | .namedFunctionRef name _ | .assign name _ => name.unbound
  | .instanceOf _ type | .treatAs _ type => type.unbound
  | .castableAs _ type | .castAs _ type => type.unbound
  | .step _ test _ => test.unbound
  | .inlineFunction annotations params returnType _ =>
    annotations.flatMap AnnotationDecl.unbound ++ params.flatMap Param.unbound
      ++ returnType.toList.flatMap SequenceType.unbound
  | .flwor query => query.unbound
  | .quantified _ bindings _ | .transform bindings _ _ => bindings.flatMap VariableBinding.unbound
  | .typeswitch _ cases defaultVar _ =>
    cases.flatMap TypeswitchCase.unbound ++ defaultVar.toList.flatMap QName.unbound
  | .tryCatch _ catches => catches.flatMap CatchClause.unbound
  | .validate _ typeName _ => typeName.toList.flatMap QName.unbound
  | .extension pragmas _ => pragmas.flatMap Pragma.unbound
  | .dirElement element => element.unbound
  | .compElement name _ | .compAttribute name _ | .compNamespace name _ | .compPi name _ => name.unbound
  | .ftContains _ selection _ => selection.unbound
  | .block declarations _ => declarations.flatMap BlockVarDecl.unbound
  | .literal _ | .contextItem | .sequence _ | .binary .. | .range .. | .unary .. | .path .. | .filter ..
  | .argumentPlaceholder | .dynamicCall .. | .ifThenElse .. | .switch .. | .ordered _ | .unordered _
  | .dirComment _ | .dirPi .. | .compDocument _ | .compText _ | .compComment _ | .insert .. | .delete _
  | .replace .. | .rename .. | .whileLoop .. | .exit _ | .breakLoop | .continueLoop => []

/-- The qualifiers of all unbound names in a tree. -/
def Expr.unbound (e : Expr) : List String := e.nodes.flatMap fun n => n.kind.unbound

/-! ### Modules -/

/-- The qualifiers of the unbound names that a declaration is written with, those of its expressions left
out. -/
def DeclarationKind.unbound : DeclarationKind → List String
  | decimalFormat name _ => name.toList.flatMap QName.unbound
  | contextItem itemType _ _ => itemType.toList.flatMap SequenceType.unbound
  | variableDecl d =>
    d.annotations.flatMap AnnotationDecl.unbound ++ d.name.unbound
      ++ d.typeDecl.toList.flatMap SequenceType.unbound
  | functionDecl d =>
    d.annotations.flatMap AnnotationDecl.unbound ++ d.name.unbound ++ d.params.flatMap Param.unbound
      ++ d.returnType.toList.flatMap SequenceType.unbound
  | option name _ => name.unbound
  | ftOption options => options.unbound
  | boundarySpace _ | defaultCollation _ | baseUri _ | construction _ | ordering _ | emptyOrder _
  | copyNamespaces .. | namespaceDecl .. | defaultNamespace .. | schemaImport _ | moduleImport _
  | revalidation _ => []

/-- The qualifiers of all unbound names in a module, in declarations and in expressions. -/
def Module.unbound (m : Module) : List String :=
  m.declared.flatMap DeclarationKind.unbound ++ m.nodes.flatMap fun n => n.kind.unbound

end XQuerySyntax

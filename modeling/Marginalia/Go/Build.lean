/-
Module: Marginalia.Go.Build
Purpose: The declarations of a source file, read off its syntax tree.
Main exports:
  leadingComments, trailingComments, typeExpr, SourceUnit.ofTree, ParseError, SourceUnit.parse
-/
import Marginalia.Go.Grammar.SourceFile
import Marginalia.Go.Unit

namespace Marginalia.Go

/-! ### Comment groups

The comments directly above a node document it, and those behind it on its last line belong to it.
-/

/-- Whether a comment shares its line with what stands before it: it then belongs to that. -/
def sharesLine (comment : Tree) : (before : List Tree) → Bool
  | previous :: _ => !previous.isComment && previous.stop.row == comment.start.row
  | [] => false

/-- The comments right above a row, nearest first; `before` lists what stands before it, nearest
first. -/
def commentsAbove (row : Nat) : (before : List Tree) → List Tree
  | [] => []
  | c :: before =>
    if !c.isComment || c.stop.row + 1 < row || sharesLine c before then []
    else c :: commentsAbove c.start.row before

/-- The comments that document a node, in source order. -/
def leadingComments (before : List Tree) (t : Tree) : List Tree :=
  (commentsAbove t.start.row before).reverse

/-- The comments behind a node that start on the row where it stops. -/
def trailingComments (t : Tree) (after : List Tree) : List Tree :=
  after.takeWhile fun c => c.isComment && c.start.row == t.stop.row

/-- The text of a node. -/
def Node.text (source : String) (t : Tree) : String :=
  t.span.text source

/-- Comments as a group, if there are any. -/
def groupOf (source : String) (comments : List Tree) : Option CommentGroup :=
  match comments, comments.getLast? with
  | first :: _, some last =>
    some {
      span := ⟨first.start.offset, last.stop.offset⟩
      comments := comments.map (·.text source) }
  | _, _ => none

/-- The group that documents a node. -/
def leadingGroup (source : String) (before : List Tree) (t : Tree) : Option CommentGroup :=
  groupOf source (leadingComments before t)

/-- The group behind a node. -/
def trailingGroup (source : String) (t : Tree) (after : List Tree) : Option CommentGroup :=
  groupOf source (trailingComments t after)

/-! ### Types -/

/-- The texts of the children in the role of a name. -/
def namesOf (source : String) (children : List Tree) : List String :=
  (children.filter (·.role == some .name)).map (·.text source)

/-- The text of the first child in a role. -/
def roleText? (source : String) (role : Role) (children : List Tree) : Option String :=
  (children.find? (·.role == some role)).map (·.text source)

/-- A field from the children of its node, given the type in its role. A star before an embedded
type makes it a pointer. -/
def fieldOf (source : String) (t : Tree) (type : TypeExpr) (doc comment : Option CommentGroup) :
    Field :=
  let names := namesOf source t.children
  let type :=
    match names, t.childOfKind? (.mark .star) with
    | [], some star =>
      let span : Span := ⟨star.start.offset, type.span.stop⟩
      .mk span (span.text source) (.pointer type)
    | _, _ => type
  .mk names type (roleText? source .tag t.children) t.span doc comment

/-- A method of an interface: its type is all that follows the name. -/
def methodOf (source : String) (t name : Tree) (doc comment : Option CommentGroup) : Field :=
  let span : Span := ⟨name.stop.offset, t.stop.offset⟩
  let text := String.ofList (Text.trim (span.text source).toList)
  .mk [name.text source] (.mk span text .func) none t.span doc comment

mutual

/-- The type that a node stands for. -/
def typeExpr (source : String) : Tree → TypeExpr
  | .node kind role start stop children =>
    let whole : Tree := .node kind role start stop children
    let what : TypeKind :=
      match kind with
      | .typeIdentifier => .ident (whole.text source)
      | .qualifiedType =>
        .qualified ((roleText? source .package children).getD "")
          ((roleText? source .name children).getD "")
      | .pointerType =>
        match firstNamedType source children with
        | some element => .pointer element
        | none => .other kind
      | .structType => .struct (structFields source children)
      | .interfaceType => .interface (interfaceElements source [] children)
      | .mapType => .map
      | .arrayType => .array
      | .sliceType => .array
      | .functionType => .func
      | other => .other other
    .mk whole.span (whole.text source) what

/-- The type of the first named node. -/
def firstNamedType (source : String) : List Tree → Option TypeExpr
  | [] => none
  | t :: ts => if t.isNamed then some (typeExpr source t) else firstNamedType source ts

/-- The type of the first node in the role of a type. -/
def roleType (source : String) : List Tree → Option TypeExpr
  | [] => none
  | t :: ts => if t.role == some .type then some (typeExpr source t) else roleType source ts

/-- The fields of the first field list. -/
def structFields (source : String) : List Tree → List Field
  | [] => []
  | t :: ts =>
    if t.kind == .fieldDeclarationList then listFields source t else structFields source ts

/-- The fields of a field list. -/
def listFields (source : String) : Tree → List Field
  | .node _ _ _ _ children => fieldDeclarations source [] children

/-- The fields among siblings; `before` lists those already passed, nearest first. -/
def fieldDeclarations (source : String) (before : List Tree) : List Tree → List Field
  | [] => []
  | t :: ts =>
    let others := fieldDeclarations source (t :: before) ts
    if t.kind == .fieldDeclaration then
      match fieldType source t with
      | some type =>
        fieldOf source t type (leadingGroup source before t) (trailingGroup source t ts) :: others
      | none => others
    else others

/-- The type of a field. -/
def fieldType (source : String) : Tree → Option TypeExpr
  | .node _ _ _ _ children => roleType source children

/-- The elements of an interface among siblings; `before` lists those already passed. -/
def interfaceElements (source : String) (before : List Tree) : List Tree → List Field
  | [] => []
  | t :: ts =>
    let others := interfaceElements source (t :: before) ts
    let doc := leadingGroup source before t
    let comment := trailingGroup source t ts
    match t.kind with
    | .methodElem =>
      match t.childInRole? .name with
      | some name => methodOf source t name doc comment :: others
      | none => others
    | .typeElem =>
      .mk [] (elementType source t) none t.span doc comment :: others
    | _ => others

/-- The type of an interface element: that of its only named child, or the whole. -/
def elementType (source : String) : Tree → TypeExpr
  | .node kind role start stop children =>
    let whole : Tree := .node kind role start stop children
    if (children.filter Node.isNamed).length == 1 then
      (firstNamedType source children).getD (.mk whole.span (whole.text source) (.other kind))
    else .mk whole.span (whole.text source) (.other kind)

end

/-! ### Declarations -/

/-- The path that a string literal spells. -/
def unquote (literal : String) : String :=
  let isQuote (c : Char) : Bool := c == '"' || c == '\x60'
  String.ofList (Text.dropEndWhile isQuote (literal.toList.dropWhile isQuote))

/-- The path of an import spec. -/
def specPath (source : String) (spec : Tree) : String :=
  ((spec.childInRole? .path).map fun t => unquote (t.text source)).getD ""

/-- The import specs of a declaration and the node that holds them. -/
def importSpecs (decl : Tree) : List Tree :=
  let holder := (decl.childOfKind? .importSpecList).getD decl
  holder.children.filter (·.kind == .importSpec)

/-- An import declaration. -/
def importDecl (source : String) (decl : Tree) : ImportDecl where
  span := decl.span
  close := do
    let list ← decl.childOfKind? .importSpecList
    let paren ← list.childOfKind? (.mark .parenR)
    return paren.start.offset
  specs := (importSpecs decl).map fun spec => (spec.span, specPath source spec)

/-- The imports of a declaration. -/
def importsOf (source : String) (decl : Tree) : Imports :=
  (importSpecs decl).map fun spec =>
    { name := (spec.childInRole? .name).map (·.text source), path := specPath source spec }

/-- A function or method. Its signature runs from the parameters to the end of the result. -/
def funcDecl (source : String) (t : Tree) (doc : Option CommentGroup) : FuncDecl :=
  let name := t.childInRole? .name
  let signature : String :=
    match t.childInRole? .parameters with
    | none => ""
    | some ps =>
      let last := (t.childInRole? .result).getD ps
      (Span.mk ps.start.offset last.stop.offset).text source
  { name := (name.map (·.text source)).getD ""
    nameSpan := (name.map (·.span)).getD ⟨0, 0⟩
    receiver := roleText? source .receiver t.children
    signature
    span := t.span
    doc }

/-- The spec that a node stands for, if it is one. -/
def specOf? (source : String) (t : Tree) (doc comment : Option CommentGroup) : Option Spec :=
  match t.kind with
  | .typeSpec | .typeAlias => do
    let name ← t.childInRole? .name
    let type ← t.childInRole? .type
    return .type {
      name := name.text source
      nameSpan := name.span
      isAlias := t.kind == .typeAlias
      type := typeExpr source type
      span := t.span
      doc
      comment }
  | .varSpec | .constSpec =>
    some (.value {
      names := namesOf source (t.children.filter (·.kind == .identifier))
      type := (t.childInRole? .type).map (typeExpr source)
      span := t.span
      doc
      comment })
  | _ => none

/-- The specs among siblings; a spec without a comment behind it has the one of its declaration,
if it stands alone there. -/
def specsOf (source : String) (fallback : Option CommentGroup) (before : List Tree) :
    List Tree → List Spec
  | [] => []
  | t :: ts =>
    let comment := (trailingGroup source t ts).or fallback
    let others := specsOf source fallback (t :: before) ts
    match specOf? source t (leadingGroup source before t) comment with
    | some spec => spec :: others
    | none => others

/-- A declaration of types, variables or constants, among its siblings. -/
def genDecl (source : String) (word : GenWord) (before : List Tree) (t : Tree)
    (after : List Tree) : GenDecl :=
  let holder := (t.childOfKind? .varSpecList).getD t
  let grouped := holder.children.any (·.kind == .mark .parenL)
  let fallback := if grouped then none else trailingGroup source t after
  { word
    span := t.span
    grouped
    doc := leadingGroup source before t
    specs := specsOf source fallback [] holder.children }

/-- The declarations among the nodes of a file. -/
def declsOf (source : String) (before : List Tree) : List Tree → List Decl
  | [] => []
  | t :: ts =>
    let others := declsOf source (t :: before) ts
    match t.kind with
    | .functionDeclaration => .func (funcDecl source t (leadingGroup source before t)) :: others
    | .methodDeclaration => .func (funcDecl source t (leadingGroup source before t)) :: others
    | .typeDeclaration => .gen (genDecl source .type before t ts) :: others
    | .varDeclaration => .gen (genDecl source .var before t ts) :: others
    | .constDeclaration => .gen (genDecl source .const before t ts) :: others
    | _ => others

/-- Why a text is no source file. -/
inductive ParseError where
  | encoding (fault : Utf8.Fault)
  | grammar
  | noPackage
deriving Repr, DecidableEq, Inhabited

/-- The wording of a parse error. -/
def ParseError.message : ParseError → String
  | .encoding fault => "invalid UTF-8: " ++ fault.message
  | .grammar => "syntax error"
  | .noPackage => "missing package clause"

/-- The source file with a syntax tree. Of several package clauses the last counts. -/
def SourceUnit.ofTree (path : Path) (source : String) (tree : Tree) :
    Except ParseError SourceUnit :=
  let top := tree.children
  let clauses := top.filter (·.kind == .packageClause)
  match clauses.getLast?.bind (·.childOfKind? .packageIdentifier) with
  | none => .error .noPackage
  | some id =>
    let imported := top.filter (·.kind == .importDeclaration)
    let decls := declsOf source [] top
    .ok {
      path
      source
      package := id.text source
      packageSpan := id.span
      imports := imported.flatMap (importsOf source)
      importDecls := imported.map (importDecl source)
      decls
      objects := ObjectRef.index decls
      indexed := rfl }

/-- Read a source file. -/
def SourceUnit.parse (path : Path) (source : String) : Except ParseError SourceUnit :=
  match Tree.parse? source.toList with
  | some tree => SourceUnit.ofTree path source tree
  | none => .error .grammar

end Marginalia.Go

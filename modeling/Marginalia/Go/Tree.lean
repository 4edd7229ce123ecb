/-
Module: Marginalia.Go.Tree
Purpose: Syntax trees whose nodes have a kind, a role in their parent and an extent.
Main exports:
  Kind, Role, Node, Node.locate, Tree, Tree.attach, Node.span
-/
import Marginalia.Go.Lexeme
import Marginalia.Go.Span

namespace Marginalia.Go

/-- What a node is. Statements and expressions are kept as single nodes: no declaration is read
from the inside of one. -/
inductive Kind where
  | sourceFile | packageClause
  | importDeclaration | importSpecList | importSpec
  | constDeclaration | constSpec
  | varDeclaration | varSpecList | varSpec
  | typeDeclaration | typeSpec | typeAlias
  | functionDeclaration | methodDeclaration
  | typeParameterList | parameterList
  | identifier | typeIdentifier | fieldIdentifier | packageIdentifier
  | rawString | quotedString
  | qualifiedType | genericType | pointerType | structType | interfaceType | mapType | arrayType
  | sliceType | channelType | functionType | negatedType | parenthesizedType
  | fieldDeclarationList | fieldDeclaration | methodElem | typeElem
  | expressionList | expression | block | statement
  | comment
  | keyword (k : Keyword)
  | mark (m : Mark)
deriving Repr, DecidableEq, Inhabited

/-- The name of a kind, as reports about types that are not looked into show it. -/
def Kind.name : Kind → String
  | .sourceFile => "source_file"
  | .packageClause => "package_clause"
  | .importDeclaration => "import_declaration"
  | .importSpecList => "import_spec_list"
  | .importSpec => "import_spec"
  | .constDeclaration => "const_declaration"
  | .constSpec => "const_spec"
  | .varDeclaration => "var_declaration"
  | .varSpecList => "var_spec_list"
  | .varSpec => "var_spec"
  | .typeDeclaration => "type_declaration"
  | .typeSpec => "type_spec"
  | .typeAlias => "type_alias"
  | .functionDeclaration => "function_declaration"
  | .methodDeclaration => "method_declaration"
  | .typeParameterList => "type_parameter_list"
  | .parameterList => "parameter_list"
  | .identifier => "identifier"
  | .typeIdentifier => "type_identifier"
  | .fieldIdentifier => "field_identifier"
  | .packageIdentifier => "package_identifier"
  | .rawString => "raw_string_literal"
  | .quotedString => "interpreted_string_literal"
  | .qualifiedType => "qualified_type"
  | .genericType => "generic_type"
  | .pointerType => "pointer_type"
  | .structType => "struct_type"
  | .interfaceType => "interface_type"
  | .mapType => "map_type"
  | .arrayType => "array_type"
  | .sliceType => "slice_type"
  | .channelType => "channel_type"
  | .functionType => "function_type"
  | .negatedType => "negated_type"
  | .parenthesizedType => "parenthesized_type"
  | .fieldDeclarationList => "field_declaration_list"
  | .fieldDeclaration => "field_declaration"
  | .methodElem => "method_elem"
  | .typeElem => "type_elem"
  | .expressionList => "expression_list"
  | .expression => "expression"
  | .block => "block"
  | .statement => "statement"
  | .comment => "comment"
  | .keyword _ => "keyword"
  | .mark _ => "mark"

/-- What a node is to its parent. -/
inductive Role where
  | name | type | path | parameters | result | receiver | package | tag | body | value
deriving Repr, DecidableEq, Inhabited

/-- A syntax tree with places of some kind. -/
inductive Node (Place : Type) where
  | node (kind : Kind) (role : Option Role) (start stop : Place) (children : List (Node Place))
deriving Repr, Inhabited

/-- A syntax tree with its places in the source. -/
abbrev Tree := Node Point

namespace Node

variable {Place : Type}

/-- The kind of a node. -/
def kind : Node Place → Kind
  | .node k _ _ _ _ => k

/-- The role of a node in its parent. -/
def role : Node Place → Option Role
  | .node _ r _ _ _ => r

/-- Where a node starts. -/
def start : Node Place → Place
  | .node _ _ s _ _ => s

/-- Where a node stops. -/
def stop : Node Place → Place
  | .node _ _ _ e _ => e

/-- The children of a node, in order. -/
def children : Node Place → List (Node Place)
  | .node _ _ _ _ cs => cs

/-- Whether a node is a comment. -/
def isComment (t : Node Place) : Bool := t.kind == .comment

/-- Every node but keywords and marks counts as named. -/
def isNamed (t : Node Place) : Bool :=
  match t.kind with
  | .keyword _ => false
  | .mark _ => false
  | _ => true

/-- The same node in another role. -/
def withRole (role : Role) : Node Place → Node Place
  | .node k _ s e cs => .node k (some role) s e cs

/-- The first child of a kind. -/
def childOfKind? (t : Node Place) (kind : Kind) : Option (Node Place) :=
  t.children.find? (·.kind == kind)

/-- The first child in a role. -/
def childInRole? (t : Node Place) (role : Role) : Option (Node Place) :=
  t.children.find? (·.role == some role)

/-- The extent in bytes. -/
def span (t : Node Point) : Span := ⟨t.start.offset, t.stop.offset⟩

mutual

/-- Put other places into a tree. -/
def locate {Other : Type} (start stop : Place → Other) : Node Place → Node Other
  | .node k r s e cs => .node k r (start s) (stop e) (locateAll start stop cs)

/-- Put other places into trees. -/
def locateAll {Other : Type} (start stop : Place → Other) : List (Node Place) → List (Node Other)
  | [] => []
  | t :: ts => locate start stop t :: locateAll start stop ts

end

end Node

namespace Tree

/-! ### Comments

A comment may stand anywhere. It becomes a child of the innermost node that both starts before it
and continues after it.
-/

/-- The node of a comment. -/
def ofComment (l : Lexeme) : Tree :=
  .node .comment none l.start l.stop []

mutual

/-- Put comments that lie inside a node at their places below it. -/
def attach (comments : List Lexeme) : Tree → Tree
  | .node k r s e cs => .node k r s e (weave comments cs)

/-- Put comments between and inside siblings. -/
def weave (comments : List Lexeme) : List Tree → List Tree
  | [] => comments.map ofComment
  | t :: ts =>
    let (before, others) := comments.span (·.stop.offset ≤ t.start.offset)
    let (inside, after) := others.span (·.start.offset < t.stop.offset)
    before.map ofComment ++ attach inside t :: weave after ts

end

end Tree
end Marginalia.Go

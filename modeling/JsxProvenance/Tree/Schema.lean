import JsxProvenance.Tree.Shape

/-!
The fields of every shape, in the order in which a walk visits them. The order
shows in the log of a walk, and in what is already marked when a walk breaks off.
-/

namespace JsxProvenance

/-- The fields of everything that has parameters and a body. -/
def functionFields : List Field :=
  [.many "params" (.node "Parameter"), .many "decorators" (.node "Decorator"), .span, .context,
    .one "body" (.node "BlockStatement"), .flag "generator", .flag "async",
    .one "typeParameters" (.node "TsTypeParameterDeclaration"),
    .one "returnType" (.node "TsTypeAnnotation")]

/-- The fields of a class. -/
def classFields : List Field :=
  [.span, .context, .many "decorators" (.node "Decorator"), .many "body" .free,
    .one "superClass" .free, .flag "isAbstract",
    .one "typeParams" (.node "TsTypeParameterDeclaration"),
    .one "superTypeParams" (.node "TsTypeParameterInstantiation"),
    .many "implements" (.node "TsExpressionWithTypeArguments")]

/-- The object literal without properties that was not read from a file. -/
def emptyObject : Tree :=
  .node .object [("span", .span .dummy), ("properties", .list [])]

/-- The fields of each kind of node. -/
def nodeFields : List (String × List Field) := [
  ("ArrayExpression", [.span, .many "elements" (.only .argument)]),
  ("ArrayPattern", [.span, .many "elements" .pattern, .flag "optional",
    .one "typeAnnotation" (.node "TsTypeAnnotation")]),
  ("ArrowFunctionExpression", [.span, .context, .many "params" .pattern, .one "body" .free,
    .flag "async", .flag "generator", .one "typeParameters" (.node "TsTypeParameterDeclaration"),
    .one "returnType" (.node "TsTypeAnnotation")]),
  ("AssignmentExpression", [.span, .keyword "operator", .one "left" .pattern, .one "right" .free]),
  ("AssignmentPattern", [.span, .one "left" .pattern, .one "right" .free]),
  ("AssignmentPatternProperty", [.span, .one "key" (.only .binding), .one "value" .free]),
  ("AssignmentProperty", [.span, .one "key" (.node "Identifier"), .one "value" .free]),
  ("AutoAccessor", [.span, .one "key" .key, .one "value" .free,
    .one "typeAnnotation" (.node "TsTypeAnnotation"), .flag "isStatic",
    .many "decorators" (.node "Decorator"), .keyword "accessibility", .flag "isAbstract",
    .flag "isOverride", .flag "definite"]),
  ("AwaitExpression", [.span, .one "argument" .free]),
  ("BigIntLiteral", [.span, .one "value" .bigInteger, .leaf "raw"]),
  ("BinaryExpression", [.span, .keyword "operator", .one "left" .free, .one "right" .free]),
  ("BlockStatement", [.span, .context, .many "stmts" .free]),
  ("BooleanLiteral", [.span, .leaf "value"]),
  ("BreakStatement", [.span, .one "label" (.node "Identifier")]),
  ("CallExpression", [.span, .context, .one "callee" .free, .many "arguments" (.only .argument),
    .one "typeArguments" (.node "TsTypeParameterInstantiation")]),
  ("CatchClause", [.span, .one "param" .pattern, .one "body" (.node "BlockStatement")]),
  ("ClassDeclaration", [.one "identifier" (.node "Identifier"), .flag "declare"] ++ classFields),
  ("ClassExpression", [.one "identifier" (.node "Identifier")] ++ classFields),
  ("ClassMethod", [.span, .one "key" .key, .one "function" (.only .function), .keyword "kind",
    .flag "isStatic", .keyword "accessibility", .flag "isAbstract", .flag "isOptional",
    .flag "isOverride"]),
  ("ClassProperty", [.span, .one "key" .key, .one "value" .free,
    .one "typeAnnotation" (.node "TsTypeAnnotation"), .flag "isStatic",
    .many "decorators" (.node "Decorator"), .keyword "accessibility", .flag "isAbstract",
    .flag "isOptional", .flag "isOverride", .flag "readonly", .flag "declare", .flag "definite"]),
  ("Computed", [.span, .one "expression" .free]),
  ("ConditionalExpression", [.span, .one "test" .free, .one "consequent" .free,
    .one "alternate" .free]),
  ("Constructor", [.span, .context, .one "key" .key, .many "params" .free,
    .one "body" (.node "BlockStatement"), .keyword "accessibility", .flag "isOptional"]),
  ("ContinueStatement", [.span, .one "label" (.node "Identifier")]),
  ("DebuggerStatement", [.span]),
  ("Decorator", [.span, .one "expression" .free]),
  ("DoWhileStatement", [.span, .one "test" .free, .one "body" .free]),
  ("EmptyStatement", [.span]),
  ("ExportAllDeclaration", [.span, .one "source" (.node "StringLiteral"), .flag "typeOnly",
    .one "with" (.node "ObjectExpression")]),
  ("ExportDeclaration", [.span, .one "declaration" .free]),
  ("ExportDefaultDeclaration", [.span, .one "decl" .free]),
  ("ExportDefaultExpression", [.span, .one "expression" .free]),
  ("ExportDefaultSpecifier", [.one "exported" (.node "Identifier")]),
  ("ExportNamedDeclaration", [.span, .many "specifiers" .free,
    .one "source" (.node "StringLiteral"), .flag "typeOnly",
    .one "with" (.node "ObjectExpression")]),
  ("ExportNamespaceSpecifier", [.span, .one "name" .free]),
  ("ExportSpecifier", [.span, .one "orig" .free, .one "exported" .free, .flag "isTypeOnly"]),
  ("ExpressionStatement", [.span, .one "expression" .free]),
  ("ForInStatement", [.span, .one "left" .pattern, .one "right" .free, .one "body" .free]),
  ("ForOfStatement", [.span, .flag "await", .one "left" .pattern, .one "right" .free,
    .one "body" .free]),
  ("ForStatement", [.span, .one "init" .free, .one "test" .free, .one "update" .free,
    .one "body" .free]),
  ("FunctionDeclaration",
    [.one "identifier" (.node "Identifier"), .flag "declare"] ++ functionFields),
  ("FunctionExpression", [.one "identifier" (.node "Identifier")] ++ functionFields),
  ("GetterProperty", [.span, .one "key" .key, .one "typeAnnotation" (.node "TsTypeAnnotation"),
    .one "body" (.node "BlockStatement")]),
  ("Identifier", [.span, .context, .text "value", .flag "optional"]),
  ("IfStatement", [.span, .one "test" .free, .one "consequent" .free, .one "alternate" .free]),
  ("Import", [.span, .phase]),
  ("ImportDeclaration", [.span, .many "specifiers" .free, .one "source" (.node "StringLiteral"),
    .flag "typeOnly", .one "with" (.node "ObjectExpression"), .phase]),
  ("ImportDefaultSpecifier", [.span, .one "local" (.node "Identifier")]),
  ("ImportNamespaceSpecifier", [.span, .one "local" (.node "Identifier")]),
  ("ImportSpecifier", [.span, .one "local" (.node "Identifier"), .one "imported" .free,
    .flag "isTypeOnly"]),
  ("Invalid", [.span]),
  ("JSXAttribute", [.span, .one "name" .key, .one "value" .free]),
  ("JSXClosingElement", [.span, .one "name" .free]),
  ("JSXClosingFragment", [.span]),
  ("JSXElement", [.span, .one "opening" (.node "JSXOpeningElement"), .many "children" .free,
    .one "closing" (.node "JSXClosingElement")]),
  ("JSXEmptyExpression", [.span]),
  ("JSXExpressionContainer", [.span, .one "expression" .free]),
  ("JSXFragment", [.span, .one "opening" (.node "JSXOpeningFragment"), .many "children" .free,
    .one "closing" (.node "JSXClosingFragment")]),
  ("JSXMemberExpression", [.span, .one "object" .free, .one "property" (.only .bareName)]),
  ("JSXNamespacedName", [.span, .one "namespace" (.only .bareName),
    .one "name" (.only .bareName)]),
  ("JSXOpeningElement", [.one "name" .free, .span, .many "attributes" .free, .flag "selfClosing",
    .one "typeArguments" (.node "TsTypeParameterInstantiation")]),
  ("JSXOpeningFragment", [.span]),
  ("JSXSpreadChild", [.span, .one "expression" .free]),
  ("JSXText", [.span, .text "value", .text "raw"]),
  ("KeyValuePatternProperty", [.one "key" .key, .one "value" .pattern]),
  ("KeyValueProperty", [.one "key" .key, .one "value" .free]),
  ("LabeledStatement", [.span, .one "label" (.node "Identifier"), .one "body" .free]),
  ("MemberExpression", [.span, .one "object" .free, .one "property" .key]),
  ("MetaProperty", [.span, .keyword "kind"]),
  ("MethodProperty", [.one "key" .key] ++ functionFields),
  ("Module", [.span, .many "body" .free, .leaf "interpreter"]),
  ("NewExpression", [.span, .context, .one "callee" .free,
    .one "arguments" (.list (.only .argument)),
    .one "typeArguments" (.node "TsTypeParameterInstantiation")]),
  ("NullLiteral", [.span]),
  ("NumericLiteral", [.span, .one "value" .numeric, .leaf "raw"]),
  ("ObjectExpression", [.span, .many "properties" .free]),
  ("ObjectPattern", [.span, .many "properties" .free, .flag "optional",
    .one "typeAnnotation" (.node "TsTypeAnnotation")]),
  ("OptionalChainingExpression", [.span, .flag "optional", .one "base" .free]),
  ("Parameter", [.span, .many "decorators" (.node "Decorator"), .one "pat" .pattern]),
  ("ParenthesisExpression", [.span, .one "expression" .free]),
  ("PrivateMethod", [.span, .one "key" (.node "PrivateName"), .one "function" (.only .function),
    .keyword "kind", .flag "isStatic", .keyword "accessibility", .flag "isAbstract",
    .flag "isOptional", .flag "isOverride"]),
  ("PrivateName", [.span, .text "value"]),
  ("PrivateProperty", [.span, .context, .one "key" (.node "PrivateName"), .one "value" .free,
    .one "typeAnnotation" (.node "TsTypeAnnotation"), .flag "isStatic",
    .many "decorators" (.node "Decorator"), .keyword "accessibility", .flag "isOptional",
    .flag "isOverride", .flag "readonly", .flag "definite"]),
  ("RegExpLiteral", [.span, .text "pattern", .text "flags"]),
  ("RestElement", [.span, .token "rest", .one "argument" .pattern,
    .one "typeAnnotation" (.node "TsTypeAnnotation")]),
  ("ReturnStatement", [.span, .one "argument" .free]),
  ("Script", [.span, .many "body" .free, .leaf "interpreter"]),
  ("SequenceExpression", [.span, .many "expressions" .free]),
  ("SetterProperty", [.span, .one "key" .key, .one "thisParam" .pattern, .one "param" .pattern,
    .one "body" (.node "BlockStatement")]),
  ("SpreadElement", [.token "spread", .one "arguments" .free]),
  ("StaticBlock", [.span, .one "body" (.node "BlockStatement")]),
  ("StringLiteral", [.span, .text "value", .leaf "raw"]),
  ("Super", [.span]),
  ("SuperPropExpression", [.span, .one "obj" (.node "Super"), .one "property" .key]),
  ("SwitchCase", [.span, .one "test" .free, .many "consequent" .free]),
  ("SwitchStatement", [.span, .one "discriminant" .free, .many "cases" (.node "SwitchCase")]),
  ("TaggedTemplateExpression", [.span, .context, .one "tag" .free,
    .one "typeParameters" (.node "TsTypeParameterInstantiation"),
    .one "template" (.node "TemplateLiteral")]),
  ("TemplateElement", [.span, .flag "tail", .leaf "cooked", .text "raw"]),
  ("TemplateLiteral", [.span, .many "expressions" .free,
    .many "quasis" (.node "TemplateElement")]),
  ("ThisExpression", [.span]),
  ("ThrowStatement", [.span, .one "argument" .free]),
  ("TryStatement", [.span, .one "block" (.node "BlockStatement"),
    .one "handler" (.node "CatchClause"), .one "finalizer" (.node "BlockStatement")]),
  ("TsArrayType", [.span, .one "elemType" .free]),
  ("TsAsExpression", [.span, .one "expression" .free, .one "typeAnnotation" .free]),
  ("TsCallSignatureDeclaration", [.span, .many "params" .pattern,
    .one "typeAnnotation" (.node "TsTypeAnnotation"),
    .one "typeParams" (.node "TsTypeParameterDeclaration")]),
  ("TsConditionalType", [.span, .one "checkType" .free, .one "extendsType" .free,
    .one "trueType" .free, .one "falseType" .free]),
  ("TsConstAssertion", [.span, .one "expression" .free]),
  ("TsConstructSignatureDeclaration", [.span, .many "params" .pattern,
    .one "typeAnnotation" (.node "TsTypeAnnotation"),
    .one "typeParams" (.node "TsTypeParameterDeclaration")]),
  ("TsConstructorType", [.span, .many "params" .pattern,
    .one "typeParams" (.node "TsTypeParameterDeclaration"),
    .one "typeAnnotation" (.node "TsTypeAnnotation"), .flag "isAbstract"]),
  ("TsEnumDeclaration", [.span, .flag "declare", .flag "isConst", .one "id" (.node "Identifier"),
    .many "members" (.node "TsEnumMember")]),
  ("TsEnumMember", [.span, .one "id" .free, .one "init" .free]),
  ("TsExportAssignment", [.span, .one "expression" .free]),
  ("TsExpressionWithTypeArguments", [.span, .one "expression" .free,
    .one "typeArguments" (.node "TsTypeParameterInstantiation")]),
  ("TsExternalModuleReference", [.span, .one "expression" (.node "StringLiteral")]),
  ("TsFunctionType", [.span, .many "params" .pattern,
    .one "typeParams" (.node "TsTypeParameterDeclaration"),
    .one "typeAnnotation" (.node "TsTypeAnnotation")]),
  ("TsGetterSignature", [.span, .one "key" .free, .flag "computed",
    .one "typeAnnotation" (.node "TsTypeAnnotation")]),
  ("TsImportCallOptions", [.span, ⟨"with", .node "ObjectExpression", emptyObject⟩]),
  ("TsImportEqualsDeclaration", [.span, .flag "isExport", .flag "isTypeOnly",
    .one "id" (.node "Identifier"), .one "moduleRef" .free]),
  ("TsImportType", [.span, .one "argument" (.node "StringLiteral"), .one "qualifier" .free,
    .one "typeArguments" (.node "TsTypeParameterInstantiation"),
    .one "attributes" (.node "TsImportCallOptions")]),
  ("TsIndexSignature", [.many "params" .pattern,
    .one "typeAnnotation" (.node "TsTypeAnnotation"), .flag "readonly", .flag "static", .span]),
  ("TsIndexedAccessType", [.span, .flag "readonly", .one "objectType" .free,
    .one "indexType" .free]),
  ("TsInferType", [.span, .one "typeParam" (.node "TsTypeParameter")]),
  ("TsInstantiation", [.span, .one "expression" .free,
    .one "typeArguments" (.node "TsTypeParameterInstantiation")]),
  ("TsInterfaceBody", [.span, .many "body" .free]),
  ("TsInterfaceDeclaration", [.span, .one "id" (.node "Identifier"), .flag "declare",
    .one "typeParams" (.node "TsTypeParameterDeclaration"),
    .many "extends" (.node "TsExpressionWithTypeArguments"),
    .one "body" (.node "TsInterfaceBody")]),
  ("TsIntersectionType", [.span, .many "types" .free]),
  ("TsKeywordType", [.span, .keyword "kind"]),
  ("TsLiteralType", [.span, .one "literal" .typeLiteral]),
  ("TsMappedType", [.span, .one "readonly" .modifier, .one "typeParam" (.node "TsTypeParameter"),
    .one "nameType" .free, .one "optional" .modifier, .one "typeAnnotation" .free]),
  ("TsMethodSignature", [.span, .one "key" .free, .flag "computed", .flag "optional",
    .many "params" .pattern, .one "typeAnn" (.node "TsTypeAnnotation"),
    .one "typeParams" (.node "TsTypeParameterDeclaration")]),
  ("TsModuleBlock", [.span, .many "body" .free]),
  ("TsModuleDeclaration", [.span, .flag "declare", .flag "global", .flag "namespace",
    .one "id" .free, .one "body" .free]),
  ("TsNamespaceDeclaration", [.span, .flag "declare", .flag "global",
    .one "id" (.node "Identifier"), .one "body" .free]),
  ("TsNamespaceExportDeclaration", [.span, .one "id" (.node "Identifier")]),
  ("TsNonNullExpression", [.span, .one "expression" .free]),
  ("TsOptionalType", [.span, .one "typeAnnotation" .free]),
  ("TsParameterProperty", [.span, .many "decorators" (.node "Decorator"),
    .keyword "accessibility", .flag "override", .flag "readonly", .one "param" .pattern]),
  ("TsParenthesizedType", [.span, .one "typeAnnotation" .free]),
  ("TsPropertySignature", [.span, .flag "readonly", .one "key" .free, .flag "computed",
    .flag "optional", .one "typeAnnotation" (.node "TsTypeAnnotation")]),
  ("TsQualifiedName", [.span, .one "left" .free, .one "right" (.only .bareName)]),
  ("TsRestType", [.span, .one "typeAnnotation" .free]),
  ("TsSatisfiesExpression", [.span, .one "expression" .free, .one "typeAnnotation" .free]),
  ("TsSetterSignature", [.span, .one "key" .free, .flag "computed", .one "param" .pattern]),
  ("TsThisType", [.span]),
  ("TsTupleElement", [.span, .one "label" .pattern, .one "ty" .free]),
  ("TsTupleType", [.span, .many "elemTypes" (.node "TsTupleElement")]),
  ("TsTypeAliasDeclaration", [.span, .flag "declare", .one "id" (.node "Identifier"),
    .one "typeParams" (.node "TsTypeParameterDeclaration"), .one "typeAnnotation" .free]),
  ("TsTypeAnnotation", [.span, .one "typeAnnotation" .free]),
  ("TsTypeAssertion", [.span, .one "expression" .free, .one "typeAnnotation" .free]),
  ("TsTypeLiteral", [.span, .many "members" .free]),
  ("TsTypeOperator", [.span, .keyword "op", .one "typeAnnotation" .free]),
  ("TsTypeParameter", [.span, .one "name" (.node "Identifier"), .flag "in", .flag "out",
    .flag "const", .one "constraint" .free, .one "default" .free]),
  ("TsTypeParameterDeclaration", [.span, .many "parameters" (.node "TsTypeParameter")]),
  ("TsTypeParameterInstantiation", [.span, .many "params" .free]),
  ("TsTypePredicate", [.span, .flag "asserts", .one "paramName" .free,
    .one "typeAnnotation" (.node "TsTypeAnnotation")]),
  ("TsTypeQuery", [.span, .one "exprName" .free,
    .one "typeArguments" (.node "TsTypeParameterInstantiation")]),
  ("TsTypeReference", [.span, .one "typeName" .free,
    .one "typeParams" (.node "TsTypeParameterInstantiation")]),
  ("TsUnionType", [.span, .many "types" .free]),
  ("UnaryExpression", [.span, .keyword "operator", .one "argument" .free]),
  ("UpdateExpression", [.span, .keyword "operator", .flag "prefix", .one "argument" .free]),
  ("UsingDeclaration", [.span, .flag "isAwait", .many "decls" (.node "VariableDeclarator")]),
  ("VariableDeclaration", [.span, .context, .keyword "kind", .flag "declare",
    .many "declarations" (.node "VariableDeclarator")]),
  ("VariableDeclarator", [.span, .one "id" .pattern, .one "init" .free, .flag "definite"]),
  ("WhileStatement", [.span, .one "test" .free, .one "body" .free]),
  ("WithStatement", [.span, .one "object" .free, .one "body" .free]),
  ("YieldExpression", [.span, .one "argument" .free, .flag "delegate"])
]

/-- The fields of a shape. Nothing is known of a kind that is not listed. -/
def Shape.fields? : Shape → Option (List Field)
  | .node kind => nodeFields.lookup kind
  | .binding => some [.span, .context, .text "value", .flag "optional",
      .one "typeAnnotation" (.node "TsTypeAnnotation")]
  | .bareName => some [.span, .text "value"]
  | .templateType => some [.span, .many "types" .free, .many "quasis" (.node "TemplateElement")]
  | .argument => some [.token "spread", .one "expression" .free]
  | .function => some functionFields

end JsxProvenance

/-
  DefineFold.Tree.Kind

  The kinds of syntax nodes. The kinds that the substitution pass tells apart have a name;
  every other kind, and every token, is known by its text.
-/

namespace DefineFold

/-- The kind of a syntax node. -/
inductive Kind where
  | identifier
  | thisWord
  | memberExpression
  | subscriptExpression
  | propertyIdentifier
  | shorthandPropertyIdentifier
  | stringLiteral
  | numberLiteral
  | templateString
  | templateSubstitution
  | trueLiteral
  | falseLiteral
  | nullLiteral
  | undefinedWord
  | optionalChain
  | parenthesizedExpression
  | unaryExpression
  | updateExpression
  | binaryExpression
  | callExpression
  | newExpression
  | assignmentExpression
  | augmentedAssignmentExpression
  | forInStatement
  | assignmentPattern
  | objectAssignmentPattern
  | arrowFunction
  | catchClause
  | requiredParameter
  | optionalParameter
  | pairPattern
  | formalParameters
  | arrayPattern
  | objectPattern
  | restPattern
  | importClause
  | importSpecifier
  | exportSpecifier
  | namespaceImport
  | namespaceExport
  | typeQuery
  | jsxOpeningElement
  | jsxClosingElement
  | jsxSelfClosingElement
  | jsxAttribute
  | nestedIdentifier
  | other (text : String)
deriving DecidableEq, Repr, Inhabited

namespace Kind

/-- The kinds with a name, each with its text. -/
def named : List (String × Kind) :=
  [("identifier", .identifier), ("this", .thisWord), ("member_expression", .memberExpression),
   ("subscript_expression", .subscriptExpression),
   ("property_identifier", .propertyIdentifier),
   ("shorthand_property_identifier", .shorthandPropertyIdentifier), ("string", .stringLiteral),
   ("number", .numberLiteral), ("template_string", .templateString),
   ("template_substitution", .templateSubstitution), ("true", .trueLiteral),
   ("false", .falseLiteral), ("null", .nullLiteral), ("undefined", .undefinedWord),
   ("optional_chain", .optionalChain), ("parenthesized_expression", .parenthesizedExpression),
   ("unary_expression", .unaryExpression), ("update_expression", .updateExpression),
   ("binary_expression", .binaryExpression), ("call_expression", .callExpression),
   ("new_expression", .newExpression), ("assignment_expression", .assignmentExpression),
   ("augmented_assignment_expression", .augmentedAssignmentExpression),
   ("for_in_statement", .forInStatement), ("assignment_pattern", .assignmentPattern),
   ("object_assignment_pattern", .objectAssignmentPattern), ("arrow_function", .arrowFunction),
   ("catch_clause", .catchClause), ("required_parameter", .requiredParameter),
   ("optional_parameter", .optionalParameter), ("pair_pattern", .pairPattern),
   ("formal_parameters", .formalParameters), ("array_pattern", .arrayPattern),
   ("object_pattern", .objectPattern), ("rest_pattern", .restPattern),
   ("import_clause", .importClause), ("import_specifier", .importSpecifier),
   ("export_specifier", .exportSpecifier), ("namespace_import", .namespaceImport),
   ("namespace_export", .namespaceExport), ("type_query", .typeQuery),
   ("jsx_opening_element", .jsxOpeningElement), ("jsx_closing_element", .jsxClosingElement),
   ("jsx_self_closing_element", .jsxSelfClosingElement), ("jsx_attribute", .jsxAttribute),
   ("nested_identifier", .nestedIdentifier)]

/-- The kind with the given text. -/
def ofText (text : String) : Kind :=
  match named.find? fun entry => entry.1 == text with
  | some entry => entry.2
  | none => .other text

/-- The text of a kind. -/
def text : Kind → String
  | .identifier => "identifier"
  | .thisWord => "this"
  | .memberExpression => "member_expression"
  | .subscriptExpression => "subscript_expression"
  | .propertyIdentifier => "property_identifier"
  | .shorthandPropertyIdentifier => "shorthand_property_identifier"
  | .stringLiteral => "string"
  | .numberLiteral => "number"
  | .templateString => "template_string"
  | .templateSubstitution => "template_substitution"
  | .trueLiteral => "true"
  | .falseLiteral => "false"
  | .nullLiteral => "null"
  | .undefinedWord => "undefined"
  | .optionalChain => "optional_chain"
  | .parenthesizedExpression => "parenthesized_expression"
  | .unaryExpression => "unary_expression"
  | .updateExpression => "update_expression"
  | .binaryExpression => "binary_expression"
  | .callExpression => "call_expression"
  | .newExpression => "new_expression"
  | .assignmentExpression => "assignment_expression"
  | .augmentedAssignmentExpression => "augmented_assignment_expression"
  | .forInStatement => "for_in_statement"
  | .assignmentPattern => "assignment_pattern"
  | .objectAssignmentPattern => "object_assignment_pattern"
  | .arrowFunction => "arrow_function"
  | .catchClause => "catch_clause"
  | .requiredParameter => "required_parameter"
  | .optionalParameter => "optional_parameter"
  | .pairPattern => "pair_pattern"
  | .formalParameters => "formal_parameters"
  | .arrayPattern => "array_pattern"
  | .objectPattern => "object_pattern"
  | .restPattern => "rest_pattern"
  | .importClause => "import_clause"
  | .importSpecifier => "import_specifier"
  | .exportSpecifier => "export_specifier"
  | .namespaceImport => "namespace_import"
  | .namespaceExport => "namespace_export"
  | .typeQuery => "type_query"
  | .jsxOpeningElement => "jsx_opening_element"
  | .jsxClosingElement => "jsx_closing_element"
  | .jsxSelfClosingElement => "jsx_self_closing_element"
  | .jsxAttribute => "jsx_attribute"
  | .nestedIdentifier => "nested_identifier"
  | .other text => text

end Kind

end DefineFold

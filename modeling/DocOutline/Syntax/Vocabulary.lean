import DocOutline.Syntax.Table

/-!
# Vocabularies

The kinds of JavaScript, of TypeScript, and of TypeScript with JSX. TypeScript adds its kinds to
those of JavaScript; the kinds of JSX belong to JavaScript and to the third.
-/

namespace DocOutline

/-! ## Nodes with children -/

def declarationKinds : List String := [
  "class_declaration", "class", "class_heritage", "class_body", "class_static_block",
  "function_declaration", "generator_function_declaration", "method_definition",
  "field_definition", "lexical_declaration", "variable_declaration", "variable_declarator",
  "export_statement", "export_clause", "export_specifier", "namespace_export",
  "import_statement", "import_clause", "named_imports", "import_specifier", "namespace_import",
  "nested_identifier", "decorator"]

def patternKinds : List String := [
  "formal_parameters", "arguments", "assignment_pattern", "object_pattern",
  "object_assignment_pattern", "array_pattern", "rest_pattern", "pair_pattern",
  "computed_property_name"]

def statementKinds : List String := [
  "statement_block", "expression_statement", "return_statement", "throw_statement",
  "if_statement", "else_clause", "for_statement", "for_in_statement", "while_statement",
  "do_statement", "switch_statement", "switch_body", "switch_case", "switch_default",
  "try_statement", "catch_clause", "finally_clause", "break_statement", "continue_statement",
  "labeled_statement", "empty_statement"]

def expressionKinds : List String := [
  "parenthesized_expression", "binary_expression", "unary_expression", "update_expression",
  "assignment_expression", "augmented_assignment_expression", "ternary_expression",
  "member_expression", "subscript_expression", "call_expression", "new_expression",
  "await_expression", "yield_expression", "sequence_expression", "arrow_function",
  "function_expression", "function", "generator_function", "object", "array", "pair",
  "spread_element", "template_substitution"]

/-- The kinds that TypeScript adds. -/
def typedKinds : List String := [
  "interface_declaration", "interface_body", "abstract_class_declaration",
  "type_alias_declaration", "enum_declaration", "enum_body", "enum_assignment",
  "internal_module", "module", "ambient_declaration", "function_signature", "method_signature",
  "abstract_method_signature", "property_signature", "call_signature", "construct_signature",
  "index_signature", "public_field_definition", "extends_clause", "implements_clause",
  "extends_type_clause", "required_parameter", "optional_parameter", "type_annotation",
  "omitting_type_annotation", "adding_type_annotation", "opting_type_annotation",
  "type_parameters", "type_parameter", "type_arguments", "constraint", "default_type",
  "generic_type", "nested_type_identifier", "object_type", "union_type", "intersection_type",
  "array_type", "tuple_type", "optional_type", "rest_type", "readonly_type", "function_type",
  "constructor_type", "parenthesized_type", "conditional_type", "infer_type", "lookup_type",
  "index_type_query", "type_query", "mapped_type_clause", "template_literal_type",
  "template_type", "type_predicate", "type_predicate_annotation", "asserts",
  "asserts_annotation", "as_expression", "satisfies_expression", "non_null_expression",
  "type_assertion", "instantiation_expression", "import_alias", "import_require_clause"]

def jsxKinds : List String := [
  "jsx_element", "jsx_self_closing_element", "jsx_opening_element", "jsx_closing_element",
  "jsx_attribute", "jsx_expression", "jsx_namespace_name"]

/-! ## Tokens -/

def literalTokens : List String := [
  "identifier", "property_identifier", "shorthand_property_identifier",
  "shorthand_property_identifier_pattern", "private_property_identifier", "statement_identifier",
  "this", "super", "null", "undefined", "true", "false", "number", "string", "template_string",
  "regex", "meta_property", "optional_chain", "hash_bang_line"]

def keywordTokens : List String := [
  "export", "default", "class", "function", "extends", "const", "let", "var", "async", "await",
  "static", "get", "set", "new", "return", "typeof", "instanceof", "in", "of", "void", "delete",
  "yield", "throw", "if", "else", "for", "while", "do", "switch", "case", "break", "continue",
  "try", "catch", "finally", "import", "from", "as", "with"]

/-- Operators of more than one character; shorter ones are noise. -/
def operatorTokens : List String := [
  "=>", "==", "===", "!=", "!==", "<=", ">=", "&&", "||", "??", "+=", "-=", "*=", "/=", "%=",
  "**", "**=", "&=", "|=", "^=", "&&=", "||=", "??=", "<<=", ">>=", ">>>=", "++", "--", "<<",
  ">>", ">>>", "?.", "$\x7b"]

/-- The tokens that TypeScript adds. -/
def typedTokens : List String := [
  "type_identifier", "predefined_type", "literal_type", "this_type", "existential_type",
  "accessibility_modifier", "override_modifier", "interface", "implements", "type", "enum",
  "namespace", "module", "declare", "abstract", "readonly", "keyof", "infer", "is", "satisfies",
  "unique", "global", "-?:", "+?:", "?:"]

def jsxTokens : List String := [
  "jsx_text", "html_character_reference", "html_comment", "</", "/>"]

/-! ## Rules of context dispatch -/

def baseRules : List Rule := [
  ⟨"comment", .comment, none, []⟩,
  ⟨"export_statement", .exporter, none, []⟩,
  ⟨"expression_statement", .wrapper, none, []⟩,
  ⟨"class_declaration", .declaration, some "class", ["class"]⟩,
  ⟨"class", .declaration, none, ["class"]⟩,
  ⟨"function_declaration", .declaration, some "function", ["function"]⟩,
  ⟨"generator_function_declaration", .declaration, some "function", ["function"]⟩,
  ⟨"function_expression", .declaration, some "function", ["function"]⟩,
  ⟨"function", .declaration, none, ["function"]⟩,
  ⟨"method_definition", .declaration, none, []⟩,
  ⟨"field_definition", .declaration, none, []⟩,
  ⟨"lexical_declaration", .declaration, none, []⟩,
  ⟨"variable_declaration", .declaration, none, []⟩]

/-- The rules that TypeScript adds. -/
def typedRules : List Rule := [
  ⟨"interface_declaration", .declaration, some "interface", ["interface"]⟩,
  ⟨"abstract_class_declaration", .declaration, some "class", ["class"]⟩,
  ⟨"function_signature", .declaration, some "function", ["function"]⟩,
  ⟨"method_signature", .declaration, none, []⟩,
  ⟨"abstract_method_signature", .declaration, none, []⟩,
  ⟨"property_signature", .declaration, none, []⟩,
  ⟨"public_field_definition", .declaration, none, []⟩,
  ⟨"type_alias_declaration", .declaration, some "type", ["type"]⟩,
  ⟨"enum_declaration", .declaration, some "enum", ["enum"]⟩,
  ⟨"internal_module", .nameSpace, some "namespace", ["namespace"]⟩,
  ⟨"module", .ambientModule, none, ["module"]⟩,
  ⟨"ambient_declaration", .wrapper, none, ["declare"]⟩]

def heritageKinds : List String := [
  "class_heritage", "extends_clause", "implements_clause", "extends_type_clause"]

/-! ## Tables -/

def baseKinds : List String :=
  declarationKinds ++ patternKinds ++ statementKinds ++ expressionKinds

def baseTokens : List String :=
  literalTokens ++ keywordTokens ++ operatorTokens

def javaScriptTable : Table where
  name := "javascript"
  nonTerminals := baseKinds ++ jsxKinds
  terminals := baseTokens ++ jsxTokens
  rules := baseRules
  heritage := heritageKinds
  exporters := ["export_statement"]
  nameSpaces := []

def typeScriptTable : Table where
  name := "typescript"
  nonTerminals := baseKinds ++ typedKinds
  terminals := baseTokens ++ typedTokens
  rules := baseRules ++ typedRules
  heritage := heritageKinds
  exporters := ["export_statement"]
  nameSpaces := ["internal_module", "module"]

def tsxTable : Table :=
  { typeScriptTable with
    name := "tsx"
    nonTerminals := baseKinds ++ typedKinds ++ jsxKinds
    terminals := baseTokens ++ typedTokens ++ jsxTokens }

end DocOutline

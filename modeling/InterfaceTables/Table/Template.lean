/-!
Templates: a text with placeholders, a dollar sign and a key between braces. Filling a template
splits it once into literals and placeholders and never looks into the values put in.
-/

namespace InterfaceTables

inductive Segment where
  | literal (text : List Char)
  | placeholder (key : List Char)
deriving DecidableEq

namespace Segment

def opening : List Char := ['$', '\x7b']

def source : Segment → List Char
  | .literal text => text
  | .placeholder key => opening ++ key ++ ['\x7d']

mutual

def outside (acc : List Char) : List Char → List Segment
  | [] => [.literal acc.reverse]
  | '$' :: '\x7b' :: rest => .literal acc.reverse :: inside [] rest
  | c :: rest => outside (c :: acc) rest

/-- The segments from inside a placeholder on; one that is never closed is a literal. -/
def inside (key : List Char) : List Char → List Segment
  | [] => [.literal (opening ++ key.reverse)]
  | '\x7d' :: rest => .placeholder key.reverse :: outside [] rest
  | c :: rest => inside (c :: key) rest

end

def split (text : List Char) : List Segment := outside [] text

/-- The text that a segment becomes: the value of the first variable of that key, or the
placeholder itself. -/
def fill (vars : List (String × String)) : Segment → List Char
  | .literal text => text
  | .placeholder key =>
    match vars.lookup (String.ofList key) with
    | some value => value.toList
    | none => source (.placeholder key)

end Segment

structure Template where
  text : String

def Template.fill (t : Template) (vars : List (String × String)) : String :=
  String.ofList ((Segment.split t.text.toList).flatMap (Segment.fill vars))

namespace Template

def header : Template where
  text :=
    "/**\n" ++
    " * @file $\x7boutput_filename\x7d.h\n" ++
    " * @brief Contains automatically generated interfaces.\n" ++
    " *\n" ++
    " * @warning Do not modify this file manually.\n" ++
    " *\n" ++
    " * @details The generated structures contain all information regarding each interface.\n" ++
    " * and are automatically generated from the json interfaces definitions.\n" ++
    " */\n\n" ++
    "// NOLINTNEXTLINE This guard is clear enough.\n" ++
    "#ifndef $\x7binclude_guard\x7d\n" ++
    "#define $\x7binclude_guard\x7d\n\n" ++
    "#include <astarte_device_sdk/interface.h>\n" ++
    "#include <astarte_device_sdk/mapping.h>\n\n" ++
    "// Interface names should resemble as closely as possible their respective .json file names.\n" ++
    "// NOLINTBEGIN(readability-identifier-naming)\n" ++
    "$\x7binterfaces_declarations\x7d\n" ++
    "// NOLINTEND(readability-identifier-naming)\n\n" ++
    "#endif /* $\x7binclude_guard\x7d */\n"

def source : Template where
  text :=
    "/**\n" ++
    " * @file $\x7boutput_filename\x7d.c\n" ++
    " * @brief Contains automatically generated interfaces.\n" ++
    " *\n" ++
    " * @warning Do not modify this file manually.\n" ++
    " */\n\n" ++
    "#include \"$\x7boutput_filename\x7d.h\"\n\n" ++
    "// Interface names should resemble as closely as possible their respective .json file names.\n" ++
    "// NOLINTBEGIN(readability-identifier-naming)\n" ++
    "$\x7binterfaces_definitions\x7d\n\n" ++
    "// NOLINTEND(readability-identifier-naming)\n"

def declaration : Template where
  text := "extern const astarte_interface_t $\x7bsymbol\x7d;"

def definition : Template where
  text :=
    "\n" ++
    "static const astarte_mapping_t $\x7bmappings_symbol\x7d[$\x7bmappings_length\x7d] = \x7b\n" ++
    "$\x7bmappings\x7d\n" ++
    "\x7d;\n\n" ++
    "const astarte_interface_t $\x7bsymbol\x7d = \x7b\n" ++
    "    .name = \"$\x7bname\x7d\",\n" ++
    "    .major_version = $\x7bversion_major\x7d,\n" ++
    "    .minor_version = $\x7bversion_minor\x7d,\n" ++
    "    .type = $\x7btype\x7d,\n" ++
    "    .ownership = $\x7bownership\x7d,\n" ++
    "    .aggregation = $\x7baggregation\x7d,\n" ++
    "    .mappings = $\x7bmappings_symbol\x7d,\n" ++
    "    .mappings_length = $\x7bmappings_length\x7dU,\n" ++
    "\x7d;"

def mapping : Template where
  text :=
    "\n" ++
    "    \x7b\n" ++
    "        .endpoint = \"$\x7bendpoint\x7d\",\n" ++
    "        .type = $\x7btype\x7d,\n" ++
    "        .reliability = $\x7breliability\x7d,\n" ++
    "        .explicit_timestamp = $\x7bexplicit_timestamp\x7d,\n" ++
    "        .allow_unset = $\x7ballow_unset\x7d,\n" ++
    "    \x7d,"

end Template

end InterfaceTables

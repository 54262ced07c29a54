import CSpelling.Text.Basic

/-!
# Vocabulary

The names that a C type spelling is read with and the descriptors that they stand for.

* `primitives` and `standardStructs` map whole spellings to descriptors, `fragments` replaces parts
  of a spelling.
* `integerTypes` and `floatTypes` list the arithmetic spellings.
* `specifiers` gives the usual order of arithmetic specifier words.
* `qualifiers` are the words that carry no meaning here.

A descriptor with a path, such as that of `handle`, names a type of another package.
-/

namespace CSpelling

/-- The path of the package that holds the counterparts of library types. -/
def runtimePackage : Text := "github.com/Konstantin8105/c4go/noarch".toList

/-- The descriptor of a type of the runtime package. -/
def runtimeType (name : String) : Text := runtimePackage ++ '.' :: name.toList

/-- The descriptor that stands for any value. -/
def anyType : Text := "interface\x7b\x7d".toList

/-- The descriptor of a stream, which is used through a single pointer. -/
def handle : Text := runtimeType "File"

/-- The words without meaning for a type's representation. -/
def qualifiers : List Text :=
  ["const".toList, "volatile".toList, "__restrict".toList, "restrict".toList, "_Nullable".toList]

/-! ## Whole spellings -/

/-- The spellings of primitive types and their descriptors. -/
def primitives : List (Text × Text) :=
  [("_Bool".toList, "int".toList),
   ("bool".toList, "bool".toList),
   ("char".toList, "byte".toList),
   ("char *".toList, "[]byte".toList),
   ("double".toList, "float64".toList),
   ("float".toList, "float32".toList),
   ("int".toList, "int".toList),
   ("long".toList, "int32".toList),
   ("long double".toList, "float64".toList),
   ("long int".toList, "int32".toList),
   ("long long".toList, "int64".toList),
   ("long long int".toList, "int64".toList),
   ("long long unsigned int".toList, "uint64".toList),
   ("long unsigned int".toList, "uint32".toList),
   ("short".toList, "int16".toList),
   ("signed char".toList, "int8".toList),
   ("unsigned char".toList, "uint8".toList),
   ("unsigned int".toList, "uint32".toList),
   ("unsigned long".toList, "uint32".toList),
   ("unsigned long long".toList, "uint64".toList),
   ("unsigned short".toList, "uint16".toList),
   ("unsigned short int".toList, "uint16".toList),
   ("void".toList, []),
   ("void *".toList, anyType),
   ("null".toList, "null".toList),
   ("__uint16_t".toList, "uint16".toList),
   ("__uint32_t".toList, "uint32".toList),
   ("__uint64_t".toList, "uint64".toList),
   ("uint32".toList, "uint32".toList),
   ("uint64".toList, "uint64".toList),
   ("FILE".toList, handle),
   ("__builtin_va_list".toList, "int64".toList),
   ("__int128".toList, "int64".toList),
   ("__mbstate_t".toList, "int64".toList),
   ("__sFILEX".toList, anyType),
   ("__sbuf".toList, "int64".toList),
   ("unsigned __int128".toList, "uint64".toList)]

/-- The types of the standard library that have a counterpart. -/
def standardStructs : List (Text × Text) :=
  [("div_t".toList, runtimeType "DivT"),
   ("fpos_t".toList, "int".toList),
   ("ldiv_t".toList, runtimeType "LdivT"),
   ("lldiv_t".toList, runtimeType "LldivT"),
   ("struct tm".toList, runtimeType "Tm"),
   ("time_t".toList, runtimeType "TimeT"),
   ("tm".toList, runtimeType "Tm")]

/-! ## Parts of a spelling -/

/-- A spelling that contains this text stands for an `int`. -/
def localeStruct : Text := "__locale_struct".toList

/-- The texts that are replaced inside a spelling, in this order. -/
def fragments : List (Text × Text) :=
  [("struct __locale_data".toList, "int".toList),
   ("__locale_data".toList, "int".toList),
   ("__sFILEX".toList, "int".toList)]

/-! ## Arithmetic types -/

/-- The spellings of integer types. -/
def integerTypes : List Text :=
  ["int".toList, "long".toList, "long long".toList, "long long int".toList,
   "long long unsigned int".toList, "long unsigned int".toList, "short".toList,
   "unsigned int".toList, "unsigned long".toList, "unsigned long long".toList,
   "unsigned short".toList, "unsigned short int".toList]

/-- The spellings of floating types. -/
def floatTypes : List Text := ["double".toList, "float".toList, "long double".toList]

/-- Arithmetic specifier words, in any order, and the spelling usual for them. -/
def specifiers : List (List Text × Text) :=
  let char := "char".toList
  let double := "double".toList
  let int := "int".toList
  let long := "long".toList
  let short := "short".toList
  let signed := "signed".toList
  let unsigned := "unsigned".toList
  [([char, signed], "signed char".toList),
   ([char, unsigned], "unsigned char".toList),
   ([double, long], "long double".toList),
   ([int, long], "long".toList),
   ([int, long, long], "long long".toList),
   ([int, long, long, signed], "long long".toList),
   ([int, long, long, unsigned], "unsigned long long".toList),
   ([int, long, signed], "long".toList),
   ([int, long, unsigned], "unsigned long".toList),
   ([int, short], "short".toList),
   ([int, short, signed], "short".toList),
   ([int, short, unsigned], "unsigned short".toList),
   ([int, signed], "int".toList),
   ([int, unsigned], "unsigned int".toList),
   ([long, long, signed], "long long".toList),
   ([long, long, unsigned], "unsigned long long".toList),
   ([long, signed], "long".toList),
   ([long, unsigned], "unsigned long".toList),
   ([short, signed], "short".toList),
   ([short, unsigned], "unsigned short".toList),
   ([signed], "int".toList),
   ([unsigned], "unsigned int".toList)]

/-- The usual spelling of a row of arithmetic specifier words; other rows are spelled as they
stand. -/
def usualSpelling (words : List Text) : Text :=
  match specifiers.find? fun entry => entry.1.isPerm words with
  | some (_, spelling) => spelling
  | none => [' '].intercalate words

/-! ## Aggregates -/

/-- The keyword of a structure, with its space. -/
def structKeyword : Text := "struct ".toList

/-- The keyword of a union, with its space. -/
def unionKeyword : Text := "union ".toList

/-- The keyword of an enumeration, with its space. -/
def enumKeyword : Text := "enum ".toList

/-- The keyword of a class, with its space. -/
def classKeyword : Text := "class ".toList

/-- What follows the first of the keywords that the spelling begins with. -/
def afterKeyword? (keywords : List Text) (s : Text) : Option Text :=
  keywords.findSome? (Text.dropStart? · s)

end CSpelling

/-! Words of C++: those that the scanner knows, and those that classification knows. -/

namespace Highlighter.Lexicon.Cpp

def scannedKeywords : List String :=
  ["auto", "break", "case", "const", "continue", "default", "do", "else", "enum", "extern", "for",
   "goto", "if", "register", "restricted", "return", "sizeof", "static", "struct", "switch",
   "typedef", "union", "volatile", "virtual", "while", "_Alignas", "_Alignof", "_Atomic",
   "_Generic", "_Imaginary", "_Noreturn", "_Static_assert", "_Thread_local", "asm", "catch",
   "class", "concept", "consteval", "constexpr", "constinit", "const_cast", "co_await", "co_return",
   "co_yield", "delete", "dynamic_cast", "explicit", "export", "friend", "import", "module",
   "mutable", "namespace", "new", "operator", "private", "protected", "public", "reinterpret_cast",
   "requires", "static_cast", "template", "this", "throw", "try", "typeid", "typename", "using",
   "final", "override", "alignas", "alignof", "decltype", "noexcept", "static_assert",
   "thread_local", "inline"]

def scannedTypes : List String :=
  ["int", "long", "float", "short", "double", "char", "unsigned", "signed", "void", "bool",
   "wchar_t", "char8_t", "char16_t", "char32_t", "jmp_buf", "FILE", "DIR", "div_t", "ldiv_t",
   "mbstate_t", "sig_atomic_t", "fpos_t", "clock_t", "time_t", "va_list", "size_t", "ssize_t",
   "off_t", "ptrdiff_t", "wctrans_t", "wint_t", "wctype_t", "_Bool", "_Complex", "int8_t",
   "int16_t", "int32_t", "int64_t", "uint8_t", "uint16_t", "uint32_t", "uint64_t", "int_least8_t",
   "int_least16_t", "int_least32_t", "int_least64_t", "uint_least8_t", "uint_least16_t",
   "uint_least32_t", "uint_least64_t", "int_fast8_t", "int_fast16_t", "int_fast32_t",
   "int_fast64_t", "uint_fast8_t", "uint_fast16_t", "uint_fast32_t", "uint_fast64_t", "intptr_t",
   "uintptr_t", "intmax_t", "uintmax_t"]

/-- Words that compilers reserve. -/
def scannedReserved : List String :=
  ["__asm", "__int8", "__based", "__except", "__int16", "__stdcall", "__cdecl", "__fastcall",
   "__int32", "__declspec", "__finally", "__int64", "__try", "__leave", "__inline", "__forceinline",
   "__restrict", "__thread", "__virtual_inheritance", "__uuidof", "__super", "__single_inheritance",
   "__multiple_inheritance", "__interface", "__event"]

/-- Words that no parenthesis or angle bracket turns into a call. -/
def neverCalled : List String :=
  ["if", "else", "for", "while", "do", "switch", "case", "break", "continue", "return", "goto",
   "try", "catch", "throw", "new", "delete", "sizeof", "typeof", "decltype", "namespace", "using",
   "template", "typename", "class", "struct", "enum", "union", "operator", "static_cast",
   "dynamic_cast", "reinterpret_cast", "const_cast", "alignof", "alignas", "noexcept",
   "static_assert"]

/-- Words that are keywords whatever the scanner makes of them. -/
def keywords : List String :=
  ["if", "else", "for", "while", "do", "switch", "case", "break", "continue", "return", "goto",
   "throw", "try", "catch", "default", "namespace", "using", "template", "typename", "class",
   "struct", "enum", "union", "virtual", "const", "static", "inline", "explicit", "operator", "new",
   "delete", "sizeof", "typeof", "decltype", "alignof", "alignas", "noexcept", "static_assert",
   "override", "final", "mutable", "volatile", "constexpr", "consteval", "constinit", "const_cast",
   "static_cast", "dynamic_cast", "reinterpret_cast", "auto", "register", "extern", "typedef",
   "friend", "private", "public", "protected", "true", "false", "nullptr", "NULL", "co_await",
   "co_return", "co_yield", "import", "module", "requires", "concept"]

/-- The keywords that direct the flow of control. -/
def controlKeywords : List String :=
  ["if", "else", "for", "while", "do", "switch", "break", "continue", "return", "goto", "throw",
   "try", "catch", "case", "default"]

/-- Specifiers after which a bare name is a declared variable. -/
def specifiers : List String :=
  ["const", "volatile", "mutable", "static", "inline", "extern"]

end Highlighter.Lexicon.Cpp

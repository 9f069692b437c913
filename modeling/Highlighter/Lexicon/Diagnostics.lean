/-! Words of compiler diagnostics and of the code that they quote. -/

namespace Highlighter.Lexicon.Diagnostics

def primitiveTypes : List String :=
  ["int", "float", "double", "bool", "char", "void", "auto", "long", "short", "unsigned", "signed",
   "size_t", "ptrdiff_t", "nullptr_t", "intptr_t", "uintptr_t", "wchar_t", "char8_t", "char16_t",
   "char32_t"]

def qualifiers : List String :=
  ["const", "volatile", "mutable", "constexpr", "consteval", "constinit"]

def valueCategories : List String :=
  ["rvalue", "lvalue", "prvalue", "xvalue", "glvalue"]

def excerptKeywords : List String :=
  ["return", "if", "else", "for", "while", "do", "switch", "case", "break", "continue", "new",
   "delete", "nullptr", "true", "false", "this", "static", "auto", "inline", "virtual", "override",
   "final", "noexcept", "explicit", "operator"]

end Highlighter.Lexicon.Diagnostics

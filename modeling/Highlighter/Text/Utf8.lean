/-! The UTF-8 form of text. -/

namespace Highlighter.Text

/-- The bytes of a text. -/
def utf8 (cs : List Char) : List UInt8 := cs.flatMap String.utf8EncodeChar

end Highlighter.Text

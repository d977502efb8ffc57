/-!
# Texts as bytes

The UTF-8 bytes of a text.
-/

namespace ChatMarkup

/-- The UTF-8 bytes of a text. -/
def utf8Bytes (text : String) : List UInt8 :=
  text.toList.flatMap String.utf8EncodeChar

end ChatMarkup

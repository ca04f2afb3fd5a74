import ApiRoutes.Text
/-!
# Text as bytes

The bytes of a text without surrogates, and the text of bytes that are UTF-8.
-/
namespace ApiRoutes.Text

def ofUtf8? (bytes : List UInt8) : Option Text :=
  (String.fromUTF8? (ByteArray.mk bytes.toArray)).map ofString

/-- The bytes of a text in UTF-8; surrogates have none. -/
def toUtf8? (t : Text) : Option (List UInt8) := t.toString?.map (·.toUTF8.data.toList)

end ApiRoutes.Text

/-!
# Text as bytes

Two ways from bytes to text: UTF-8, the form of typed lines and of files, and one character per byte
(code points 0 to 255), the form in which crunched code is listed.
-/

namespace LineBasic.Text

/-- The UTF-8 bytes of a text. -/
def utf8 (s : String) : List UInt8 :=
  s.toUTF8.data.toList

/-- The text with these UTF-8 bytes, if they are valid. -/
def ofUtf8? (bytes : List UInt8) : Option String :=
  String.fromUTF8? bytes.toByteArray

/-- The character whose code point is the byte. -/
def byteChar (b : UInt8) : Char :=
  Char.ofNat b.toNat

/-- One character per byte. -/
def ofBytes (bytes : List UInt8) : String :=
  String.ofList (bytes.map byteChar)

/-- The lines of a file.  A line ends with a newline byte, which is dropped together with one carriage
return before it; bytes after the last newline form a line of their own, unless there are none. -/
def fileLines (bytes : List UInt8) : List (List UInt8) :=
  go bytes []
where
  /-- `line` holds the bytes of the current line, last byte first. -/
  go : List UInt8 → List UInt8 → List (List UInt8)
    | [], [] => []
    | [], line => [line.reverse]
    | b :: rest, line =>
      if b = 0x0A then
        (match line with
          | 0x0D :: line => line.reverse
          | line => line.reverse) :: go rest []
      else go rest (b :: line)

end LineBasic.Text

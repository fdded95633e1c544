import ChatApi.Http.MediaType

/-!
# Bodies of several parts

Each part stands behind a line with the boundary and has a disposition that names it; the last
boundary line ends in two dashes.
-/

namespace ChatApi.Http

/-- A part of a form. -/
structure Part where
  name : String
  fileName : Option String
  contentType : Option String
  data : ByteArray

/-- A file name between quotes: quotes, backslashes and line ends stand behind a backslash. -/
def quoteFileName (s : String) : String :=
  String.ofList (s.toList.flatMap fun c =>
    if c = '\\' ∨ c = '"' ∨ c = '\r' ∨ c = '\n' then ['\\', c] else [c])

namespace Part

/-- The lines before the data of a part. -/
def head (p : Part) : String :=
  "Content-Disposition: form-data; name=\"" ++ p.name ++ "\"" ++
    ((p.fileName.map fun f => "; filename=\"" ++ quoteFileName f ++ "\"").getD "") ++
    ((p.contentType.map ("\r\nContent-Type: " ++ ·)).getD "") ++ "\r\n\r\n"

def encode (boundary : String) (p : Part) : ByteArray :=
  ("--" ++ boundary ++ "\r\n" ++ p.head).toUTF8 ++ p.data ++ "\r\n".toUTF8

end Part

/-- The body that the parts make up. -/
def multipart (boundary : String) (parts : List Part) : ByteArray :=
  parts.foldl (fun body p => body ++ p.encode boundary) ByteArray.empty ++
    ("--" ++ boundary ++ "--\r\n").toUTF8

end ChatApi.Http

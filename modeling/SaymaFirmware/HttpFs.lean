import SaymaFirmware.Lib.Stores

/-!
# HTTP headers: `httpd_structs.h` and `get_http_headers` of `lwip_fs.c`

Names and texts are lists of bytes without the terminating NUL. `get_http_headers` fills its buffer with `strcpy` and `strcat`, so its
effect is the sequence of stores it makes, the NULs included.
-/

namespace SaymaFirmware

/-- The bytes of an ASCII text. -/
def bytesOf (s : String) : List UInt8 := s.toList.map Char.toUInt8

/-- `g_psHTTPHeaderStrings`. -/
def gPsHttpHeaderStrings : List String :=
  ["Content-type: text/html\r\n\r\n",
    "Content-type: text/html\r\nExpires: Fri, 10 Apr 2008 14:00:00 GMT\r\nPragma: no-cache\r\n\r\n",
    "Content-type: image/gif\r\n\r\n",
    "Content-type: image/png\r\n\r\n",
    "Content-type: image/jpeg\r\n\r\n",
    "Content-type: image/bmp\r\n\r\n",
    "Content-type: image/x-icon\r\n\r\n",
    "Content-type: application/octet-stream\r\n\r\n",
    "Content-type: application/x-javascript\r\n\r\n",
    "Content-type: application/x-javascript\r\n\r\n",
    "Content-type: text/css\r\n\r\n",
    "Content-type: application/x-shockwave-flash\r\n\r\n",
    "Content-type: text/xml\r\n\r\n",
    "Content-type: text/plain\r\n\r\n",
    "HTTP/1.0 200 OK\r\n",
    "HTTP/1.0 404 File not found\r\n",
    "HTTP/1.0 400 Bad Request\r\n",
    "HTTP/1.0 501 Not Implemented\r\n",
    "HTTP/1.1 200 OK\r\n",
    "HTTP/1.1 404 File not found\r\n",
    "HTTP/1.1 400 Bad Request\r\n",
    "HTTP/1.1 501 Not Implemented\r\n",
    "Content-Length: ",
    "Connection: Close\r\n",
    "Connection: keep-alive\r\n",
    "Server: lwIP/1.3.1 (http://savannah.nongnu.org/projects/lwip)\r\n",
    "\r\n<html><body><h2>404: The requested file cannot be found.</h2></body></html>\r\n"]

/-- `HTTP_HDR_DEFAULT_TYPE`. -/
def httpHdrDefaultType : Nat := 13
/-- `HTTP_HDR_OK`. -/
def httpHdrOk : Nat := 14
/-- `HTTP_HDR_NOT_FOUND`. -/
def httpHdrNotFound : Nat := 15
/-- `HTTP_HDR_BAD_REQUEST`. -/
def httpHdrBadRequest : Nat := 16
/-- `HTTP_HDR_NOT_IMPL`. -/
def httpHdrNotImpl : Nat := 17
/-- `HTTP_HDR_SERVER`. -/
def httpHdrServer : Nat := 25
/-- `DEFAULT_404_HTML`. -/
def default404Html : Nat := 26

/-- `g_psHTTPHeaders`: extensions, and the index of the text for each. -/
def gPsHttpHeaders : List (String × Nat) :=
  [("html", 0), ("htm", 0), ("shtml", 1), ("shtm", 1), ("ssi", 1), ("gif", 2), ("png", 3), ("jpg", 4), ("bmp", 5), ("ico", 6),
    ("class", 7), ("cls", 7), ("js", 8), ("ram", 9), ("css", 10), ("swf", 11), ("xml", 12), ("xsl", 12)]

/-- A text of `g_psHTTPHeaderStrings`. -/
def httpHeaderString (i : Nat) : List UInt8 := bytesOf (gPsHttpHeaderStrings.getD i "")

/-- `strstr(s, text) != NULL`. -/
def hasText (s text : List UInt8) : Bool := s.tails.any text.isPrefixOf

/-- What follows the last `c` of a text: `strrchr(s, c) + 1`, or `none` for `NULL`. -/
def afterLast (c : UInt8) : List UInt8 → Option (List UInt8)
  | [] => none
  | b :: s => match afterLast c s with
    | some rest => some rest
    | none => if b = c then some s else none

/-- The three texts `get_http_headers` puts together, or `none` where it returns 0 and stores nothing. An empty name stands for `NULL`
too. -/
def httpHeaderParts (fName : List UInt8) : Option (List UInt8 × List UInt8 × List UInt8) :=
  if fName = [] then
    some (httpHeaderString httpHdrNotFound, httpHeaderString httpHdrServer, httpHeaderString default404Html)
  else
    let status :=
      if hasText fName (bytesOf "404") then httpHdrNotFound
      else if hasText fName (bytesOf "400") then httpHdrBadRequest
      else if hasText fName (bytesOf "501") then httpHdrNotImpl
      else httpHdrOk
    match afterLast '.'.toUInt8 fName with
    | none => none
    | some pszExt =>
      let type := match gPsHttpHeaders.find? fun h => bytesOf h.1 = pszExt with
        | some h => h.2
        | none => httpHdrDefaultType
      some (httpHeaderString status, httpHeaderString httpHdrServer, httpHeaderString type)

/-- What `get_http_headers` leaves in the buffer up to the length it returns. -/
def httpHeader (fName : List UInt8) : List UInt8 :=
  match httpHeaderParts fName with
  | none => []
  | some (h₀, h₁, h₂) => h₀ ++ h₁ ++ h₂

/-- The stores of `get_http_headers`: a `strcpy` and two `strcat`. -/
def httpHeaderStores (fName : List UInt8) : List (Nat × UInt8) :=
  match httpHeaderParts fName with
  | none => []
  | some (h₀, h₁, h₂) =>
    storesAt 0 (h₀ ++ [0]) ++ storesAt h₀.length (h₁ ++ [0]) ++ storesAt (h₀ ++ h₁).length (h₂ ++ [0])

/-- The stores leave the header in the buffer. -/
theorem holdsAt_httpHeaderStores (fName : List UInt8) (m : Nat → UInt8) :
    HoldsAt (runStores (httpHeaderStores fName) m) 0 (httpHeader fName) := by
  unfold httpHeader httpHeaderStores
  cases httpHeaderParts fName with
  | none => exact HoldsAt.nil
  | some h =>
    obtain ⟨h₀, h₁, h₂⟩ := h
    simp only [runStores_append]
    -- each `strcat` starts at the NUL of the text before it
    have first := (HoldsAt.append.mp (HoldsAt.runStores_storesAt m 0 (h₀ ++ [0]))).1
    have second := first.runStores_extend (h₁ ++ [0])
    rw [← List.append_assoc, Nat.zero_add] at second
    have third := (HoldsAt.append.mp second).1.runStores_extend (h₂ ++ [0])
    rw [← List.append_assoc (h₀ ++ h₁), Nat.zero_add] at third
    exact (HoldsAt.append.mp third).1

end SaymaFirmware

import SaymaFirmware.HttpServe
import SaymaFirmware.Lib.CString

/-!
# The request parser: `http_server_netconn_serve` of `netconn_fs.c`

From `netbuf_data` on: the searches and the stores in the received buffer, and the calls of `fs_open` and `netconn_write` they lead to.
The memory from `buf` on is a list, whose first `buflen` bytes are the payload. A search that runs off the memory ends the run where it
is. `fs_open` is a parameter. The debug output and the version, which is only for the debug output, are left out.
-/

namespace SaymaFirmware

/-- A call the server makes. -/
inductive HttpCall where
  | fsOpen (name : List UInt8)
  | netconnWrite (data : List UInt8)
deriving DecidableEq, Repr

/-- A file `fs_open` returns: the header when `http_header_included` is set, and what the calls of `fs_read` get of it. -/
structure HttpFile where
  header : Option (List UInt8)
  reads : List (List UInt8)
deriving DecidableEq, Repr

/-- The writes for a file. -/
def HttpFile.send (f : HttpFile) : List HttpCall := f.header.toList.map .netconnWrite ++ f.reads.map .netconnWrite

/-- The calls that were made, and the memory from `buf` on after them. -/
structure HttpRun where
  calls : List HttpCall
  mem : List UInt8
deriving DecidableEq, Repr

/-- `CRLF`. -/
def crlf : List UInt8 := [13, 10]

/-- A space. -/
def sp : UInt8 := 32

/-- A question mark. -/
def questionMark : UInt8 := 63

/-- `supported_method`: both comparisons are with `strncmp`. -/
def supportedMethod (method : List UInt8) : Bool := (bytesOf "GET").isPrefixOf method || (bytesOf "POST").isPrefixOf method

/-- The calls for a name. -/
def serveName (fsOpen : List UInt8 → Option HttpFile) (name : List UInt8) : List HttpCall :=
  if name = bytesOf "/" then
    match fsOpen (bytesOf "/index.htm") with
    | some f => .fsOpen (bytesOf "/index.htm") :: f.send
    | none => match fsOpen (bytesOf "/index.html") with
      | some f => .fsOpen (bytesOf "/index.htm") :: .fsOpen (bytesOf "/index.html") :: f.send
      | none => [.fsOpen (bytesOf "/index.htm"), .fsOpen (bytesOf "/index.html"), .netconnWrite httpHtmlHdr,
          .netconnWrite httpIndexHtml]
  else match fsOpen name with
    | some f => .fsOpen name :: f.send
    | none => [.fsOpen name, .netconnWrite (httpHeader [])]

/-- From `strlen(buf)` on. -/
def serveString (fsOpen : List UInt8 → Option HttpFile) (buf : List UInt8) : HttpRun :=
  match cString buf with
  | some name => ⟨serveName fsOpen name, buf⟩
  | none => ⟨[], buf⟩

/-- From the search for the arguments on. -/
def serveArguments (fsOpen : List UInt8 → Option HttpFile) (buf : List UInt8) : HttpRun :=
  match strchr questionMark buf with
  | .hit i => serveString fsOpen (buf.set i 0)
  | .miss => serveString fsOpen buf
  | .fault => ⟨[], buf⟩

/-- From the search for the version on. -/
def serveTarget (fsOpen : List UInt8 → Option HttpFile) (buf : List UInt8) : HttpRun :=
  match strchr sp buf with
  | .hit i => serveArguments fsOpen (buf.set i 0)
  | .miss => serveArguments fsOpen buf
  | .fault => ⟨[], buf⟩

/-- From the search for the end of the method on. -/
def serveMethod (fsOpen : List UInt8 → Option HttpFile) (buf : List UInt8) : HttpRun :=
  match strchr sp buf with
  | .hit i =>
    let buf := buf.set i 0
    if supportedMethod buf then
      let r := serveTarget fsOpen (buf.drop (i + 1))
      ⟨r.calls, buf.take (i + 1) ++ r.mem⟩
    else ⟨[], buf⟩
  | .miss => ⟨[], buf⟩
  | .fault => ⟨[], buf⟩

/-- `http_server_netconn_serve` once a request is received. -/
def httpServerNetconnServe (fsOpen : List UInt8 → Option HttpFile) (buflen : Nat) (buf : List UInt8) : HttpRun :=
  if buflen < 5 then ⟨[], buf⟩
  else match strstr crlf buf with
    | .hit _ => serveMethod fsOpen buf
    | .miss => ⟨[], buf⟩
    | .fault => ⟨[], buf⟩

/-! ## What the parser uses -/

/-- For this payload the server's calls depend on the payload alone, and the memory behind it is left as it was. -/
structure UsesOnlyRequest (fsOpen : List UInt8 → Option HttpFile) (payload : List UInt8) : Prop where
  calls : ∀ behind₁ behind₂, behind₁.length = behind₂.length →
    (httpServerNetconnServe fsOpen payload.length (payload ++ behind₁)).calls =
      (httpServerNetconnServe fsOpen payload.length (payload ++ behind₂)).calls
  mem : ∀ behind, (httpServerNetconnServe fsOpen payload.length (payload ++ behind)).mem.drop payload.length = behind

/-- The searches stay in the payload, or their outcome makes no difference: it is too short, it has a NUL, the bytes before its first
space are no supported method, or it has a CRLF and two spaces. -/
def Delimited (payload : List UInt8) : Prop :=
  payload.length < 5 ∨ 0 ∈ payload ∨ (sp ∈ payload ∧ supportedMethod (before sp payload) = false) ∨
    (crlf <:+: payload ∧ 2 ≤ payload.count sp)

/-! ## The grammar of the request line -/

/-- The bytes before the first CRLF. -/
def requestLine : List UInt8 → Option (List UInt8)
  | [] => none
  | b :: payload => if crlf.isPrefixOf (b :: payload) then some [] else (requestLine payload).map (b :: ·)

/-- The line is METHOD SP TARGET, or METHOD SP TARGET SP and any text. -/
def RequestLine (line target : List UInt8) : Prop :=
  ∃ method, (method = bytesOf "GET" ∨ method = bytesOf "POST") ∧ sp ∉ target ∧
    (line = method ++ sp :: target ∨ ∃ text, line = method ++ sp :: (target ++ sp :: text))

/-- The response to a target without files. -/
def targetResponse (target : List UInt8) : HttpResponse :=
  if before questionMark target = bytesOf "/" then .homePage else .notFound

/-- The writes of a response, with the content of a file in one piece. -/
def HttpResponse.writes : HttpResponse → List (List UInt8)
  | .none => []
  | .homePage => [httpHtmlHdr, httpIndexHtml]
  | .notFound => [httpHeader []]
  | .file _ name content => [httpHeader name, content]

/-- Together they are the stream the connection is to send. -/
theorem HttpResponse.flatten_writes (r : HttpResponse) : r.writes.flatten = r.stream := by
  cases r <;> simp [HttpResponse.writes, HttpResponse.stream]

/-- What is written. -/
def HttpRun.written (r : HttpRun) : List (List UInt8) := r.calls.filterMap fun
  | .fsOpen _ => none
  | .netconnWrite data => some data

/-- Without files, and with a NUL right behind the payload, the server answers the request line as the grammar says. -/
structure FollowsGrammar (payload behind : List UInt8) : Prop where
  line : ∀ line target, requestLine payload = some line → RequestLine line target →
    (httpServerNetconnServe (fun _ => none) payload.length (payload ++ 0 :: behind)).written = (targetResponse target).writes
  other : (∀ line target, requestLine payload = some line → ¬ RequestLine line target) →
    (httpServerNetconnServe (fun _ => none) payload.length (payload ++ 0 :: behind)).written = HttpResponse.none.writes

/-- The payload has no CRLF or no space; or what stands before its first space is no supported method; or it is GET or POST and the line
is not just that and a slash. -/
def GrammarMet (payload : List UInt8) : Prop :=
  requestLine payload = none ∨ sp ∉ payload ∨ supportedMethod (before sp payload) = false ∨
    ((before sp payload = bytesOf "GET" ∨ before sp payload = bytesOf "POST") ∧
      requestLine payload ≠ some (before sp payload ++ sp :: bytesOf "/"))

end SaymaFirmware

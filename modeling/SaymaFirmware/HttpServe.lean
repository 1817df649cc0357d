import SaymaFirmware.HttpFs
import SaymaFirmware.Lib.Machine

/-!
# Serving HTTP: `http_server_netconn_serve` and the TCP thread

`http_server_netconn_serve` of `netconn_fs.c`, with `fs_open`, `fs_read` and `fs_close` of `lwip_fs.c`, serves one connection after the
other. `netconn_write` with `NETCONN_NOCOPY` queues references to the caller's memory, and the TCP thread reads the bytes when it sends
them, as often as it likes until they are acknowledged. Memory is stored, queued and sent byte by byte. Which response a request gets is
left open.
-/

namespace SaymaFirmware

/-! ## Memory -/

/-- The blocks of memory a segment can refer to. -/
inductive HttpObj where
  /-- The static `file_buffer`. -/
  | fileBuffer
  /-- The `scratch` of a `struct file_ds` on the heap. -/
  | scratch (block : Nat)
  /-- The constant `http_html_hdr`. -/
  | httpHtmlHdr
  /-- The constant `http_index_html`. -/
  | httpIndexHtml
deriving DecidableEq, Repr

/-- A byte of one of them. -/
structure HttpAddr where
  obj : HttpObj
  off : Nat
deriving DecidableEq, Repr

/-- `http_html_hdr`. -/
def httpHtmlHdr : List UInt8 := bytesOf "HTTP/1.1 200 OK\r\nContent-type: text/html\r\n\r\n"

/-- `http_index_html`. -/
def httpIndexHtml : List UInt8 :=
  bytesOf ("<html><head><title>Congrats!</title></head><body><h1>Welcome to our lwIP HTTP server!</h1>" ++
    "<p>This is a small test page, served by httpserver-netconn.</body></html>")

/-! ## State -/

/-- A connection: what it is to send (the header followed by the content), the bytes queued, and how many of them are acknowledged. -/
structure HttpConn where
  stream : List UInt8
  queued : List HttpAddr
  acked : Nat

/-- A byte the TCP thread has sent for an offset of a connection's stream. -/
structure SentByte where
  conn : Nat
  offset : Nat
  byte : UInt8
deriving DecidableEq, Repr

/-- What follows a `netconn_write`. -/
inductive HttpNext where
  /-- The `netconn_write` of `http_index_html`. -/
  | indexHtml
  /-- `close_and_exit` without a file. -/
  | close
  /-- The next `fs_read` of the file, of which `rest` is left. -/
  | read (block : Nat) (rest : List UInt8)
deriving DecidableEq, Repr

/-- Where the server is. -/
inductive HttpPc where
  /-- At `netconn_accept`, or before the response to the request. -/
  | accept
  /-- In `get_http_headers` or `fs_read`, with the stores that are left; then the first `len` bytes of `obj` are written. -/
  | fill (obj : HttpObj) (stores : List (Nat × UInt8)) (len : Nat) (next : HttpNext)
  /-- In `netconn_write`, with `k` of `len` bytes queued. -/
  | write (obj : HttpObj) (len k : Nat) (next : HttpNext)
  /-- At `fs_read`. -/
  | read (block : Nat) (rest : List UInt8)
  /-- At `close_and_exit`. -/
  | close (file : Option Nat)
deriving DecidableEq, Repr

/-- The server, the connections up to the current one, the memory, the heap blocks the server holds, and what has been sent. -/
structure HttpState where
  pc : HttpPc
  current : Nat
  conns : Nat → HttpConn
  mem : HttpObj → Nat → UInt8
  live : Nat → Bool
  sent : List SentByte

/-- No connection yet. -/
def httpInit (mem : HttpObj → Nat → UInt8) : HttpState :=
  { pc := .accept, current := 0, conns := fun _ => ⟨[], [], 0⟩, mem := mem, live := fun _ => false, sent := [] }

/-- The memory of a block; the constants are in flash. -/
def HttpState.block (s : HttpState) : HttpObj → Nat → UInt8
  | .httpHtmlHdr => fun off => httpHtmlHdr.getD off 0
  | .httpIndexHtml => fun off => httpIndexHtml.getD off 0
  | obj => s.mem obj

/-- The byte at an address. -/
def HttpState.load (s : HttpState) (a : HttpAddr) : UInt8 := s.block a.obj a.off

/-- Store a byte. -/
def HttpState.store (s : HttpState) (a : HttpAddr) (b : UInt8) : HttpState :=
  { s with mem := Function.update s.mem a.obj (Function.update (s.mem a.obj) a.off b) }

/-! ## The server -/

/-- The responses to a request. -/
inductive HttpResponse where
  /-- None: the request line is not right. -/
  | none
  /-- The home page from memory. -/
  | homePage
  /-- The file cannot be opened. -/
  | notFound
  /-- `fs_open` takes a block of the heap for the file. -/
  | file (block : Nat) (name content : List UInt8)
deriving DecidableEq, Repr

/-- Where the server goes after a `netconn_write`. -/
def HttpNext.pc : HttpNext → HttpPc
  | .indexHtml => .write .httpIndexHtml httpIndexHtml.length 0 .close
  | .close => .close none
  | .read block rest => .read block rest

/-- What the connection is to send. -/
def HttpResponse.stream : HttpResponse → List UInt8
  | .none => []
  | .homePage => httpHtmlHdr ++ httpIndexHtml
  | .notFound => httpHeader []
  | .file _ name content => httpHeader name ++ content

/-- The first thing the server does for it. -/
def HttpResponse.pc : HttpResponse → HttpPc
  | .none => .close Option.none
  | .homePage => .write .httpHtmlHdr httpHtmlHdr.length 0 .indexHtml
  | .notFound => .fill .fileBuffer (httpHeaderStores []) (httpHeader []).length .close
  | .file block name content => .fill (.scratch block) (httpHeaderStores name) (httpHeader name).length (.read block content)

/-- The block `malloc` gives `fs_open`: one that is not in use. -/
def HttpState.alloc (s : HttpState) : HttpResponse → Option (Nat → Bool)
  | .file block _ _ => if s.live block then Option.none else some (Function.update s.live block true)
  | _ => some s.live

/-- A request on a new connection. -/
def HttpState.accept (s : HttpState) (r : HttpResponse) : Option HttpState :=
  match s.pc with
  | .accept => (s.alloc r).map fun live =>
    { s with
      pc := r.pc
      current := s.current + 1
      conns := Function.update s.conns (s.current + 1) ⟨r.stream, [], 0⟩
      live := live }
  | _ => none

/-- `fs_read(fs, file_buffer, sizeof(file_buffer))`: it gets `n` bytes of the file, or as many as are left. -/
def HttpState.fsRead (s : HttpState) (n : Nat) : Option HttpState :=
  match s.pc with
  | .read block rest =>
    if 1024 < n then none
    else if rest.take n = [] then some { s with pc := .close (some block) }
    else some { s with pc := .fill .fileBuffer (storesAt 0 (rest.take n)) (rest.take n).length (.read block (rest.drop n)) }
  | _ => none

/-- Queue a byte on the current connection. -/
def HttpState.queue (s : HttpState) (a : HttpAddr) : HttpState :=
  { s with
    conns := Function.update s.conns s.current
      { s.conns s.current with queued := (s.conns s.current).queued ++ [a] } }

/-- The server's other steps. -/
def HttpState.server (s : HttpState) : Option HttpState :=
  match s.pc with
  | .fill obj (x :: stores) len next => some { s.store ⟨obj, x.1⟩ x.2 with pc := .fill obj stores len next }
  | .fill obj [] len next => some { s with pc := .write obj len 0 next }
  | .write obj len k next =>
    if k < len then some { s.queue ⟨obj, k⟩ with pc := .write obj len (k + 1) next }
    else some { s with pc := next.pc }
  | .close (some block) => some { s with live := Function.update s.live block false, pc := .accept }
  | .close none => some { s with pc := .accept }
  | _ => none

/-! ## Steps -/

/-- A step of the server, of the TCP thread, or of another user of the heap. -/
inductive HttpAct where
  | accept (r : HttpResponse)
  | fsRead (n : Nat)
  | server
  /-- The TCP thread sends a byte that is not acknowledged. -/
  | send (conn offset : Nat)
  /-- The peer acknowledges the first `n` bytes. -/
  | ack (conn n : Nat)
  /-- Someone else stores into a block the server does not hold. -/
  | scribble (block off : Nat) (b : UInt8)
deriving DecidableEq, Repr

/-- The TCP thread sends a byte, as it is in memory now. -/
def HttpState.send (s : HttpState) (conn offset : Nat) : Option HttpState :=
  if (s.conns conn).acked ≤ offset then
    (s.conns conn).queued[offset]?.map fun a => { s with sent := s.sent ++ [⟨conn, offset, s.load a⟩] }
  else none

/-- An acknowledgement of bytes that are queued. -/
def HttpState.ack (s : HttpState) (conn n : Nat) : Option HttpState :=
  if (s.conns conn).acked ≤ n ∧ n ≤ (s.conns conn).queued.length then
    some { s with conns := Function.update s.conns conn { s.conns conn with acked := n } }
  else none

/-- A step of one of them. -/
def httpStep (s : HttpState) : HttpAct → Option HttpState
  | .accept r => s.accept r
  | .fsRead n => s.fsRead n
  | .server => s.server
  | .send conn offset => s.send conn offset
  | .ack conn n => s.ack conn n
  | .scribble block off b => if s.live block then none else some (s.store ⟨.scratch block, off⟩ b)

/-! ## The body -/

/-- Each byte sent is the byte of the stream, and the memory of each byte that may still be sent holds it and has not been freed. -/
structure BodyIntact (s : HttpState) : Prop where
  sent : ∀ e ∈ s.sent, (s.conns e.conn).stream[e.offset]? = some e.byte
  queued : ∀ c i a, (s.conns c).acked ≤ i → (s.conns c).queued[i]? = some a →
    (s.conns c).stream[i]? = some (s.load a) ∧ ∀ block, a.obj = .scratch block → s.live block = true

/-- An unacknowledged byte of some connection refers to such an address. -/
def HttpState.refers (s : HttpState) (p : HttpAddr → Bool) : Bool :=
  (List.range (s.current + 1)).any fun c => ((s.conns c).queued.drop (s.conns c).acked).any p

/-- An address of `file_buffer` that the stores overwrite. -/
def overwritten (stores : List (Nat × UInt8)) (a : HttpAddr) : Bool := a.obj = .fileBuffer && stores.any fun x => x.1 = a.off

/-- When `GetHTTP_Header` or `fs_read` begins to fill `file_buffer`, nothing unacknowledged refers to what it overwrites, and when
`fs_close` frees a file, nothing unacknowledged refers to its header. -/
def reuseAcked (s : HttpState) : HttpAct → Bool
  | .accept .notFound => !s.refers (overwritten (httpHeaderStores []))
  | .fsRead n => match s.pc with
    | .read _ rest => !s.refers (overwritten (storesAt 0 (rest.take n)))
    | _ => true
  | .server => match s.pc with
    | .close (some block) => !s.refers fun a => a.obj = .scratch block
    | _ => true
  | _ => true

end SaymaFirmware

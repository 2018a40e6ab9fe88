import Laminar.Llama.Text

/-! The two HTTP clients of `backend/inference_backend.cc`: `HttpPostJson`, which reads the
whole response before it looks at it, and `HttpPostJsonStream`, which hands the body on as it
arrives. A connection is the script of what the system calls answer. -/
namespace Laminar.Llama
open Laminar.Lines

structure ParsedHttpUrl where
  valid : Bool := false
  host : Bytes := []
  port : Bytes := []
  path : Bytes := []
deriving DecidableEq

/-- `authority.rfind(':')`. -/
def rfind (c : UInt8) (value : Bytes) : Option Nat :=
  (find [c] value.reverse).map (fun i => value.length - 1 - i)

def parseHttpUrl (rawUrl : Bytes) : ParsedHttpUrl :=
  if !startsWith rawUrl (text "http://") then {}
  else
    let rest := rawUrl.drop (text "http://").length
    let slash := find (text "/") rest
    let authority := rest.take (slash.getD rest.length)
    let path := match slash with
      | none => text "/"
      | some i => rest.drop i
    if authority = [] then { path := path }
    else
      let colon := rfind 58 authority
      let host := authority.take (colon.getD authority.length)
      let port := match colon with
        | none => text "80"
        | some i => authority.drop (i + 1)
      { valid := !host.isEmpty && !port.isEmpty && !path.isEmpty
        host := host, port := port, path := path }

def endpointForOutput (rawUrl : Bytes) : Bytes :=
  let parsed := parseHttpUrl rawUrl
  if !parsed.valid then rawUrl
  else parsed.host ++ text ":" ++ parsed.port ++ parsed.path

structure HttpResponse where
  ok : Bool := false
  statusCode : Int := 0
  firstResponseByteMicros : Int := -1
  body : Bytes := []
  error : Bytes := []
deriving DecidableEq

/-- A `recv` that returns a positive number of bytes, or fails with `EINTR`. -/
inductive Read where
  | data (first : UInt8) (rest : Bytes)
  | interrupted
deriving DecidableEq

def Read.bytes : Read → Bytes
  | .data first rest => first :: rest
  | .interrupted => []

/-- What the system calls of one request answer. `addresses` is what `getaddrinfo` found, each
address with whether a socket connects to it; `sends` are the counts `send` returns before it
fails; `recv` gives `reads` and then either the end of the stream or an error. -/
structure Connection where
  addresses : Option (List Bool)
  sends : List Nat
  reads : List Read
  closed : Bool
  firstByteMicros : Int := 0
  elapsedMicros : Int := 0
deriving DecidableEq

def received (reads : List Read) : Bytes := reads.flatMap Read.bytes

def requestText (url : ParsedHttpUrl) (body : Bytes) : Bytes :=
  text "POST " ++ url.path ++ text " HTTP/1.1\r\n"
    ++ text "Host: " ++ url.host ++ text ":" ++ url.port ++ text "\r\n"
    ++ text "Content-Type: application/json\r\n"
    ++ text "Content-Length: " ++ decimal body.length ++ text "\r\n"
    ++ text "Connection: close\r\n\r\n"
    ++ body

def cancelled : Bytes := text "cancelled"

section
variable (isCancelled : Nat → Bool)

def connectLoop (url : ParsedHttpUrl) : List Bool → Nat → Option Bytes × Nat
  | [], polls =>
    (some (text "failed to connect to llama server at " ++ url.host ++ text ":" ++ url.port), polls)
  | connects :: rest, polls =>
    if isCancelled polls then (some cancelled, polls + 1)
    else if connects then (none, polls + 1)
    else connectLoop url rest (polls + 1)

def sendLoop : List Nat → Nat → Nat → Option Bytes × Nat
  | [], unsent, polls =>
    if unsent = 0 then (none, polls)
    else if isCancelled polls then (some cancelled, polls + 1)
    else (some (text "failed to send request to llama server"), polls + 1)
  | bytes :: rest, unsent, polls =>
    if unsent = 0 then (none, polls)
    else if isCancelled polls then (some cancelled, polls + 1)
    else if bytes = 0 then (some (text "failed to send request to llama server"), polls + 1)
    else sendLoop rest (unsent - bytes) (polls + 1)

/-- What both clients do before they read: resolve, connect and send. -/
def postRequest (url : ParsedHttpUrl) (body : Bytes) (c : Connection) (polls : Nat) :
    Option Bytes × Nat :=
  match c.addresses with
  | none => (some (text "getaddrinfo failed for " ++ url.host ++ text ":" ++ url.port), polls)
  | some addresses =>
    match connectLoop isCancelled url addresses polls with
    | (some error, polls) => (some error, polls)
    | (none, polls) => sendLoop isCancelled c.sends (requestText url body).length polls

def readError : Bytes := text "failed to read response from llama server"

def headerEnd : Bytes := text "\r\n\r\n"

def statusOf (rawResponse : Bytes) : Int :=
  readStatusCode (rawResponse.take ((find (text "\r\n") rawResponse).getD rawResponse.length))

def success (statusCode : Int) : Bool := decide (statusCode ≥ 200) && decide (statusCode < 300)

def statusError (statusCode : Int) : Bytes :=
  text "llama server returned HTTP " ++ decimal statusCode

/-- `first_response_byte_micros` is set by the first read that brings bytes. -/
def HttpResponse.timed (r : HttpResponse) (c : Connection) : HttpResponse :=
  { r with firstResponseByteMicros :=
      if r.firstResponseByteMicros < 0 then c.firstByteMicros else r.firstResponseByteMicros }

/-- The read loop of `HttpPostJson`: whether it reached the end of the stream. -/
def readLoop (c : Connection) : List Read → HttpResponse → Bytes → Nat →
    Bool × HttpResponse × Bytes × Nat
  | [], r, raw, polls =>
    if isCancelled polls then (false, { r with error := cancelled }, raw, polls + 1)
    else if c.closed then (true, r, raw, polls + 1)
    else (false, { r with error := readError }, raw, polls + 1)
  | .interrupted :: rest, r, raw, polls =>
    if isCancelled polls then (false, { r with error := cancelled }, raw, polls + 1)
    else readLoop c rest r raw (polls + 1)
  | .data first bytes :: rest, r, raw, polls =>
    if isCancelled polls then (false, { r with error := cancelled }, raw, polls + 1)
    else
      let r := r.timed c
      let raw := raw ++ first :: bytes
      if raw.length > 1024 * 1024 then
        (false, { r with error := text "llama server response exceeded 1 MiB" }, raw, polls + 1)
      else readLoop c rest r raw (polls + 1)

def missingHeaders : Bytes := text "llama server response was missing HTTP headers"

def splitResponse (r : HttpResponse) (raw : Bytes) : HttpResponse :=
  match find headerEnd raw with
  | none => { r with error := missingHeaders }
  | some header =>
    let statusCode := statusOf raw
    { r with
      statusCode := statusCode
      body := raw.drop (header + 4)
      ok := success statusCode
      error := if success statusCode then r.error else statusError statusCode }

def httpPostJson (url : ParsedHttpUrl) (body : Bytes) (c : Connection) (polls : Nat) :
    HttpResponse × Nat :=
  match postRequest isCancelled url body c polls with
  | (some error, polls) => ({ error := error }, polls)
  | (none, polls) =>
    match readLoop isCancelled c c.reads {} [] polls with
    | (true, r, raw, polls) => (splitResponse r raw, polls)
    | (false, r, _, polls) => (r, polls)

/-- The local variables of `HttpPostJsonStream` and the state behind its callback. -/
structure StreamRead (σ : Type) where
  headersParsed : Bool := false
  buffered : Bytes := []
  response : HttpResponse := {}
  sink : σ

variable {σ : Type} (onBody : Bytes → σ → Bool × σ)

def StreamRead.handOn (r : StreamRead σ) (piece : Bytes) : Bool × StreamRead σ :=
  let s := onBody piece r.sink
  if s.1 then (true, { r with sink := s.2 })
  else (false, { r with sink := s.2, response := { r.response with error := cancelled } })

/-- What the read loop does with the bytes of one read; `false` when the function returns. -/
def StreamRead.receive (r : StreamRead σ) (bytes : Bytes) : Bool × StreamRead σ :=
  if !r.headersParsed then
    let buffered := r.buffered ++ bytes
    match find headerEnd buffered with
    | none =>
      if buffered.length > 64 * 1024 then
        (false, { r with
          buffered := buffered
          response := { r.response with
            error := text "llama server response headers exceeded 64 KiB" } })
      else (true, { r with buffered := buffered })
    | some header =>
      let statusCode := statusOf buffered
      let piece := buffered.drop (header + 4)
      let r : StreamRead σ := { r with
        headersParsed := true
        buffered := []
        response := { r.response with statusCode := statusCode, ok := success statusCode } }
      if piece = [] then (true, r)
      else if r.response.ok then r.handOn onBody piece
      else (true, { r with response := { r.response with body := r.response.body ++ piece } })
  else if r.response.ok then r.handOn onBody bytes
  else
    let response := { r.response with body := r.response.body ++ bytes }
    if response.body.length > 1024 * 1024 then
      (false, { r with response :=
        { response with error := text "llama server response exceeded 1 MiB" } })
    else (true, { r with response := response })

def streamLoop (c : Connection) : List Read → StreamRead σ → Nat → Bool × StreamRead σ × Nat
  | [], r, polls =>
    if isCancelled polls then
      (false, { r with response := { r.response with error := cancelled } }, polls + 1)
    else if c.closed then (true, r, polls + 1)
    else (false, { r with response := { r.response with error := readError } }, polls + 1)
  | .interrupted :: rest, r, polls =>
    if isCancelled polls then
      (false, { r with response := { r.response with error := cancelled } }, polls + 1)
    else streamLoop c rest r (polls + 1)
  | .data first bytes :: rest, r, polls =>
    if isCancelled polls then
      (false, { r with response := { r.response with error := cancelled } }, polls + 1)
    else
      let step := StreamRead.receive onBody { r with response := r.response.timed c }
        (first :: bytes)
      if step.1 then streamLoop c rest step.2 (polls + 1) else (false, step.2, polls + 1)

/-- What `HttpPostJsonStream` adds at the end of the stream. -/
def StreamRead.close (r : StreamRead σ) : HttpResponse :=
  if !r.headersParsed then { r.response with error := missingHeaders }
  else if !r.response.ok then
    { r.response with error := statusError r.response.statusCode }
  else r.response

def httpPostJsonStream (url : ParsedHttpUrl) (body : Bytes) (c : Connection) (sink : σ)
    (polls : Nat) : HttpResponse × σ × Nat :=
  match postRequest isCancelled url body c polls with
  | (some error, polls) => ({ error := error }, sink, polls)
  | (none, polls) =>
    match streamLoop isCancelled onBody c c.reads { sink := sink } polls with
    | (true, r, polls) => (r.close, r.sink, polls)
    | (false, r, polls) => (r.response, r.sink, polls)

end

end Laminar.Llama

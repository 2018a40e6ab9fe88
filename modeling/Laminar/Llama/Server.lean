import Laminar.Llama.Http
import Laminar.Llama.Json

/-! `LlamaServerBackend` of `backend/inference_backend.cc`, with the connection of each request
and the answers of `is_cancelled` and of the event callback as inputs. -/
namespace Laminar.Llama
open Laminar.Lines

inductive BackendStatusCode where
  | ok
  | cancelled
  | invalidArgument
  | unavailable
deriving DecidableEq

structure BackendRequest where
  id : Bytes := []
  prompt : Bytes := []
  traceId : Bytes := []
deriving DecidableEq

/-- A `std::map<std::string, std::string>`, entry by entry. -/
abbrev Metadata := List (Bytes × Bytes)

structure BackendResult where
  code : BackendStatusCode := .ok
  message : Bytes := []
  outputs : List Bytes := []
  outputMetadata : List Metadata := []
deriving DecidableEq

structure BackendStreamEvent where
  eventType : Bytes
  delta : Bytes := []
  result : Bytes := []
  metadata : Metadata := []
deriving DecidableEq

def cancelledResult : BackendResult := { code := .cancelled, message := text "batch cancelled" }

def unavailableResult (message : Bytes) : BackendResult :=
  { code := .unavailable, message := message }

/-- The members of `LlamaServerBackend`; `temperature` is the text of the clamped temperature
with three decimals. -/
structure LlamaServerBackend where
  serverUrl : Bytes
  maxTokens : Int
  temperature : Bytes
  cachePrompt : Bool
  stream : Bool
  timingsPerToken : Bool
deriving DecidableEq

/-- The constructor; the timeout only reaches the system calls. -/
def llamaServerBackend (serverUrl : Bytes) (maxTokens : Int) (temperature : Bytes)
    (cachePrompt stream timingsPerToken : Bool) : LlamaServerBackend :=
  { serverUrl := serverUrl, maxTokens := max 1 (min maxTokens 4096), temperature := temperature
    cachePrompt := cachePrompt, stream := stream, timingsPerToken := timingsPerToken }

def escapeSingleQuoted (value : Bytes) : Bytes :=
  value.flatMap (fun c =>
    if c = 92 ∨ c = 39 then [92, c]
    else if c = 10 ∨ c = 13 ∨ c = 9 then [32]
    else [c])

def buildLlamaServerMetadata (stream cachePrompt timingsPerToken : Bool)
    (completion : LlamaServerCompletion) (promptChars generatedChars ttftMicros : Int) : Metadata :=
  [(text "stream", boolToJson stream),
    (text "cache_prompt", boolToJson cachePrompt),
    (text "timings_per_token", boolToJson timingsPerToken),
    (text "stream_chunks", decimal completion.streamChunks),
    (text "ttft_micros", decimal ttftMicros),
    (text "tokens_predicted", decimal completion.tokensPredicted),
    (text "tokens_evaluated", decimal completion.tokensEvaluated),
    (text "prompt_chars", decimal promptChars),
    (text "generated_chars", decimal generatedChars)]

def formatLlamaServerOutput (b : LlamaServerBackend) (stream : Bool) (generated endpoint : Bytes)
    (promptChars durationMicros batchSize ttftMicros : Int) (completion : LlamaServerCompletion) :
    Bytes :=
  text "LlamaServer(backend=llama_server, generated='" ++ escapeSingleQuoted generated
    ++ text "', prompt_chars=" ++ decimal promptChars
    ++ text ", generated_chars=" ++ decimal generated.length
    ++ text ", duration_micros=" ++ decimal durationMicros
    ++ text ", batch_size=" ++ decimal batchSize
    ++ text ", endpoint='" ++ escapeSingleQuoted endpoint ++ text "'"
    ++ text ", max_tokens=" ++ decimal b.maxTokens
    ++ text ", temperature=" ++ b.temperature
    ++ text ", cache_prompt=" ++ boolToJson b.cachePrompt
    ++ text ", stream=" ++ boolToJson stream
    ++ text ", timings_per_token=" ++ boolToJson b.timingsPerToken
    ++ text ", stream_chunks=" ++ decimal completion.streamChunks
    ++ text ", ttft_micros=" ++ decimal ttftMicros
    ++ text ", tokens_predicted=" ++ decimal completion.tokensPredicted
    ++ text ", tokens_evaluated=" ++ decimal completion.tokensEvaluated ++ text ")"

def badUrl : Bytes := text "LAMINAR_LLAMA_SERVER_URL must be an http:// URL"

def noContent : Bytes := text "llama server response did not include a content field"

def unavailableMessage (response : HttpResponse) : Bytes :=
  let message :=
    if response.error = [] then text "llama server request failed" else response.error
  if response.body = [] then message
  else message ++ text ": " ++ collapseWhitespace response.body

def requestBody (b : LlamaServerBackend) (request : BackendRequest) (stream : Bool) : Bytes :=
  buildLlamaServerRequestBody request.prompt b.maxTokens b.temperature b.cachePrompt stream
    b.timingsPerToken

section
variable (b : LlamaServerBackend) (isCancelled : Nat → Bool)

/-- How the answer to one request of a batch is judged: the result that ends the batch, if any,
and the completion parsed. -/
def judgeResponse (response : HttpResponse) (polls : Nat) :
    Option BackendResult × LlamaServerCompletion :=
  if isCancelled polls = true ∨ response.error = cancelled then (some cancelledResult, {})
  else if !response.ok then (some (unavailableResult (unavailableMessage response)), {})
  else
    let completion := parseLlamaServerCompletion response.body b.stream
    if completion.content = [] then (some (unavailableResult noContent), completion)
    else (none, completion)

structure BatchOutcome where
  result : BackendResult := {}
  completions : List LlamaServerCompletion := []
deriving DecidableEq

def processRequests (url : ParsedHttpUrl) (batchSize : Nat) :
    List (BackendRequest × Connection) → BatchOutcome → Nat → BatchOutcome
  | [], outcome, _ => outcome
  | (request, c) :: rest, outcome, polls =>
    if isCancelled polls then { outcome with result := cancelledResult }
    else
      let r := httpPostJson isCancelled url (requestBody b request b.stream) c (polls + 1)
      let judged := judgeResponse b isCancelled r.1 r.2
      let completions := outcome.completions ++ [judged.2]
      match judged.1 with
      | some result => { result := result, completions := completions }
      | none =>
        let generated := collapseWhitespace judged.2.content
        let ttftMicros := r.1.firstResponseByteMicros
        let result := { outcome.result with
          outputs := outcome.result.outputs ++ [formatLlamaServerOutput b b.stream generated
            (endpointForOutput b.serverUrl) request.prompt.length c.elapsedMicros batchSize
            ttftMicros judged.2]
          outputMetadata := outcome.result.outputMetadata ++ [buildLlamaServerMetadata b.stream
            b.cachePrompt b.timingsPerToken judged.2 request.prompt.length generated.length
            ttftMicros] }
        processRequests url batchSize rest { result := result, completions := completions }
          (r.2 + 1)

def processBatch (requests : List (BackendRequest × Connection)) : BatchOutcome :=
  if isCancelled 0 then { result := cancelledResult }
  else
    let url := parseHttpUrl b.serverUrl
    if !url.valid then { result := unavailableResult badUrl }
    else processRequests b isCancelled url requests.length requests {} 1

structure StreamState where
  completion : LlamaServerCompletion := {}
  pendingLine : Bytes := []
  tokenIndex : Nat := 0
  events : List BackendStreamEvent := []
deriving DecidableEq

variable (accepts : List BackendStreamEvent → Bool)

/-- `emit` answers by what it has been given so far. -/
def StreamState.emit (s : StreamState) (event : BackendStreamEvent) : Bool × StreamState :=
  (accepts (s.events ++ [event]), { s with events := s.events ++ [event] })

def tokenEvent (chunk : LlamaServerChunk) (tokenIndex : Nat) (completion : LlamaServerCompletion) :
    BackendStreamEvent :=
  { eventType := text "token"
    delta := chunk.content
    metadata :=
      [(text "stream", text "true"),
        (text "token_index", decimal tokenIndex),
        (text "delta_chars", decimal chunk.content.length),
        (text "stream_chunks", decimal completion.streamChunks),
        (text "tokens_predicted", decimal completion.tokensPredicted),
        (text "tokens_evaluated", decimal completion.tokensEvaluated)] }

def consumeLine (line : Bytes) (s : StreamState) : Bool × StreamState :=
  let line := trimWhitespace line
  if !startsWith line (text "data:") then (true, s)
  else
    let data := trimWhitespace (line.drop (text "data:").length)
    if data = [] then (true, s)
    else
      let chunk := parseLlamaServerChunk data
      if chunk.done then (true, s)
      else
        let completion := LlamaServerCompletion.updateTokens
          { s.completion with streamChunks := s.completion.streamChunks + 1 } chunk
        if !chunk.hasContent then (true, { s with completion := completion })
        else
          let completion := { completion with content := completion.content ++ chunk.content }
          let event := tokenEvent chunk s.tokenIndex completion
          StreamState.emit accepts
            { s with completion := completion, tokenIndex := s.tokenIndex + 1 } event

/-- The loop of `on_body`; each round takes at least a newline off the pending bytes. -/
def drainLines : Nat → StreamState → Bool × StreamState
  | 0, s => (true, s)
  | rounds + 1, s =>
    match find [10] s.pendingLine with
    | none => (true, s)
    | some newline =>
      let r := consumeLine accepts (s.pendingLine.take newline)
        { s with pendingLine := s.pendingLine.drop (newline + 1) }
      if r.1 then drainLines rounds r.2 else (false, r.2)

def onBody (data : Bytes) (s : StreamState) : Bool × StreamState :=
  let pendingLine := s.pendingLine ++ data
  drainLines accepts pendingLine.length { s with pendingLine := pendingLine }

def flushLine (s : StreamState) : Bool × StreamState :=
  if s.pendingLine = [] then (true, s)
  else consumeLine accepts s.pendingLine { s with pendingLine := [] }

structure StreamOutcome where
  result : BackendResult
  events : List BackendStreamEvent := []
  completion : LlamaServerCompletion := {}
deriving DecidableEq

/-- The base class's `ProcessStream`, for a backend that is not in stream mode. -/
def baseProcessStream (request : BackendRequest) (c : Connection) : StreamOutcome :=
  let result := (processBatch b isCancelled [(request, c)]).result
  if result.code ≠ .ok then { result := result }
  else
    match result.outputs with
    | [output] =>
      let event : BackendStreamEvent :=
        { eventType := text "done", result := output, metadata := result.outputMetadata.headD [] }
      { result := if accepts [event] then result else cancelledResult, events := [event] }
    | _ => { result := unavailableResult (text "backend returned the wrong number of outputs") }

def finishStream (request : BackendRequest) (c : Connection) (response : HttpResponse)
    (s : StreamState) : StreamOutcome :=
  let generated := collapseWhitespace s.completion.content
  let ttftMicros := response.firstResponseByteMicros
  let metadata := buildLlamaServerMetadata true b.cachePrompt b.timingsPerToken s.completion
    request.prompt.length generated.length ttftMicros
  let output := formatLlamaServerOutput b true generated (endpointForOutput b.serverUrl)
    request.prompt.length c.elapsedMicros 1 ttftMicros s.completion
  let r := s.emit accepts { eventType := text "done", result := output, metadata := metadata }
  { result := if r.1 then { outputs := [output], outputMetadata := [metadata] } else cancelledResult
    events := r.2.events
    completion := s.completion }

def concludeStream (request : BackendRequest) (c : Connection) (response : HttpResponse)
    (s : StreamState) (polls : Nat) : StreamOutcome :=
  if isCancelled polls = true ∨ response.error = cancelled then
    { result := cancelledResult, events := s.events, completion := s.completion }
  else if !response.ok then
    { result := unavailableResult (unavailableMessage response)
      events := s.events, completion := s.completion }
  else
    let r := flushLine accepts s
    if !r.1 then
      { result := cancelledResult, events := r.2.events, completion := r.2.completion }
    else if r.2.completion.content = [] then
      { result := unavailableResult noContent
        events := r.2.events, completion := r.2.completion }
    else finishStream b accepts request c response r.2

def processStream (request : BackendRequest) (c : Connection) : StreamOutcome :=
  if !b.stream then baseProcessStream b isCancelled accepts request c
  else if isCancelled 0 then { result := cancelledResult }
  else
    let url := parseHttpUrl b.serverUrl
    if !url.valid then { result := unavailableResult badUrl }
    else
      let r := httpPostJsonStream isCancelled (onBody accepts) url (requestBody b request true) c
        ({} : StreamState) 1
      concludeStream b isCancelled accepts request c r.1 r.2.1 r.2.2

end

end Laminar.Llama

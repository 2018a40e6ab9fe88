import Laminar.Llama.Text

/-! The JSON text that `backend/inference_backend.cc` writes for llama-server and the fields
it picks out of what llama-server answers. -/
namespace Laminar.Llama
open Laminar.Lines

def boolToJson (value : Bool) : Bytes := if value then text "true" else text "false"

def hexDigit (value : UInt8) : UInt8 := if value < 10 then 48 + value else 87 + value

def jsonEscapeByte (c : UInt8) : Bytes :=
  if c = 34 then text "\\\""
  else if c = 92 then text "\\\\"
  else if c = 8 then text "\\b"
  else if c = 12 then text "\\f"
  else if c = 10 then text "\\n"
  else if c = 13 then text "\\r"
  else if c = 9 then text "\\t"
  else if c < 32 then text "\\u00" ++ [hexDigit (c / 16), hexDigit (c % 16)]
  else [c]

def jsonEscape (value : Bytes) : Bytes := value.flatMap jsonEscapeByte

def jsonStringValue (value : Bytes) : Bytes := text "\"" ++ jsonEscape value ++ text "\""

/-- `temperature` is the text that `FloatToString` makes of the temperature. -/
def buildLlamaServerRequestBody (prompt : Bytes) (maxTokens : Int) (temperature : Bytes)
    (cachePrompt stream timingsPerToken : Bool) : Bytes :=
  text "\x7b" ++ text "\"prompt\":" ++ jsonStringValue prompt
    ++ text ",\"n_predict\":" ++ decimal maxTokens
    ++ text ",\"temperature\":" ++ temperature
    ++ text ",\"stream\":" ++ boolToJson stream
    ++ text ",\"cache_prompt\":" ++ boolToJson cachePrompt
    ++ text ",\"return_tokens\":" ++ boolToJson timingsPerToken
    ++ text ",\"timings_per_token\":" ++ boolToJson timingsPerToken
    ++ text "\x7d"

def fieldText (json field : Bytes) : Option Bytes :=
  let key := text "\"" ++ field ++ text "\""
  match find key json with
  | none => none
  | some pos =>
    let rest := json.drop (pos + key.length)
    match find (text ":") rest with
    | none => none
    | some colon => some (rest.drop (colon + 1))

def unescape (c : UInt8) : UInt8 :=
  if c = 110 then 10 else if c = 114 then 13 else if c = 116 then 9 else c

def scanString : Bool → Bytes → Bytes → Option Bytes
  | _, _, [] => none
  | true, value, c :: rest => scanString false (value ++ [unescape c]) rest
  | false, value, c :: rest =>
    if c = 92 then scanString true value rest
    else if c = 34 then some value
    else scanString false (value ++ [c]) rest

def extractJsonStringField (json field : Bytes) : Option Bytes :=
  match fieldText json field with
  | none => none
  | some rest =>
    match rest.dropWhile isSpace with
    | [] => none
    | c :: rest => if c = 34 then scanString false [] rest else none

def extractJsonIntField (json field : Bytes) : Option Int :=
  match fieldText json field with
  | none => none
  | some rest => (strtol (rest.dropWhile isSpace)).map toInt

structure LlamaServerCompletion where
  content : Bytes := []
  tokensPredicted : Int := -1
  tokensEvaluated : Int := -1
  streamChunks : Int := 0
deriving DecidableEq

structure LlamaServerChunk where
  done : Bool := false
  hasContent : Bool := false
  content : Bytes := []
  tokensPredicted : Int := -1
  tokensEvaluated : Int := -1
deriving DecidableEq

def parseLlamaServerChunk (data : Bytes) : LlamaServerChunk :=
  let trimmed := trimWhitespace data
  if trimmed = text "[DONE]" then { done := true }
  else
    let content := extractJsonStringField trimmed (text "content")
    { hasContent := content.isSome
      content := content.getD []
      tokensPredicted := (extractJsonIntField trimmed (text "tokens_predicted")).getD (-1)
      tokensEvaluated := (extractJsonIntField trimmed (text "tokens_evaluated")).getD (-1) }

/-- A chunk's token counts, where it has any, replace those gathered so far. -/
def LlamaServerCompletion.updateTokens (completion : LlamaServerCompletion)
    (chunk : LlamaServerChunk) : LlamaServerCompletion :=
  { completion with
    tokensPredicted :=
      if chunk.tokensPredicted ≥ 0 then chunk.tokensPredicted else completion.tokensPredicted
    tokensEvaluated :=
      if chunk.tokensEvaluated ≥ 0 then chunk.tokensEvaluated else completion.tokensEvaluated }

def LlamaServerCompletion.append (completion : LlamaServerCompletion) (chunk : LlamaServerChunk) :
    LlamaServerCompletion :=
  if chunk.hasContent then { completion with content := completion.content ++ chunk.content }
  else completion

def mergeLlamaServerJsonChunk (json : Bytes) (completion : LlamaServerCompletion) :
    LlamaServerCompletion :=
  let chunk := parseLlamaServerChunk json
  if chunk.done then completion else (completion.append chunk).updateTokens chunk

def parseLine (completion : LlamaServerCompletion) (line : Bytes) : LlamaServerCompletion :=
  let line := trimWhitespace line
  if startsWith line (text "data:") then
    let data := trimWhitespace (line.drop (text "data:").length)
    if data = [] ∨ data = text "[DONE]" then completion
    else mergeLlamaServerJsonChunk data
      { completion with streamChunks := completion.streamChunks + 1 }
  else completion

def parseLlamaServerCompletion (body : Bytes) (stream : Bool) : LlamaServerCompletion :=
  if stream then (getlines body).foldl parseLine {}
  else mergeLlamaServerJsonChunk body {}

end Laminar.Llama

import BinderDownload.Http.Chunked

namespace BinderDownload.Http

open Text

variable {σ : Type}

inductive Send
  | wrote (n : ℕ+)
  | again
  -- A `write` that returns with an error. On `EPIPE` it does not: nobody ignores `SIGPIPE`.
  | broken (error : Bytes)

def sendAll : ℕ → List Send → Except Halt Unit
  | 0, _ => .ok ()
  | _ + 1, [] => .error .waiting
  | len + 1, .wrote n :: sends => sendAll (len + 1 - n) sends
  | len + 1, .again :: sends => sendAll (len + 1) sends
  | _ + 1, .broken error :: _ => .error (.failed .io error)

structure Conn where
  sends : List Send
  ticks : List Tick

inductive Opened
  | refused (error : Error) (message : Bytes) (failed : error = .badUrl ∨ error = .connect)
  | connected (conn : Conn)

structure Callbacks (σ : Type) where
  onHeaders : Option (σ → ResponseInfo → Bool × σ)
  onBody : BodyFn σ

def Callbacks.headers (calls : Callbacks σ) (s : σ) (info : ResponseInfo) : Bool × σ :=
  match calls.onHeaders with
  | none => (true, s)
  | some onHeaders => onHeaders s info

def readHeaders (r : Reader) (headers : Headers) : Except Halt (Headers × Reader) :=
  match _h : r.readLine with
  | .error halt => .error halt
  | .ok (line, r') =>
    if line = [] then .ok (headers, r')
    else match find 58 line with
      | none => readHeaders r' headers
      | some colon =>
        if kMaxHeaderCount ≤ headers.size then .error (.failed .tooLarge (ascii "too many response headers"))
        else readHeaders r' (headers.add (trim (line.take colon)) (trim (line.drop (colon + 1))))
termination_by r.source.data.length
decreasing_by all_goals exact Reader.readLine_length _h

def Halt.attempt (info : ResponseInfo) (bytes : ℕ) : Halt → Option Attempt
  | .waiting => none
  | .failed error message => some { result := { error, message, response := info, bytes } }

def notHttp (line : Bytes) (info : ResponseInfo) : Attempt :=
  { result :=
    { error := .io, message := ascii "not an HTTP response: \"" ++ line ++ ascii "\"", response := info } }

def refusedByCaller (info : ResponseInfo) : Attempt :=
  { result := { error := .write, message := ascii "caller refused the response", response := info } }

def conclude {ρ : Type} (info : ResponseInfo) (pumped : Pumped σ ρ) : Option Attempt × σ :=
  (match pumped.outcome with
    | .ok _ => some { result := { response := info, bytes := pumped.written } }
    | .error halt => halt.attempt info pumped.written, pumped.sink)

def exchange (url : Url) (request : Request) (calls : Callbacks σ) (r : Reader) (s : σ) : Option Attempt × σ :=
  match r.readLine with
  | .error halt => (halt.attempt {} 0, s)
  | .ok (line, r1) =>
    let (valid, statusCode, reason) := parseStatusLine line
    let info : ResponseInfo := { statusCode, reason }
    if valid = false then (some (notHttp line info), s)
    else match readHeaders r1 {} with
      | .error halt => (halt.attempt info 0, s)
      | .ok (headers, r2) =>
        match inspectHead url request info headers with
        | .error attempt => (some attempt, s)
        | .ok head =>
          match calls.headers s head.info with
          | (false, s) => (some (refusedByCaller head.info), s)
          | (true, s) =>
            if head.chunked then conclude head.info (pumpChunked r2 calls.onBody s 0)
            else conclude head.info (pumpPlain r2 head.contentLength calls.onBody s 0)

def performOnce (url : Url) (request : Request) (calls : Callbacks σ) (polls : Bool) (opened : Opened) (s : σ) :
    Option Attempt × σ :=
  match opened with
  | .refused error message _ => (some { result := { error, message } }, s)
  | .connected conn =>
    match sendAll (requestHead url request).length conn.sends with
    | .error .waiting => (none, s)
    | .error (.failed _ error) =>
      (some { result := { error := .io, message := ascii "sending request failed: " ++ error } }, s)
    | .ok () => exchange url request calls (Reader.new conn.ticks polls request.idleTimeoutMs) s

/-- What the peers and the canceller do during one `get`: hop by hop the connection, and the answer
of the poll before it. -/
structure Net where
  opened : ℕ → Opened
  canceled : ℕ → Bool

def getFrom (request : Request) (calls : Callbacks σ) (polls : Bool) (net : Net) (hop : ℕ) (current : Bytes) :
    ℕ → σ → Option Result × σ
  | 0, s =>
    (some
      { error := .tooLarge
        message := ascii "more than " ++ decimal request.maxRedirects ++ ascii " redirects" }, s)
  | left + 1, s =>
    match parseUrl current with
    | none =>
      (some { error := .badUrl, message := ascii "cannot parse URL \"" ++ current ++ ascii "\"" }, s)
    | some url =>
      if polls && net.canceled hop then (some { error := .canceled, message := ascii "canceled" }, s)
      else match performOnce url { request with url := current } calls polls (net.opened hop) s with
        | (none, s) => (none, s)
        | (some attempt, s) =>
          if attempt.redirectTo = [] then (some attempt.result, s)
          else getFrom request calls polls net (hop + 1) attempt.redirectTo left s

def get (request : Request) (calls : Callbacks σ) (polls : Bool) (net : Net) (s : σ) : Option Result × σ :=
  getFrom request calls polls net 0 request.url (request.maxRedirects + 1) s

end BinderDownload.Http

import BinderDownload.Http.Url

namespace BinderDownload.Http

open Text

inductive Error
  | ok | badUrl | connect | io | httpStatus | canceled | write | tooLarge
  deriving DecidableEq

structure ResponseInfo where
  statusCode : ℤ := 0
  reason : Bytes := []
  contentType : Bytes := []
  startOffset : ℤ := 0
  totalBytes : ℤ := -1
  finalUrl : Bytes := []
  deriving DecidableEq

structure Request where
  url : Bytes
  resumeFrom : ℤ := 0
  maxRedirects : ℕ := 5
  idleTimeoutMs : ℤ := 30000

structure Result where
  error : Error := .ok
  message : Bytes := []
  response : ResponseInfo := {}
  bytes : ℕ := 0
  deriving DecidableEq

structure Attempt where
  result : Result := {}
  redirectTo : Bytes := []
  deriving DecidableEq

def kMaxLineLength : ℕ := 8 * 1024
def kMaxHeaderCount : ℕ := 100
def kUserAgent : Bytes := ascii "binder-http-service/1.0"
def crlf : Bytes := [13, 10]

structure Headers where
  mItems : List (Bytes × Bytes) := []

namespace Headers

def add (headers : Headers) (name value : Bytes) : Headers :=
  ⟨headers.mItems ++ [(toLower name, value)]⟩

def get (headers : Headers) (name : Bytes) : Bytes :=
  ((headers.mItems.find? (fun item => item.1 == toLower name)).map (fun item => item.2)).getD []

def contains (headers : Headers) (name needle : Bytes) : Bool :=
  (findText (toLower needle) (toLower (headers.get name))).isSome

def size (headers : Headers) : ℕ := headers.mItems.length

end Headers

def parseStatusLine (line : Bytes) : Bool × ℤ × Bytes :=
  if line.take 5 ≠ ascii "HTTP/" then (false, 0, [])
  else match find 32 line with
    | none => (false, 0, [])
    | some sp =>
      let code := atoi (line.drop (sp + 1))
      let reason := match findFrom 32 (sp + 1) line with
        | none => []
        | some sp2 => trim (line.drop (sp2 + 1))
      (100 ≤ code ∧ code < 600, code, reason)

def parseContentRange (value : Bytes) : Option (ℤ × ℤ) :=
  match find 32 value with
  | none => none
  | some sp =>
    let range := trim (value.drop (sp + 1))
    match find 45 range, find 47 range with
    | some dash, some slash =>
      if slash < dash then none
      else
        let totalText := range.drop (slash + 1)
        some ((strtoll range 10).1, if totalText = ascii "*" then -1 else (strtoll totalText 10).1)
    | _, _ => none

def requestHead (url : Url) (request : Request) : Bytes :=
  ascii "GET " ++ url.target ++ ascii " HTTP/1.1" ++ crlf ++
  ascii "Host: " ++ url.hostHeader ++ crlf ++
  ascii "User-Agent: " ++ kUserAgent ++ crlf ++
  ascii "Accept: */*" ++ crlf ++
  ascii "Accept-Encoding: identity" ++ crlf ++
  (if 0 < request.resumeFrom then
    ascii "Range: bytes=" ++ toText request.resumeFrom ++ ascii "-" ++ crlf else []) ++
  ascii "Connection: close" ++ crlf ++ crlf

structure Head where
  info : ResponseInfo
  contentLength : ℤ
  chunked : Bool
  deriving DecidableEq

def isRedirect (code : ℤ) : Bool := code = 301 ∨ code = 302 ∨ code = 303 ∨ code = 307 ∨ code = 308

def contentLength (headers : Headers) : ℤ :=
  let lengthText := headers.get (ascii "Content-Length")
  if lengthText = [] then -1 else (strtoll lengthText 10).1

def placement (request : Request) (statusCode : ℤ) (headers : Headers) : ℤ × ℤ :=
  if statusCode = 206 then
    match parseContentRange (headers.get (ascii "Content-Range")) with
    | some range => range
    | none => (request.resumeFrom,
        if contentLength headers < 0 then -1 else request.resumeFrom + contentLength headers)
  else (0, contentLength headers)

/-- The part of `performOnce` between the blank line behind the headers and the headers callback:
either the exchange ends here, or there is a body to hand on. -/
def inspectHead (url : Url) (request : Request) (info : ResponseInfo) (headers : Headers) :
    Except Attempt Head :=
  if isRedirect info.statusCode then
    let redirectTo := resolveRedirect url (headers.get (ascii "Location"))
    if redirectTo ≠ [] then .error { result := { response := info }, redirectTo }
    else .error { result :=
      { error := .io
        message := ascii "HTTP " ++ toText info.statusCode ++ ascii " without a usable Location"
        response := info } }
  else if 400 ≤ info.statusCode then
    .error { result :=
      { error := .httpStatus
        message := ascii "HTTP " ++ toText info.statusCode ++
          (if info.reason = [] then [] else ascii " " ++ info.reason)
        response := info } }
  else
    let place := placement request info.statusCode headers
    .ok { info := { info with
            contentType := headers.get (ascii "Content-Type")
            finalUrl := url.toString
            startOffset := place.1
            totalBytes := place.2 }
          contentLength := contentLength headers
          chunked := headers.contains (ascii "Transfer-Encoding") (ascii "chunked") }

end BinderDownload.Http

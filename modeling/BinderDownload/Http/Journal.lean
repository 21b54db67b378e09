import BinderDownload.Http.ChunkGrammar
import BinderDownload.Http.Coding

/-!
What a `get` does on the outside, step by step: the cancel polls with their answers, the connections, the calls of
`recv` and the callbacks. Every function of the client that does some of this has a journal with its own control flow.
-/

namespace BinderDownload.Http

open Text

variable {σ : Type}

/-- `lastChunk` is no call: it stands where `pumpChunked` has read the line of a chunk of size zero. -/
inductive Entry
  | poll (answer : Bool)
  | connect
  | recv
  | headers (info : ResponseInfo)
  | body (piece : Bytes)
  | lastChunk
  deriving DecidableEq

namespace Reader

def fillEntries (polls : Bool) (idleTimeoutMs : ℤ) : List Tick → List Entry
  | [] => []
  | t :: ts =>
    (if polls then [.poll t.canceled] else []) ++
      if polls && t.canceled then []
      else .recv :: match t.recv with
        | .again elapsedMs => if idleTimeoutMs ≤ elapsedMs then [] else fillEntries polls idleTimeoutMs ts
        | _ => []

def fillJournal (r : Reader) : List Entry := fillEntries r.polls r.mIdleTimeoutMs r.ticks

def readLineFromJournal (line : Bytes) (r : Reader) : List Entry :=
  match scan line 0 r.buffered with
  | .line _ _ => []
  | .tooLong => []
  | .more line =>
    (r.consume r.bufferedSize).fillJournal ++
      match _h : (r.consume r.bufferedSize).fill with
      | .error _ => []
      | .ok (true, _) => []
      | .ok (false, r') => readLineFromJournal line r'
termination_by r.ticks.length
decreasing_by simpa [consume] using fill_ticks _h

def readLineJournal (r : Reader) : List Entry := readLineFromJournal [] r

def refillJournal (r : Reader) : List Entry := if r.bufferedSize = 0 then r.fillJournal else []

end Reader

def pumpPlainJournal (r : Reader) (want : ℤ) (onBody : BodyFn σ) (s : σ) (written : ℕ) : List Entry :=
  if _hw : want < 0 ∨ (written : ℤ) < want then
    r.refillJournal ++
      match _hr : r.refill with
      | .error _ => []
      | .ok (true, _) => []
      | .ok (false, r') =>
        let chunk := r'.slice want written
        .body (r'.buffered.take chunk) ::
          match onBody s (r'.buffered.take chunk) with
          | (false, _) => []
          | (true, s) => pumpPlainJournal (r'.consume chunk) want onBody s (written + chunk)
  else []
termination_by r.source.data.length
decreasing_by
  obtain ⟨h1, -, h2, h3⟩ := Reader.source_slice _hr _hw
  rw [h3, List.length_drop]
  omega

def trailersJournal (r : Reader) : List Entry :=
  r.readLineJournal ++
    match _h : r.readLine with
    | .error _ => []
    | .ok (line, r') => if line = [] then [] else trailersJournal r'
termination_by r.source.data.length
decreasing_by exact Reader.readLine_length _h

def pumpChunkedJournal (r : Reader) (onBody : BodyFn σ) (s : σ) : List Entry :=
  r.readLineJournal ++
    match _h1 : r.readLine with
    | .error _ => []
    | .ok (line, r1) =>
      let size := strtoll (chunkHeader line) 16
      if size.2 = 0 ∨ size.1 < 0 then []
      else if size.1 = 0 then .lastChunk :: trailersJournal r1
      else
        pumpPlainJournal r1 size.1 onBody s 0 ++
          match _h2 : (pumpPlain r1 size.1 onBody s 0).outcome with
          | .error _ => []
          | .ok r2 =>
            r2.readLineJournal ++
              match _h3 : r2.readLine with
              | .error _ => []
              | .ok (_, r3) => pumpChunkedJournal r3 onBody (pumpPlain r1 size.1 onBody s 0).sink
termination_by r.source.data.length
decreasing_by
  have h1 := Reader.readLine_length _h1
  have h2 := pumpPlain_length _h2
  have h3 := Reader.readLine_length _h3
  omega

def readHeadersJournal (r : Reader) (headers : Headers) : List Entry :=
  r.readLineJournal ++
    match _h : r.readLine with
    | .error _ => []
    | .ok (line, r') =>
      if line = [] then []
      else match find 58 line with
        | none => readHeadersJournal r' headers
        | some colon =>
          if kMaxHeaderCount ≤ headers.size then []
          else readHeadersJournal r' (headers.add (trim (line.take colon)) (trim (line.drop (colon + 1))))
termination_by r.source.data.length
decreasing_by all_goals exact Reader.readLine_length _h

def bodyJournal (head : Head) (r : Reader) (onBody : BodyFn σ) (s : σ) : List Entry :=
  if head.chunked then pumpChunkedJournal r onBody s else pumpPlainJournal r head.contentLength onBody s 0

def exchangeJournal (url : Url) (request : Request) (calls : Callbacks σ) (r : Reader) (s : σ) : List Entry :=
  r.readLineJournal ++
    match r.readLine with
    | .error _ => []
    | .ok (line, r1) =>
      let (valid, statusCode, reason) := parseStatusLine line
      if valid = false then []
      else readHeadersJournal r1 {} ++
        match readHeaders r1 {} with
        | .error _ => []
        | .ok (headers, r2) =>
          match inspectHead url request { statusCode, reason } headers with
          | .error _ => []
          | .ok head =>
            (if calls.onHeaders.isSome then [.headers head.info] else []) ++
              match calls.headers s head.info with
              | (false, _) => []
              | (true, s) => bodyJournal head r2 calls.onBody s

def performOnceJournal (url : Url) (request : Request) (calls : Callbacks σ) (polls : Bool) (opened : Opened) (s : σ) :
    List Entry :=
  .connect :: match opened with
    | .refused _ _ _ => []
    | .connected conn =>
      match sendAll (requestHead url request).length conn.sends with
      | .error _ => []
      | .ok () => exchangeJournal url request calls (Reader.new conn.ticks polls request.idleTimeoutMs) s

def getFromJournal (request : Request) (calls : Callbacks σ) (polls : Bool) (net : Net) (hop : ℕ) (current : Bytes) :
    ℕ → σ → List Entry
  | 0, _ => []
  | left + 1, s =>
    match parseUrl current with
    | none => []
    | some url =>
      (if polls then [.poll (net.canceled hop)] else []) ++
        if polls && net.canceled hop then []
        else performOnceJournal url { request with url := current } calls polls (net.opened hop) s ++
          match performOnce url { request with url := current } calls polls (net.opened hop) s with
          | (none, _) => []
          | (some attempt, s) =>
            if attempt.redirectTo = [] then []
            else getFromJournal request calls polls net (hop + 1) attempt.redirectTo left s

def getJournal (request : Request) (calls : Callbacks σ) (polls : Bool) (net : Net) (s : σ) : List Entry :=
  getFromJournal request calls polls net 0 request.url (request.maxRedirects + 1) s

end BinderDownload.Http

import BinderDownload.Http.Truncation

/-!
Bodies with a `Content-Length`. The value goes through `strtoll`, so that every text is some length.
-/

namespace BinderDownload.Http

open Text

variable {σ : Type}

def Source.Opens (source : Source) (statusCode : ℤ) (headers : Headers) (rest : Source) : Prop :=
  ∃ line mid, source.readLine = .ok (line, mid) ∧ (parseStatusLine line).1 = true ∧
    (parseStatusLine line).2.1 = statusCode ∧ mid.readHeaders {} = .ok (headers, rest)

theorem Source.Opens.respond {source rest : Source} {statusCode : ℤ} {headers : Headers}
    (h : source.Opens statusCode headers rest) (url : Url) (request : Request) :
    ∃ reason, source.respond url request = rest.proceed (inspectHead url request { statusCode, reason } headers) := by
  obtain ⟨line, mid, hline, hvalid, rfl, hheaders⟩ := h
  exact ⟨(parseStatusLine line).2.2, respond_proceed url request hline hvalid hheaders⟩

theorem Source.Opens.fault {source rest : Source} {statusCode : ℤ} {headers : Headers}
    (h : source.Opens statusCode headers rest) (hs : source.stop.Fault) : rest.stop.Fault := by
  obtain ⟨line, mid, hline, -, -, hheaders⟩ := h
  have hcut := readHeaders_cut mid {} [] .closed (readLine_cut [] .closed hs hline).1
  rw [hheaders] at hcut
  exact hcut.1

theorem Source.opens_lines (status : Line) (fields : List Field) (eol : Eol) (data : Bytes) (stop : Stop)
    (hvalid : (parseStatusLine status.text).1 = true) (hcount : fields.length ≤ kMaxHeaderCount) :
    Source.Opens ⟨status.render ++ (fields.flatMap Field.render ++ (eol.bytes ++ data)), stop⟩
      (parseStatusLine status.text).2.1 ⟨fields.map Field.item⟩ ⟨data, stop⟩ := by
  refine ⟨_, _, readLine_line status _ stop, hvalid, rfl, ?_⟩
  exact readHeaders_fields fields eol data stop {} (by simpa [Headers.size] using hcount)

def Callbacks.counted (calls : Callbacks σ) : Callbacks (σ × ℕ) where
  onHeaders := calls.onHeaders.map (fun onHeaders s info => ((onHeaders s.1 info).1, ((onHeaders s.1 info).2, s.2)))
  onBody := fun s bytes => ((calls.onBody s.1 bytes).1, ((calls.onBody s.1 bytes).2, s.2 + bytes.length))

theorem Callbacks.counted_headers (calls : Callbacks σ) (s : σ × ℕ) (info : ResponseInfo) :
    calls.counted.headers s info = ((calls.headers s.1 info).1, ((calls.headers s.1 info).2, s.2)) := by
  unfold headers counted
  cases calls.onHeaders <;> rfl

theorem Callbacks.feed_counted (calls : Callbacks σ) (s : σ × ℕ) (pieces : List Bytes)
    (h : (feed calls.counted.onBody s pieces).done = true) :
    (feed calls.counted.onBody s pieces).state.2 = s.2 + pieces.flatten.length := by
  induction pieces generalizing s with
  | nil => rfl
  | cons piece pieces ih =>
    rw [feed] at h ⊢
    rcases hp : calls.counted.onBody s piece with ⟨_ | _, t⟩
    · simp [hp] at h
    · have ht : t.2 = s.2 + piece.length := by
        rw [show t = (calls.counted.onBody s piece).2 by rw [hp]]
        rfl
      simp only [hp] at h ⊢
      rw [ih t h, ht, List.flatten_cons, List.length_append, Nat.add_assoc]

def Measured (url : Url) (request : Request) (polls : Bool) (conn : Conn) (value : Bytes) : Prop :=
  ∀ (σ : Type) (calls : Callbacks σ) (s : σ) (attempt : Attempt) (t : σ × ℕ),
    performOnce url request calls.counted polls (.connected conn) (s, 0) = (some attempt, t) →
      attempt.result.error = .ok → attempt.redirectTo = [] → ∃ n < 2 ^ 63, Spells 10 value n ∧ t.2 = n

def lengthOf (value : Bytes) : ℤ := if value = [] then -1 else (strtoll value 10).1

def Source.Supplies (source : Source) (want : ℤ) : Prop :=
  if want < 0 then source.stop = .closed else want ≤ source.data.length

instance (source : Source) (want : ℤ) : Decidable (source.Supplies want) := inferInstanceAs (Decidable (ite _ _ _))

theorem Source.plain_supplies (source : Source) (want : ℤ) :
    (∃ rest, (source.plain want 0).2 = .ok rest) ↔ source.Supplies want := by
  unfold plain Supplies
  by_cases hneg : want < 0
  · cases hs : source.stop <;> simp [hneg]
  · by_cases hle : want ≤ source.data.length
    · simp [hneg, hle]
    · have : ¬want.toNat ≤ source.data.length := by omega
      cases hs : source.stop <;> simp [hneg, hle, this]

theorem Source.plain_fault {source : Source} {want : ℤ} {halt : Halt} (hs : source.stop.Fault)
    (h : (source.plain want 0).2 = .error halt) : halt.Fault := by
  unfold plain at h
  cases hstop : source.stop with
  | closed =>
    simp only [hstop] at h
    split_ifs at h
    rw [← Except.error.inj h]
    exact Error.noConfusion
  | halted halt' =>
    simp only [hstop] at h hs
    split_ifs at h
    · rw [← Except.error.inj h]
      exact hs
    · rw [← Except.error.inj h]
      exact hs

theorem lengthOf_spells {value : Bytes} {n : ℕ} (h : Spells 10 value n) (hn : n < 2 ^ 63) : lengthOf value = n := by
  have hdecimal := strtoll_decimal value [] n h (by simp)
  rw [List.append_nil] at hdecimal
  rw [lengthOf, if_neg h.1, hdecimal, clamp_nat n hn]

theorem inspectHead_ok_iff (url : Url) (request : Request) (info : ResponseInfo) (headers : Headers) :
    (∃ head, inspectHead url request info headers = .ok head) ↔
      isRedirect info.statusCode = false ∧ info.statusCode < 400 := by
  unfold inspectHead
  dsimp only
  by_cases hr : isRedirect info.statusCode = true
  · rw [if_pos hr]
    split_ifs <;> simp [hr]
  · rw [if_neg hr]
    by_cases hs : 400 ≤ info.statusCode
    · simp [hs]
    · simp [hr, hs, not_le.mp hs]

theorem inspectHead_framing {url : Url} {request : Request} {info : ResponseInfo} {headers : Headers} {head : Head}
    (h : inspectHead url request info headers = .ok head) :
    head.contentLength = contentLength headers ∧
      head.chunked = headers.contains (ascii "Transfer-Encoding") (ascii "chunked") := by
  unfold inspectHead at h
  dsimp only at h
  by_cases hr : isRedirect info.statusCode = true
  · rw [if_pos hr] at h
    split_ifs at h
  · rw [if_neg hr] at h
    split_ifs at h
    rw [← Except.ok.inj h]
    exact ⟨rfl, rfl⟩

section Length

variable {url : Url} {request : Request} {polls : Bool} {conn : Conn} {statusCode : ℤ} {headers : Headers}
  {rest : Source} {value : Bytes}

theorem contentLength_value {name : Bytes}
    (h : headers.mItems.find? (fun item => item.1 == toLower (ascii "Content-Length")) = some (name, value)) :
    contentLength headers = lengthOf value := by
  have hget : headers.get (ascii "Content-Length") = value := by simp [Headers.get, h]
  rw [contentLength, hget]
  rfl

theorem Source.Opens.reply
    (hopens : (Source.ofTicks polls request.idleTimeoutMs conn.ticks).Opens statusCode headers rest)
    (hsent : sendAll (requestHead url request).length conn.sends = .ok ())
    (hplain : headers.contains (ascii "Transfer-Encoding") (ascii "chunked") = false)
    (hstatus : isRedirect statusCode = false ∧ statusCode < 400) :
    ∃ info, (Opened.connected conn).reply url request polls =
      ⟨ending info (rest.plain (contentLength headers) 0).1.length
        ((rest.plain (contentLength headers) 0).2.map (fun _ => ())), some info,
        (rest.plain (contentLength headers) 0).1⟩ := by
  obtain ⟨reason, hrespond⟩ := hopens.respond url request
  obtain ⟨head, hhead⟩ := (inspectHead_ok_iff url request { statusCode, reason } headers).mpr hstatus
  obtain ⟨hlength, hchunked⟩ := inspectHead_framing hhead
  have hbody : rest.body head = ((rest.plain (contentLength headers) 0).1,
      (rest.plain (contentLength headers) 0).2.map (fun _ => ())) := by
    rw [Source.body, hchunked, hplain, hlength]
    rfl
  refine ⟨head.info, ?_⟩
  rw [Opened.reply_sent polls hsent, hrespond, hhead, proceed, hbody]

theorem Source.Opens.ended
    (hopens : (Source.ofTicks polls request.idleTimeoutMs conn.ticks).Opens statusCode headers rest)
    (hsent : sendAll (requestHead url request).length conn.sends = .ok ())
    (hstatus : ¬(isRedirect statusCode = false ∧ statusCode < 400)) :
    ((Opened.connected conn).reply url request polls).Empty := by
  apply Opened.reply_empty
  obtain ⟨reason, hrespond⟩ := hopens.respond url request
  rw [Opened.reply_sent polls hsent, hrespond]
  cases hhead : inspectHead url request { statusCode, reason } headers with
  | error attempt => rfl
  | ok head => exact absurd ((inspectHead_ok_iff url request { statusCode, reason } headers).mp ⟨head, hhead⟩) hstatus

theorem Source.Opens.succeeds
    (hopens : (Source.ofTicks polls request.idleTimeoutMs conn.ticks).Opens statusCode headers rest)
    (hsent : sendAll (requestHead url request).length conn.sends = .ok ())
    (hplain : headers.contains (ascii "Transfer-Encoding") (ascii "chunked") = false)
    (hstatus : isRedirect statusCode = false ∧ statusCode < 400) (hsupplies : rest.Supplies (contentLength headers)) :
    ∃ attempt t, performOnce url request (Callbacks.counted ⟨none, fun u _ => (true, u)⟩) polls (.connected conn)
      ((), 0) = (some attempt, t) ∧ attempt.result.error = .ok ∧ attempt.redirectTo = [] := by
  obtain ⟨pieces, -, hflat, hrun⟩ := performOnce_deliver url request polls (.connected conn)
  obtain ⟨info, hreply⟩ := hopens.reply hsent hplain hstatus
  obtain ⟨rest', hok⟩ := (Source.plain_supplies rest _).mpr hsupplies
  rw [hok] at hreply
  have hdone := feed_accepting (Callbacks.counted (σ := Unit) ⟨none, fun u _ => (true, u)⟩).onBody
    (fun _ _ => rfl) ((), 0) pieces
  rw [hrun, hreply, Reply.deliver_accepted pieces rfl rfl, if_pos hdone]
  exact ⟨_, _, rfl, rfl, rfl⟩

theorem Source.Opens.success {calls : Callbacks σ} {s : σ} {attempt : Attempt} {t : σ × ℕ}
    (hopens : (Source.ofTicks polls request.idleTimeoutMs conn.ticks).Opens statusCode headers rest)
    (hsent : sendAll (requestHead url request).length conn.sends = .ok ())
    (hplain : headers.contains (ascii "Transfer-Encoding") (ascii "chunked") = false)
    (h : performOnce url request calls.counted polls (.connected conn) (s, 0) = (some attempt, t))
    (herror : attempt.result.error = .ok) (hto : attempt.redirectTo = []) :
    (isRedirect statusCode = false ∧ statusCode < 400) ∧
      ∃ left, (rest.plain (contentLength headers) 0).2 = .ok left ∧
        t.2 = (rest.plain (contentLength headers) 0).1.length := by
  obtain ⟨pieces, -, hflat, hrun⟩ := performOnce_deliver url request polls (.connected conn)
  rw [hrun] at h
  have hstatus : isRedirect statusCode = false ∧ statusCode < 400 := by
    by_contra hstatus
    obtain ⟨hnone, hempty⟩ := hopens.ended hsent hstatus
    rw [Reply.deliver, hnone] at h
    exact hempty attempt (Prod.mk.inj h).1 hto herror
  obtain ⟨info, hreply⟩ := hopens.reply hsent hplain hstatus
  rw [hreply] at h hflat
  refine ⟨hstatus, ?_⟩
  rcases hc : calls.counted.headers (s, 0) info with ⟨_ | _, u⟩
  · rw [Reply.deliver_refused pieces rfl hc] at h
    rw [← Option.some.inj (Prod.mk.inj h).1] at herror
    exact absurd herror Error.noConfusion
  · rw [Reply.deliver_accepted pieces rfl hc] at h
    obtain ⟨hattempt, rfl⟩ := Prod.mk.inj h
    split_ifs at hattempt with hdone
    · have hu : u.2 = 0 := by
        have hheaders := calls.counted_headers (s, 0) info
        rw [hc, Prod.mk.injEq] at hheaders
        rw [hheaders.2]
      cases hout : (rest.plain (contentLength headers) 0).2 with
      | error halt =>
        have hfault := Source.plain_fault (hopens.fault (Source.ofTicks_fault _ _ _)) hout
        rw [hout] at hattempt
        exact absurd herror (Halt.attempt_error hfault hattempt)
      | ok left =>
        refine ⟨left, rfl, ?_⟩
        rw [calls.feed_counted u pieces hdone, hu, hflat, Nat.zero_add]
    · rw [← Option.some.inj hattempt] at herror
      exact absurd herror Error.noConfusion

theorem performOnce_length (url : Url) (request : Request) (polls : Bool) (conn : Conn) (statusCode : ℤ)
    (headers : Headers) (rest : Source) (name value : Bytes)
    (hsent : sendAll (requestHead url request).length conn.sends = .ok ())
    (hopens : (Source.ofTicks polls request.idleTimeoutMs conn.ticks).Opens statusCode headers rest)
    (hvalue : headers.mItems.find? (fun item => item.1 == toLower (ascii "Content-Length")) = some (name, value))
    (hplain : headers.contains (ascii "Transfer-Encoding") (ascii "chunked") = false) :
    Measured url request polls conn value ↔
      (∃ n < 2 ^ 63, Spells 10 value n) ∨ isRedirect statusCode = true ∨ 400 ≤ statusCode ∨
        ¬rest.Supplies (lengthOf value) := by
  have hwant := contentLength_value hvalue
  constructor
  · intro hmeasured
    by_contra hno
    simp only [not_or, not_not, not_le] at hno
    obtain ⟨hproper, hredirect, hstatus, hsupplies⟩ := hno
    obtain ⟨attempt, t, hsuccess, herror, hto⟩ :=
      hopens.succeeds hsent hplain ⟨by simpa using hredirect, hstatus⟩ (by rw [hwant]; exact hsupplies)
    obtain ⟨n, hn, hspells, -⟩ := hmeasured _ _ _ attempt t hsuccess herror hto
    exact hproper ⟨n, hn, hspells⟩
  · intro hcond σ calls s attempt t h herror hto
    obtain ⟨⟨hredirect, hstatus⟩, left, hleft, ht⟩ := hopens.success hsent hplain h herror hto
    rw [hwant] at hleft ht
    have hsupplies := (Source.plain_supplies rest _).mp ⟨left, hleft⟩
    rcases hcond with ⟨n, hn, hspells⟩ | hredirect' | hstatus' | hno
    · have hlength := lengthOf_spells hspells hn
      refine ⟨n, hn, hspells, ?_⟩
      have hsplit := (Source.plain_split (by rw [hlength]; exact Int.natCast_nonneg n) hleft).2.1
      rw [← ht, hlength] at hsplit
      exact_mod_cast hsplit
    · rw [hredirect] at hredirect'
      exact absurd hredirect' (by decide)
    · omega
    · exact absurd hsupplies hno

end Length

def okLine : Line := ⟨ascii "HTTP/1.1 200 OK", .crlf, by decide, by decide, by decide⟩

theorem lengthField_fits (value : Bytes) (h : 10 ∉ value ∧ Trimmed value ∧ value.length ≤ 20) :
    ascii "Content-Length" ≠ [] ∧ (∀ c ∈ ascii "Content-Length", isToken c = true) ∧ 10 ∉ value ∧ Trimmed value ∧
      (ascii "Content-Length" ++ 58 :: ([32] ++ value ++ []) ++ Eol.crlf.cr).length ≤ kMaxLineLength := by
  refine ⟨by decide, by decide +kernel, h.1, h.2.1, ?_⟩
  have hshort := h.2.2
  simp only [List.length_append, List.length_cons, List.length_nil, Eol.cr, kMaxLineLength,
    show (ascii "Content-Length").length = 14 from rfl]
  omega

def lengthField (value : Bytes) (h : 10 ∉ value ∧ Trimmed value ∧ value.length ≤ 20) : Field :=
  Field.of (ascii "Content-Length") value (lengthField_fits value h)

theorem opens_length (value : Bytes) (h : 10 ∉ value ∧ Trimmed value ∧ value.length ≤ 20) (data : Bytes) :
    Source.Opens ⟨okLine.render ++ ((lengthField value h).render ++ (crlf ++ data)), .closed⟩ 200
      ⟨[(ascii "content-length", value)]⟩ ⟨data, .closed⟩ := by
  have hopens := Source.opens_lines okLine [lengthField value h] .crlf data .closed
    (by decide +kernel) (Nat.le_add_left 1 99)
  have hstatus : (parseStatusLine okLine.text).2.1 = 200 := by decide +kernel
  have hitem : (lengthField value h).item = (ascii "content-length", value) := rfl
  rw [hstatus, List.map_singleton, hitem, List.flatMap_singleton] at hopens
  exact hopens

theorem performOnce_length_two :
    let hi : Segment := ⟨ascii "HTTP/1.1 200 OK\r\nContent-Length: 2\r\n\r\nhi", by decide, by decide⟩
    let conn : Conn := ⟨[.wrote 4096], [⟨false, .data hi⟩, ⟨false, .closed⟩]⟩
    Measured ⟨ascii "http", ascii "h", ascii "80", ascii "/"⟩ { url := [] } false conn (ascii "2") := by
  intro hi conn
  have hopens : (Source.ofTicks false 30000 conn.ticks).Opens 200 ⟨[(ascii "content-length", ascii "2")]⟩
      ⟨ascii "hi", .closed⟩ := by
    have hsource : Source.ofTicks false 30000 conn.ticks = ⟨okLine.render ++
        ((lengthField (ascii "2") (by decide +kernel)).render ++ (crlf ++ ascii "hi")), .closed⟩ := by decide +kernel
    rw [hsource]
    exact opens_length _ _ _
  have hproper : ∃ n < 2 ^ 63, Spells 10 (ascii "2") n := ⟨2, by decide, by decide +kernel⟩
  exact (performOnce_length ⟨ascii "http", ascii "h", ascii "80", ascii "/"⟩ { url := [] } false conn 200 _ _ _
    (ascii "2") (by decide +kernel) hopens rfl (by decide +kernel)).mpr (.inl hproper)

theorem performOnce_unmeasured :
    let hi : Segment := ⟨ascii "HTTP/1.1 200 OK\r\nContent-Length: abc\r\n\r\nhi", by decide, by decide⟩
    let conn : Conn := ⟨[.wrote 4096], [⟨false, .data hi⟩, ⟨false, .closed⟩]⟩
    ¬Measured ⟨ascii "http", ascii "h", ascii "80", ascii "/"⟩ { url := [] } false conn (ascii "abc") := by
  intro hi conn hmeasured
  have hopens : (Source.ofTicks false 30000 conn.ticks).Opens 200 ⟨[(ascii "content-length", ascii "abc")]⟩
      ⟨ascii "hi", .closed⟩ := by
    have hsource : Source.ofTicks false 30000 conn.ticks = ⟨okLine.render ++
        ((lengthField (ascii "abc") (by decide +kernel)).render ++ (crlf ++ ascii "hi")), .closed⟩ := by decide +kernel
    rw [hsource]
    exact opens_length _ _ _
  obtain ⟨attempt, t, hsuccess, herror, hto⟩ :=
    @Source.Opens.succeeds ⟨ascii "http", ascii "h", ascii "80", ascii "/"⟩ { url := [] } false conn 200 _ _
      hopens (by decide +kernel) (by decide +kernel) (by decide +kernel) (by decide +kernel)
  obtain ⟨n, -, hspells, -⟩ := hmeasured _ _ _ attempt t hsuccess herror hto
  exact absurd hspells.2.1 (by decide +kernel)

end BinderDownload.Http

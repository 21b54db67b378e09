import BinderDownload.Http.ContentRange
import BinderDownload.Http.Truncation

namespace BinderDownload.Http

open Text

structure Resource where
  bytes : Bytes
  fits : bytes.length < 2 ^ 63

def contentRange (start size : ℕ) : Bytes :=
  ascii "bytes " ++ decimal start ++ 45 :: (toText ((size : ℤ) - 1) ++ 47 :: decimal size)

theorem decimal_digit (n : ℕ) : ∀ c ∈ decimal n, isDigit 10 c = true := (decimal_spells n).2.1

theorem toText_no_slash (n : ℤ) : 47 ∉ toText n := by
  have hdecimal (m : ℕ) : 47 ∉ decimal m := fun h => (digit_range 47 (decimal_digit m 47 h)).2.2.1 rfl
  cases n with
  | ofNat m => exact hdecimal m
  | negSucc m =>
    intro h
    rcases List.mem_cons.mp h with h | h
    · exact absurd h (by decide)
    · exact hdecimal (m + 1) h

theorem decimal_trimmed (start size : ℕ) (mid : Bytes) : Trimmed (decimal start ++ mid ++ decimal size) := by
  constructor
  · intro c hc
    rw [List.append_assoc, List.head?_append_of_ne_nil _ (decimal_spells start).1] at hc
    exact (digit_range c (decimal_digit start c (List.mem_of_mem_head? hc))).1
  · intro c hc
    rw [List.getLast?_append_of_ne_nil _ (decimal_spells size).1] at hc
    exact (digit_range c (decimal_digit size c (List.mem_of_getLast? hc))).1

theorem parseContentRange_render (start size : ℕ) (hstart : start < 2 ^ 63) (hsize : size < 2 ^ 63) :
    parseContentRange (contentRange start size) = some ((start : ℤ), (size : ℤ)) := by
  have hmid := toText_no_slash ((size : ℤ) - 1)
  have hvalue : contentRange start size =
      ascii "bytes" ++ 32 :: (decimal start ++ 45 :: (toText ((size : ℤ) - 1) ++ 47 :: decimal size)) := by
    simp [contentRange, ascii]
  have htrim : trim (decimal start ++ 45 :: (toText ((size : ℤ) - 1) ++ 47 :: decimal size)) =
      decimal start ++ 45 :: (toText ((size : ℤ) - 1) ++ 47 :: decimal size) := by
    have h := trim_trimmed _ (decimal_trimmed start size (45 :: toText ((size : ℤ) - 1) ++ [47]))
    simpa using h
  have hrange : rangeOf (contentRange start size) =
      decimal start ++ 45 :: (toText ((size : ℤ) - 1) ++ 47 :: decimal size) := by
    rw [hvalue, rangeOf_split _ (by decide), htrim]
  have hstar : decimal size ≠ ascii "*" := by
    intro h
    exact (digit_range 42 (decimal_digit size 42 (by rw [h]; decide))).2.2.2 rfl
  have hlast := strtoll_decimal (decimal size) [] size (decimal_spells size) (by simp)
  rw [List.append_nil, clamp_nat size hsize] at hlast
  rw [parseContentRange_delimited (by rw [hvalue]; simp) hrange
    ⟨fun h => (digit_range 45 (decimal_digit start 45 h)).2.1 rfl,
      fun h => (digit_range 47 (decimal_digit start 47 h)).2.2.1 rfl⟩ hmid, hrange,
    strtoll_decimal _ _ start (decimal_spells start) (by simp; decide), clamp_nat start hstart, if_neg hstar, hlast]

def Tick.bytes (tick : Tick) : Bytes :=
  match tick.recv with
  | .data segment => segment.bytes
  | _ => []

theorem Source.ofTicks_within (polls : Bool) (idleTimeoutMs : ℤ) (ticks : List Tick) :
    (Source.ofTicks polls idleTimeoutMs ticks).data <+: ticks.flatMap Tick.bytes := by
  induction ticks with
  | nil => exact List.prefix_rfl
  | cons t ts ih =>
    rw [List.flatMap_cons]
    unfold ofTicks Tick.bytes
    split_ifs
    · exact List.nil_prefix
    · cases t.recv with
      | data segment => exact (List.prefix_append_right_inj _).mpr ih
      | closed => exact List.nil_prefix
      | again elapsedMs =>
        dsimp only
        split_ifs
        · exact List.nil_prefix
        · exact ih
      | broken error => exact List.nil_prefix

def Response.Serves {body : Bytes} (response : Response body) (resource : Resource) (held : ℕ) : Prop :=
  400 ≤ response.code ∨ isRedirect response.code = true ∨
    response.framing.delimited = true ∧
      (response.code = 200 ∧ body = resource.bytes ∨
        response.code = 206 ∧ ∃ start ≤ held, start ≤ resource.bytes.length ∧ body = resource.bytes.drop start ∧
          response.first (ascii "Content-Range") = contentRange start resource.bytes.length)

inductive Opened.Serves (resource : Resource) (held : ℕ) : Opened → Prop
  | refused (error : Error) (message : Bytes) (failed : error = .badUrl ∨ error = .connect) :
      Serves resource held (.refused error message failed)
  | answered {body : Bytes} (response : Response body) (extra : Bytes) (conn : Conn)
      (serves : response.Serves resource held) (sent : conn.ticks.flatMap Tick.bytes <+: response.render ++ extra) :
      Serves resource held (.connected conn)

def Net.Serves (net : Net) (resource : Resource) (held : ℕ) : Prop := ∀ hop, (net.opened hop).Serves resource held

def Reply.Serves (reply : Reply) (resource : Resource) (held : ℕ) : Prop :=
  reply.Empty ∨ ∃ (info : ResponseInfo) (start : ℕ), start ≤ held ∧ info.startOffset = (start : ℤ) ∧
    reply.Within info (resource.bytes.drop start)

theorem Response.Serves.placed {body : Bytes} {response : Response body} {resource : Resource} {held : ℕ}
    (h : response.Serves resource held) (hcode : response.code < 400)
    (hredirect : isRedirect response.code = false) (url : Url) (request : Request) :
    response.framing.delimited = true ∧ ∃ start : ℕ, start ≤ held ∧
      (response.info url request).startOffset = start ∧ body = resource.bytes.drop start := by
  rcases h with h | h | ⟨hframing, ⟨h200, hbody⟩ | ⟨h206, start, hstart, hsize, hbody, hrange⟩⟩
  · omega
  · simp [hredirect] at h
  · exact ⟨hframing, 0, Nat.zero_le _, by simp [info, placement, h200], by simpa using hbody⟩
  · have hfits := resource.fits
    refine ⟨hframing, start, hstart, ?_, hbody⟩
    simp [info, placement, h206, response.headers_get, hrange,
      parseContentRange_render start resource.bytes.length (by omega) hfits]

theorem Opened.Serves.reply {resource : Resource} {held : ℕ} {opened : Opened} (h : opened.Serves resource held)
    (url : Url) (request : Request) (polls : Bool) :
    (opened.reply url request polls).Serves resource held := by
  cases h with
  | refused error message failed => exact .inl (Opened.reply_empty url request polls _ rfl)
  | answered response extra conn serves sent =>
    cases hs : sendAll (requestHead url request).length conn.sends with
    | error halt =>
      refine .inl (Opened.reply_empty url request polls _ ?_)
      cases halt <;> simp [Opened.reply, hs]
    | ok u =>
      simp only [Opened.reply, hs]
      obtain ⟨tail, hcut⟩ := (Source.ofTicks_within polls request.idleTimeoutMs conn.ticks).trans sent
      have hfault := Source.ofTicks_fault polls request.idleTimeoutMs conn.ticks
      generalize Source.ofTicks polls request.idleTimeoutMs conn.ticks = source at *
      by_cases hbad : isRedirect response.code = true ∨ 400 ≤ response.code
      · exact .inl (response.respond_refused url request hfault hcut hbad)
      · rw [not_or, Bool.not_eq_true, not_le] at hbad
        obtain ⟨hframing, start, hstart, hinfo, hbody⟩ := serves.placed hbad.2 hbad.1 url request
        rcases response.respond_cut url request hfault hcut hbad.2 hbad.1 hframing with h | h
        · exact .inl h
        · exact .inr ⟨_, start, hstart, hinfo, hbody ▸ h⟩

theorem Net.Serves.reply {net : Net} {resource : Resource} {held : ℕ} (h : net.Serves resource held)
    (request : Request) (polls : Bool) :
    (net.reply request polls).Serves resource held :=
  net.reply_induct request polls (fun reply => reply.Serves resource held)
    (fun _ hne => .inl (Reply.plain_empty hne)) (fun hop url _ _ => (h hop).reply url _ polls)

structure Net.Answers (net : Net) (request : Request) (url : Url) (conn : Conn) {body : Bytes}
    (response : Response body) : Prop where
  parsed : parseUrl request.url = some url
  opened : net.opened 0 = .connected conn
  poll : net.canceled 0 = false
  sent : sendAll (requestHead url request).length conn.sends = .ok ()
  arrives : response.Arrives request.idleTimeoutMs conn.ticks

theorem Net.reply_first {net : Net} {request : Request} {polls : Bool} {url : Url}
    (hparsed : parseUrl request.url = some url) (hpoll : net.canceled 0 = false)
    (hfinal : ∀ attempt, ((net.opened 0).reply url request polls).attempt = some attempt → attempt.redirectTo = []) :
    net.reply request polls = (net.opened 0).reply url request polls := by
  cases hattempt : ((net.opened 0).reply url request polls).attempt with
  | none => simp [Net.reply, Net.replyFrom, hparsed, hpoll, hattempt]
  | some attempt => simp [Net.reply, Net.replyFrom, hparsed, hpoll, hattempt, hfinal attempt hattempt]

theorem Net.reply_top {net : Net} {request : Request} {conn : Conn} {body : Bytes}
    (response : Response body) (url : Url)
    (data : Bytes) (stop : Stop) (hparsed : parseUrl request.url = some url)
    (hopened : net.opened 0 = .connected conn) (hpoll : net.canceled 0 = false)
    (hsent : sendAll (requestHead url request).length conn.sends = .ok ())
    (hsource : Source.ofTicks true request.idleTimeoutMs conn.ticks = ⟨response.top ++ data, stop⟩)
    (hcode : response.code < 400) (hredirect : isRedirect response.code = false) :
    net.reply request true =
      ⟨Source.ending (response.info url request) (Source.body ⟨data, stop⟩ (response.announces url request)).1.length
          (Source.body ⟨data, stop⟩ (response.announces url request)).2, some (response.info url request),
        (Source.body ⟨data, stop⟩ (response.announces url request)).1⟩ := by
  have hreply := Opened.reply_sent true hsent
  rw [hsource, response.respond_top url request data stop hcode hredirect, ← hopened] at hreply
  rw [Net.reply_first hparsed hpoll (Opened.reply_final url request true (net.opened 0) (by rw [hreply]; rfl)), hreply]

section Answers

variable {net : Net} {request : Request} {url : Url} {conn : Conn} {body : Bytes} {response : Response body}

theorem Net.Answers.reply (h : net.Answers request url conn response) (polls : Bool) (hcode : response.code < 400)
    (hredirect : isRedirect response.code = false) : net.reply request polls = response.reply url request := by
  have hreply : (net.opened 0).reply url request polls = response.reply url request := by
    rw [h.opened]
    exact h.arrives.reply polls h.sent hcode hredirect
  rw [Net.reply_first h.parsed h.poll (Opened.reply_final url request polls _ (by rw [hreply]; rfl)), hreply]

theorem Net.Answers.refused (h : net.Answers request url conn response) (polls : Bool) (hcode : 400 ≤ response.code) :
    (net.reply request polls).announced = none := by
  obtain ⟨rest, stop, hsource, -⟩ := h.arrives.source polls
  obtain ⟨attempt, hto, -, hrespond⟩ :=
    response.respond_status url request (response.framing.payload ++ rest) stop hcode
  have hreply : (net.opened 0).reply url request polls = ⟨some attempt, none, []⟩ := by
    rw [h.opened]
    simp only [Opened.reply, h.sent, hsource, response.render_eq, List.append_assoc]
    exact hrespond
  rw [Net.reply_first h.parsed h.poll (by rw [hreply]; intro a ha; cases ha; exact hto), hreply]

end Answers

end BinderDownload.Http

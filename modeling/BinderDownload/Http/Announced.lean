import BinderDownload.Http.Peer

namespace BinderDownload.Http

open Text

def Source.head (source : Source) : Option (ℤ × Headers) :=
  match source.readLine with
  | .error _ => none
  | .ok (line, rest) =>
    if (parseStatusLine line).1 = false then none
    else match rest.readHeaders {} with
      | .error _ => none
      | .ok (headers, _) => some ((parseStatusLine line).2.1, headers)

def Opened.head (url : Url) (request : Request) (polls : Bool) : Opened → Option (ℤ × Headers)
  | .refused _ _ _ => none
  | .connected conn =>
    match sendAll (requestHead url request).length conn.sends with
    | .error _ => none
    | .ok () => (Source.ofTicks polls request.idleTimeoutMs conn.ticks).head

def Net.headFrom (net : Net) (request : Request) (polls : Bool) (hop : ℕ) (current : Bytes) :
    ℕ → Option (ℤ × Headers)
  | 0 => none
  | left + 1 =>
    match parseUrl current with
    | none => none
    | some url =>
      if polls && net.canceled hop then none
      else match ((net.opened hop).reply url { request with url := current } polls).attempt with
        | none => (net.opened hop).head url { request with url := current } polls
        | some attempt =>
          if attempt.redirectTo = [] then (net.opened hop).head url { request with url := current } polls
          else net.headFrom request polls (hop + 1) attempt.redirectTo left

def Net.head (net : Net) (request : Request) (polls : Bool) : Option (ℤ × Headers) :=
  net.headFrom request polls 0 request.url (request.maxRedirects + 1)

def ResponseInfo.PlacedBy (info : ResponseInfo) (request : Request) (head : ℤ × Headers) : Prop :=
  info.statusCode = head.1 ∧ (info.startOffset, info.totalBytes) = placement request head.1 head.2

theorem ResponseInfo.PlacedBy.asked {info : ResponseInfo} {request : Request} {current : Bytes} {head : ℤ × Headers}
    (h : info.PlacedBy { request with url := current } head) : info.PlacedBy request head := by
  obtain ⟨hstatus, hplace⟩ := h
  refine ⟨hstatus, hplace.trans ?_⟩
  unfold placement
  rfl

theorem inspectHead_placed {url : Url} {request : Request} {info : ResponseInfo} {headers : Headers} {head : Head}
    (h : inspectHead url request info headers = .ok head) : head.info.PlacedBy request (info.statusCode, headers) := by
  unfold inspectHead at h
  dsimp only at h
  by_cases hr : isRedirect info.statusCode = true
  · rw [if_pos hr] at h
    split_ifs at h
  · rw [if_neg hr] at h
    split_ifs at h
    rw [← Except.ok.inj h]
    exact ⟨rfl, rfl⟩

theorem Source.respond_placed {url : Url} {request : Request} {source : Source} {info : ResponseInfo}
    (h : (source.respond url request).announced = some info) :
    ∃ head, source.head = some head ∧ info.PlacedBy request head := by
  cases hl : source.readLine with
  | error halt => simp [respond, hl] at h
  | ok p =>
    obtain ⟨line, rest1⟩ := p
    by_cases hv : (parseStatusLine line).1 = false
    · simp [respond, hl, hv] at h
    · cases hr : rest1.readHeaders {} with
      | error halt => simp [respond, hl, hv, hr] at h
      | ok q =>
        obtain ⟨headers, rest2⟩ := q
        cases hi : inspectHead url request
            { statusCode := (parseStatusLine line).2.1, reason := (parseStatusLine line).2.2 } headers with
        | error attempt => simp [respond, hl, hv, hr, hi] at h
        | ok head =>
          simp only [respond, hl, hv, hr, hi, Bool.true_eq_false, if_false, Option.some.injEq] at h
          refine ⟨((parseStatusLine line).2.1, headers), ?_, ?_⟩
          · simp only [Source.head, hl, hv, hr, Bool.true_eq_false, if_false]
          · rw [← h]
            exact inspectHead_placed hi

theorem Opened.reply_placed {url : Url} {request : Request} {polls : Bool} {opened : Opened} {info : ResponseInfo}
    (h : (opened.reply url request polls).announced = some info) :
    ∃ head, opened.head url request polls = some head ∧ info.PlacedBy request head := by
  cases opened with
  | refused error message failed => simp [reply] at h
  | connected conn =>
    cases hs : sendAll (requestHead url request).length conn.sends with
    | error halt => cases halt <;> simp [reply, hs] at h
    | ok u =>
      simp only [reply, hs] at h
      simp only [head, hs]
      exact Source.respond_placed h

theorem Net.replyFrom_placed {net : Net} {request : Request} {polls : Bool} {hop : ℕ} {current : Bytes} {left : ℕ}
    {info : ResponseInfo} (h : (net.replyFrom request polls hop current left).announced = some info) :
    ∃ head, net.headFrom request polls hop current left = some head ∧ info.PlacedBy request head := by
  induction left generalizing hop current with
  | zero => simp [replyFrom, Reply.plain] at h
  | succ left ih =>
    cases hu : parseUrl current with
    | none => simp [replyFrom, hu, Reply.plain] at h
    | some url =>
      by_cases hc : polls && net.canceled hop
      · simp [replyFrom, hu, hc, Reply.plain] at h
      · cases ha : ((net.opened hop).reply url { request with url := current } polls).attempt with
        | none =>
          simp only [replyFrom, headFrom, hu, hc, ha, Bool.false_eq_true, if_false] at h ⊢
          obtain ⟨head, hhead, hplaced⟩ := Opened.reply_placed h
          exact ⟨head, hhead, hplaced.asked⟩
        | some attempt =>
          by_cases hto : attempt.redirectTo = []
          · simp only [replyFrom, headFrom, hu, hc, ha, hto, Bool.false_eq_true, if_true, if_false] at h ⊢
            obtain ⟨head, hhead, hplaced⟩ := Opened.reply_placed h
            exact ⟨head, hhead, hplaced.asked⟩
          · simp only [replyFrom, headFrom, hu, hc, ha, hto, Bool.false_eq_true, if_false] at h ⊢
            exact ih h

theorem Net.reply_placed {net : Net} {request : Request} {polls : Bool} {info : ResponseInfo}
    (h : (net.reply request polls).announced = some info) :
    ∃ head, net.head request polls = some head ∧ info.PlacedBy request head := Net.replyFrom_placed h

end BinderDownload.Http

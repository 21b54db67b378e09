import BinderDownload.Http.Reply

namespace BinderDownload.Http

open Text

variable {σ : Type}

def Reply.plain (result : Result) : Reply := ⟨some { result }, none, []⟩

def Net.replyFrom (net : Net) (request : Request) (polls : Bool) (hop : ℕ) (current : Bytes) : ℕ → Reply
  | 0 => .plain
      { error := .tooLarge
        message := ascii "more than " ++ decimal request.maxRedirects ++ ascii " redirects" }
  | left + 1 =>
    match parseUrl current with
    | none => .plain { error := .badUrl, message := ascii "cannot parse URL \"" ++ current ++ ascii "\"" }
    | some url =>
      if polls && net.canceled hop then .plain { error := .canceled, message := ascii "canceled" }
      else
        let reply := (net.opened hop).reply url { request with url := current } polls
        match reply.attempt with
        | none => reply
        | some attempt =>
          if attempt.redirectTo = [] then reply
          else net.replyFrom request polls (hop + 1) attempt.redirectTo left

def Net.reply (net : Net) (request : Request) (polls : Bool) : Reply :=
  net.replyFrom request polls 0 request.url (request.maxRedirects + 1)

def Reply.Final (reply : Reply) : Prop :=
  reply.announced.isSome → ∀ attempt, reply.attempt = some attempt → attempt.redirectTo = []

theorem Halt.attempt_redirectTo {info : ResponseInfo} {bytes : ℕ} {halt : Halt} {attempt : Attempt}
    (h : halt.attempt info bytes = some attempt) : attempt.redirectTo = [] := by
  cases halt with
  | waiting => simp [Halt.attempt] at h
  | failed error message =>
    simp only [Halt.attempt, Option.some.injEq] at h
    rw [← h]

theorem Source.respond_final (url : Url) (request : Request) (source : Source) :
    (source.respond url request).Final := by
  intro ha attempt h
  unfold respond at ha h
  cases hl : source.readLine with
  | error halt => simp [hl] at ha
  | ok p =>
    obtain ⟨line, rest1⟩ := p
    by_cases hv : (parseStatusLine line).1 = false
    · simp [hl, hv] at ha
    · cases hr : rest1.readHeaders {} with
      | error halt => simp [hl, hv, hr] at ha
      | ok q =>
        obtain ⟨headers, rest2⟩ := q
        cases hi : inspectHead url request
            { statusCode := (parseStatusLine line).2.1, reason := (parseStatusLine line).2.2 } headers with
        | error attempt => simp [hl, hv, hr, hi] at ha
        | ok head =>
          simp only [hl, hv, hr, hi, Bool.true_eq_false, if_false] at h
          cases hb : (rest2.body head).2 with
          | error halt =>
            rw [hb] at h
            exact Halt.attempt_redirectTo h
          | ok u =>
            rw [hb] at h
            simp only [ending, Option.some.injEq] at h
            rw [← h]

theorem Opened.reply_final (url : Url) (request : Request) (polls : Bool) (opened : Opened) :
    (opened.reply url request polls).Final := by
  cases opened with
  | refused error message failed =>
    intro h
    simp [reply] at h
  | connected conn =>
    cases hs : sendAll (requestHead url request).length conn.sends with
    | error halt =>
      intro h
      cases halt <;> simp [reply, hs] at h
    | ok u =>
      simp only [reply, hs]
      exact Source.respond_final url request _

theorem Reply.deliver_redirectTo {reply : Reply} {pieces : List Bytes} {calls : Callbacks σ} {s : σ}
    {attempt : Attempt} (h : (reply.deliver pieces calls s).1 = some attempt) (hf : reply.Final) :
    attempt.redirectTo = [] ∨ reply.announced = none ∧ reply.attempt = some attempt := by
  cases ha : reply.announced with
  | none =>
    simp only [deliver, ha] at h
    exact .inr ⟨rfl, h⟩
  | some info =>
    have hf' := hf (by simp [ha])
    simp only [deliver, ha] at h
    rcases hc : calls.headers s info with ⟨_ | _, t⟩
    · simp only [hc, Option.some.injEq] at h
      rw [← h]
      exact .inl rfl
    · simp only [hc] at h
      split_ifs at h
      · exact .inl (hf' attempt h)
      · simp only [Option.some.injEq] at h
        rw [← h]
        exact .inl rfl

theorem getFrom_deliver (request : Request) (polls : Bool) (net : Net) (left hop : ℕ) (current : Bytes) :
    ∃ pieces, (∀ p ∈ pieces, Piece p) ∧ pieces.flatten = (net.replyFrom request polls hop current left).body ∧
      ∀ {σ : Type} (calls : Callbacks σ) (s : σ), getFrom request calls polls net hop current left s =
        (((net.replyFrom request polls hop current left).deliver pieces calls s).1.map Attempt.result,
          ((net.replyFrom request polls hop current left).deliver pieces calls s).2) := by
  induction left generalizing hop current with
  | zero => exact ⟨[], by simp, rfl, fun calls s => rfl⟩
  | succ left ih =>
    cases hu : parseUrl current with
    | none =>
      simp only [Net.replyFrom, getFrom, hu]
      exact ⟨[], by simp, rfl, fun calls s => rfl⟩
    | some url =>
      by_cases hc : polls && net.canceled hop
      · simp only [Net.replyFrom, getFrom, hu, hc, if_true]
        exact ⟨[], by simp, rfl, fun calls s => rfl⟩
      · obtain ⟨pieces, hne, hflat, hp⟩ :=
          performOnce_deliver url { request with url := current } polls (net.opened hop)
        have hfinal := Opened.reply_final url { request with url := current } polls (net.opened hop)
        generalize hreply : (net.opened hop).reply url { request with url := current } polls = reply at *
        have hstop (hr : net.replyFrom request polls hop current (left + 1) = reply)
            (hend : ∀ attempt, reply.attempt = some attempt → attempt.redirectTo = []) :
            ∃ pieces, (∀ p ∈ pieces, Piece p) ∧
              pieces.flatten = (net.replyFrom request polls hop current (left + 1)).body ∧
              ∀ {σ : Type} (calls : Callbacks σ) (s : σ),
                getFrom request calls polls net hop current (left + 1) s =
                (((net.replyFrom request polls hop current (left + 1)).deliver pieces calls s).1.map
                  Attempt.result,
                ((net.replyFrom request polls hop current (left + 1)).deliver pieces calls s).2) := by
          refine ⟨pieces, hne, by rw [hr, hflat], fun calls s => ?_⟩
          simp only [hr, getFrom, hu, hc, hp calls s]
          rcases hd : reply.deliver pieces calls s with ⟨_ | attempt, t⟩
          · rfl
          · have hto : attempt.redirectTo = [] := by
              rcases Reply.deliver_redirectTo (by rw [hd]) hfinal with h | ⟨-, h⟩
              · exact h
              · exact hend attempt h
            simp [hto]
        cases ha : reply.attempt with
        | none =>
          refine hstop ?_ (by simp [ha])
          simp [Net.replyFrom, hu, hc, hreply, ha]
        | some attempt =>
          by_cases hto : attempt.redirectTo = []
          · refine hstop ?_ (by simp [ha, hto])
            simp [Net.replyFrom, hu, hc, hreply, ha, hto]
          · have hnone : reply.announced = none := by
              by_contra hsome
              exact hto (hfinal (Option.isSome_iff_ne_none.mpr hsome) attempt ha)
            obtain ⟨qs, hne', hflat', hq⟩ := ih (hop + 1) attempt.redirectTo
            have hr : net.replyFrom request polls hop current (left + 1) =
                net.replyFrom request polls (hop + 1) attempt.redirectTo left := by
              simp [Net.replyFrom, hu, hc, hreply, ha, hto]
            refine ⟨qs, hne', by rw [hr, hflat'], fun calls s => ?_⟩
            rw [hr, ← hq calls s]
            simp [getFrom, hu, hc, hp calls s, Reply.deliver, hnone, ha, hto]

theorem get_deliver (request : Request) (polls : Bool) (net : Net) :
    ∃ pieces, (∀ p ∈ pieces, Piece p) ∧ pieces.flatten = (net.reply request polls).body ∧
      ∀ {σ : Type} (calls : Callbacks σ) (s : σ), get request calls polls net s =
        (((net.reply request polls).deliver pieces calls s).1.map Attempt.result,
          ((net.reply request polls).deliver pieces calls s).2) :=
  getFrom_deliver request polls net (request.maxRedirects + 1) 0 request.url

end BinderDownload.Http

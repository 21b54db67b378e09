import BinderDownload.Http.Reader

/-!
A reader, seen from above: the bytes that are still to come and the reason why no more come after
them. The cuts of the stream into `recv` results and the retries in between are gone.
-/

namespace BinderDownload.Http

open Text

inductive Stop
  | closed
  | halted (halt : Halt)
  deriving DecidableEq

structure Source where
  data : Bytes
  stop : Stop
  deriving DecidableEq

def Source.ofTicks (polls : Bool) (idleTimeoutMs : ℤ) : List Tick → Source
  | [] => ⟨[], .halted .waiting⟩
  | t :: ts =>
    if polls && t.canceled then ⟨[], .halted (.failed .canceled [])⟩
    else match t.recv with
      | .data segment =>
        ⟨segment.bytes ++ (ofTicks polls idleTimeoutMs ts).data, (ofTicks polls idleTimeoutMs ts).stop⟩
      | .closed => ⟨[], .closed⟩
      | .again elapsedMs =>
        if idleTimeoutMs ≤ elapsedMs then
          ⟨[], .halted (.failed .io (ascii "timed out waiting for data"))⟩
        else ofTicks polls idleTimeoutMs ts
      | .broken error => ⟨[], .halted (.failed .io error)⟩

def Source.lineFrom (line : Bytes) : Bytes → Stop → Except Halt (Bytes × Source)
  | [], .closed => .error (.failed .io (ascii "connection closed mid-header"))
  | [], .halted halt => .error halt
  | c :: cs, stop =>
    if c = 10 then .ok (Reader.chomp line, ⟨cs, stop⟩)
    else if kMaxLineLength ≤ line.length then .error (.failed .io (ascii "response line too long"))
    else lineFrom (line ++ [c]) cs stop

def Source.readLine (source : Source) : Except Halt (Bytes × Source) :=
  lineFrom [] source.data source.stop

namespace Reader

def upcoming (r : Reader) : Source := Source.ofTicks r.polls r.mIdleTimeoutMs r.ticks

def source (r : Reader) : Source := ⟨r.buffered ++ r.upcoming.data, r.upcoming.stop⟩

@[simp] theorem upcoming_consume (r : Reader) (n : ℕ) : (r.consume n).upcoming = r.upcoming := rfl

theorem source_consume (r : Reader) (n : ℕ) (h : n ≤ r.bufferedSize) :
    (r.consume n).source = ⟨r.source.data.drop n, r.source.stop⟩ := by
  rw [← buffered_length] at h
  simp [source, List.drop_append_of_le_length h]

theorem source_empty (r : Reader) (h : r.bufferedSize = 0) : r.source = r.upcoming := by
  have hb : r.buffered = [] := List.eq_nil_of_length_eq_zero (by rw [buffered_length, h])
  simp [source, hb]

theorem fillFrom_source (r : Reader) (ts : List Tick) :
    match r.fillFrom ts with
    | .error halt => Source.ofTicks r.polls r.mIdleTimeoutMs ts = ⟨[], .halted halt⟩
    | .ok (true, r') => Source.ofTicks r.polls r.mIdleTimeoutMs ts = ⟨[], .closed⟩ ∧
        r'.upcoming = ⟨[], .closed⟩ ∧ r'.buffered = r.buffered
    | .ok (false, r') => r'.source = Source.ofTicks r.polls r.mIdleTimeoutMs ts ∧ r'.buffered ≠ [] := by
  induction ts with
  | nil => simp [fillFrom, Source.ofTicks]
  | cons t ts ih =>
    by_cases hc : r.polls && t.canceled
    · simp [fillFrom, Source.ofTicks, hc]
    · cases ht : t.recv with
      | data segment => simp [fillFrom, Source.ofTicks, hc, ht, source, upcoming, receive, segment.ne_nil, buffered]
      | closed => simp [fillFrom, Source.ofTicks, hc, ht, upcoming, buffered]
      | again elapsedMs =>
        by_cases he : r.mIdleTimeoutMs ≤ elapsedMs
        · simp [fillFrom, Source.ofTicks, hc, ht, he]
        · simpa only [fillFrom, Source.ofTicks, hc, ht, he, Bool.false_eq_true, if_false] using ih
      | broken error => simp [fillFrom, Source.ofTicks, hc, ht]

theorem fill_error {r : Reader} {halt : Halt} (h : r.fill = .error halt) :
    r.upcoming = ⟨[], .halted halt⟩ := by
  have hs := fillFrom_source r r.ticks
  rw [← fill, h] at hs
  exact hs

theorem fill_closed {r r' : Reader} (h : r.fill = .ok (true, r')) :
    r.upcoming = ⟨[], .closed⟩ ∧ r'.upcoming = ⟨[], .closed⟩ ∧ r'.buffered = r.buffered := by
  have hs := fillFrom_source r r.ticks
  rw [← fill, h] at hs
  exact hs

theorem fill_source {r r' : Reader} (h : r.fill = .ok (false, r')) :
    r'.source = r.upcoming ∧ r'.buffered ≠ [] := by
  have hs := fillFrom_source r r.ticks
  rw [← fill, h] at hs
  exact hs

theorem scan_source (line : Bytes) (used : ℕ) (bs rest : Bytes) (stop : Stop) :
    match scan line used bs with
    | .line l n => used < n ∧ n ≤ used + bs.length ∧
        Source.lineFrom line (bs ++ rest) stop = .ok (l, ⟨(bs ++ rest).drop (n - used), stop⟩)
    | .tooLong => Source.lineFrom line (bs ++ rest) stop =
        .error (.failed .io (ascii "response line too long"))
    | .more l => Source.lineFrom line (bs ++ rest) stop = Source.lineFrom l rest stop := by
  induction bs generalizing line used with
  | nil => simp [scan]
  | cons c cs ih =>
    by_cases hc : c = 10
    · simp [scan, Source.lineFrom, hc]
    · by_cases hl : kMaxLineLength ≤ line.length
      · simp [scan, Source.lineFrom, hc, hl]
      · have h := ih (line ++ [c]) (used + 1)
        simp only [scan, Source.lineFrom, hc, hl, if_false, List.cons_append]
        cases hs : scan (line ++ [c]) (used + 1) cs with
        | line l n =>
          rw [hs] at h
          obtain ⟨h1, h2, h3⟩ := h
          have hn : n - used = n - (used + 1) + 1 := by omega
          refine ⟨by omega, by simp only [List.length_cons]; omega, ?_⟩
          rw [h3, hn, List.drop_succ_cons]
        | tooLong =>
          rw [hs] at h
          exact h
        | more l =>
          rw [hs] at h
          exact h

theorem readLineFrom_source (line : Bytes) (r : Reader) :
    (r.readLineFrom line).map (Prod.map id source) = Source.lineFrom line r.source.data r.source.stop := by
  fun_induction readLineFrom line r with
  | case1 line r l n hs =>
    have h := scan_source line 0 r.buffered r.upcoming.data r.upcoming.stop
    rw [hs] at h
    obtain ⟨-, hn, h⟩ := h
    rw [Nat.zero_add, buffered_length] at hn
    simp only [Except.map, Prod.map, id_eq, source_consume r n hn]
    exact h.symm
  | case2 line r hs =>
    have h := scan_source line 0 r.buffered r.upcoming.data r.upcoming.stop
    rw [hs] at h
    exact h.symm
  | case3 line r l hs halt hf =>
    have h := scan_source line 0 r.buffered r.upcoming.data r.upcoming.stop
    rw [hs] at h
    have hu := fill_error hf
    rw [upcoming_consume] at hu
    exact (h.trans (by rw [hu]; rfl)).symm
  | case4 line r l hs r' hf =>
    have h := scan_source line 0 r.buffered r.upcoming.data r.upcoming.stop
    rw [hs] at h
    have hu := (fill_closed hf).1
    rw [upcoming_consume] at hu
    exact (h.trans (by rw [hu]; rfl)).symm
  | case5 line r l hs r' hf ih =>
    have h := scan_source line 0 r.buffered r.upcoming.data r.upcoming.stop
    rw [hs] at h
    have hu := (fill_source hf).1
    rw [upcoming_consume] at hu
    rw [ih, hu]
    exact h.symm

theorem readLine_source (r : Reader) : r.readLine.map (Prod.map id source) = r.source.readLine :=
  readLineFrom_source [] r

end Reader

end BinderDownload.Http

import BinderDownload.Http.Reply

namespace BinderDownload.Http

open Text

namespace Source

def dropped (source : Source) (headers : Headers) : ℕ :=
  match _h : source.readLine with
  | .error _ => 0
  | .ok (line, rest) =>
    if line = [] then 0
    else match find 58 line with
      | none => dropped rest headers + 1
      | some colon =>
        if kMaxHeaderCount ≤ headers.size then 0
        else dropped rest (headers.add (trim (line.take colon)) (trim (line.drop (colon + 1))))
termination_by source.data.length
decreasing_by all_goals exact readLine_length _h

def trailerLines (source : Source) : ℕ :=
  match _h : source.readLine with
  | .error _ => 0
  | .ok (line, rest) => if line = [] then 0 else trailerLines rest + 1
termination_by source.data.length
decreasing_by exact readLine_length _h

def front (data : Bytes) : Source := ⟨data, .halted .waiting⟩

def longer (source : Source) (more : Bytes) : Source := ⟨source.data ++ more, source.stop⟩

theorem lineFrom_waiting {line rest : Bytes} (hline : line.length ≤ kMaxLineLength)
    (h : lineFrom line rest (.halted .waiting) = .error .waiting) : line.length + rest.length ≤ kMaxLineLength := by
  induction rest generalizing line with
  | nil => simpa using hline
  | cons c cs ih =>
    unfold lineFrom at h
    split_ifs at h with hc hlen
    · cases h
    · have := ih (by rw [List.length_append, List.length_singleton]; omega) h
      simp only [List.length_append, List.length_cons, List.length_nil] at this ⊢
      omega

theorem lineFrom_used {line rest l : Bytes} {stop : Stop} {source : Source} (hline : line.length ≤ kMaxLineLength)
    (h : lineFrom line rest stop = .ok (l, source)) :
    source.stop = stop ∧ line.length + rest.length ≤ source.data.length + kMaxLineLength + 1 := by
  induction rest generalizing line with
  | nil => cases stop <;> simp [lineFrom] at h
  | cons c cs ih =>
    unfold lineFrom at h
    split_ifs at h with hc hlen
    · simp only [Except.ok.injEq, Prod.mk.injEq] at h
      rw [← h.2]
      simp only [List.length_cons, true_and]
      omega
    · obtain ⟨hstop, hle⟩ := ih (by rw [List.length_append, List.length_singleton]; omega) h
      simp only [List.length_append, List.length_cons, List.length_nil] at hle ⊢
      exact ⟨hstop, by omega⟩

theorem lineFrom_longer {line rest : Bytes} (more : Bytes) :
    match lineFrom line rest (.halted .waiting) with
    | .error .waiting => True
    | .error halt => lineFrom line (rest ++ more) (.halted .waiting) = .error halt
    | .ok (l, source) => lineFrom line (rest ++ more) (.halted .waiting) = .ok (l, source.longer more) := by
  induction rest generalizing line with
  | nil => simp [lineFrom]
  | cons c cs ih =>
    unfold lineFrom
    rw [List.cons_append]
    by_cases hc : c = 10
    · simp [hc, longer]
    · by_cases hl : kMaxLineLength ≤ line.length
      · simp [hc, hl]
      · simp only [hc, hl, if_false]
        exact ih

section Line

variable {source rest : Source} {line : Bytes}

theorem readLine_waiting (hstop : source.stop = .halted .waiting) (h : source.readLine = .error .waiting) :
    source.data.length ≤ kMaxLineLength := by
  rw [readLine, hstop] at h
  simpa using lineFrom_waiting (by simp) h

theorem readLine_used (h : source.readLine = .ok (line, rest)) :
    rest.stop = source.stop ∧ source.data.length ≤ rest.data.length + kMaxLineLength + 1 := by
  obtain ⟨hstop, hle⟩ := lineFrom_used (by simp) h
  exact ⟨hstop, by simpa using hle⟩

theorem readLine_longer_ok (hstop : source.stop = .halted .waiting) (more : Bytes)
    (h : source.readLine = .ok (line, rest)) : (source.longer more).readLine = .ok (line, rest.longer more) := by
  have hlonger := @lineFrom_longer [] source.data more
  rw [readLine, hstop] at h
  rw [h] at hlonger
  rw [readLine, longer, hstop]
  exact hlonger

theorem readLine_longer_error {halt : Halt} (hstop : source.stop = .halted .waiting) (more : Bytes)
    (h : source.readLine = .error halt) (hhalt : halt ≠ .waiting) : (source.longer more).readLine = .error halt := by
  have hlonger := @lineFrom_longer [] source.data more
  rw [readLine, hstop] at h
  rw [h] at hlonger
  rw [readLine, longer, hstop]
  cases halt with
  | waiting => exact absurd rfl hhalt
  | failed error message => exact hlonger

end Line

section Headers

variable {source rest : Source} {headers : Headers} {line : Bytes}

theorem dropped_error {halt : Halt} (h : source.readLine = .error halt) : source.dropped headers = 0 := by
  rw [dropped]
  split
  · rfl
  · rename_i h'
    rw [h] at h'
    cases h'

theorem dropped_ok (h : source.readLine = .ok (line, rest)) :
    source.dropped headers =
      if line = [] then 0
      else match find 58 line with
        | none => rest.dropped headers + 1
        | some colon =>
          if kMaxHeaderCount ≤ headers.size then 0
          else rest.dropped (headers.add (trim (line.take colon)) (trim (line.drop (colon + 1)))) := by
  rw [dropped]
  split
  · rename_i h'
    rw [h] at h'
    cases h'
  · rename_i line' rest' h'
    rw [h] at h'
    cases h'
    rfl

theorem dropped_blank (h : source.readLine = .ok ([], rest)) : source.dropped headers = 0 := by
  rw [dropped_ok h, if_pos rfl]

theorem dropped_junk (h : source.readLine = .ok (line, rest)) (hl : line ≠ []) (hc : find 58 line = none) :
    source.dropped headers = rest.dropped headers + 1 := by
  rw [dropped_ok h, if_neg hl, hc]

theorem dropped_full {colon : ℕ} (h : source.readLine = .ok (line, rest)) (hl : line ≠ [])
    (hc : find 58 line = some colon) (hk : kMaxHeaderCount ≤ headers.size) : source.dropped headers = 0 := by
  rw [dropped_ok h, if_neg hl, hc]
  exact if_pos hk

theorem dropped_field {colon : ℕ} (h : source.readLine = .ok (line, rest)) (hl : line ≠ [])
    (hc : find 58 line = some colon) (hk : ¬kMaxHeaderCount ≤ headers.size) :
    source.dropped headers =
      rest.dropped (headers.add (trim (line.take colon)) (trim (line.drop (colon + 1)))) := by
  rw [dropped_ok h, if_neg hl, hc]
  exact if_neg hk

theorem dropped_le : source.dropped headers ≤ source.data.length := by
  fun_induction readHeaders source headers with
  | case1 source headers halt h => rw [dropped_error h]; exact Nat.zero_le _
  | case2 source headers rest h => rw [dropped_blank h]; exact Nat.zero_le _
  | case3 source headers line rest h hl hc ih =>
    rw [dropped_junk h hl hc]
    exact (Nat.succ_le_succ ih).trans (readLine_length h)
  | case4 source headers line rest h hl colon hc hk => rw [dropped_full h hl hc hk]; exact Nat.zero_le _
  | case5 source headers line rest h hl colon hc hk ih =>
    rw [dropped_field h hl hc hk]
    exact ih.trans (readLine_length h).le

theorem readHeaders_waiting (hstop : source.stop = .halted .waiting)
    (h : source.readHeaders headers = .error .waiting) :
    source.data.length <
      (source.dropped headers + (kMaxHeaderCount - headers.size) + 1) * (kMaxLineLength + 1) := by
  fun_induction readHeaders source headers with
  | case1 source headers halt hr =>
    rw [Except.error.injEq] at h
    subst h
    have := readLine_waiting hstop hr
    nlinarith
  | case2 source headers rest hr => cases h
  | case3 source headers line rest hr hl hc ih =>
    obtain ⟨hrest, hle⟩ := readLine_used hr
    have := ih (hrest.trans hstop) h
    rw [dropped_junk hr hl hc]
    nlinarith
  | case4 source headers line rest hr hl colon hc hk => cases h
  | case5 source headers line rest hr hl colon hc hk ih =>
    obtain ⟨hrest, hle⟩ := readLine_used hr
    have := ih (hrest.trans hstop) h
    rw [dropped_field hr hl hc hk]
    have hsize : (headers.add (trim (line.take colon)) (trim (line.drop (colon + 1)))).size = headers.size + 1 := by
      simp [Headers.size, Headers.add]
    rw [hsize] at this
    have hone : kMaxHeaderCount - headers.size = kMaxHeaderCount - (headers.size + 1) + 1 := by omega
    rw [hone]
    nlinarith

theorem dropped_longer (hstop : source.stop = .halted .waiting) (more : Bytes) :
    source.dropped headers ≤ (source.longer more).dropped headers ∧
      (source.readHeaders headers ≠ .error .waiting →
        (source.longer more).dropped headers = source.dropped headers) := by
  fun_induction readHeaders source headers with
  | case1 source headers halt h =>
    rw [dropped_error h]
    refine ⟨Nat.zero_le _, fun hleft => ?_⟩
    apply dropped_error
    apply readLine_longer_error hstop more h
    rintro rfl
    exact hleft rfl
  | case2 source headers rest h =>
    rw [dropped_blank h, dropped_blank (readLine_longer_ok hstop more h)]
    exact ⟨le_refl _, fun _ => rfl⟩
  | case3 source headers line rest h hl hc ih =>
    rw [dropped_junk h hl hc, dropped_junk (readLine_longer_ok hstop more h) hl hc]
    obtain ⟨hle, heq⟩ := ih ((readLine_used h).1.trans hstop)
    exact ⟨Nat.succ_le_succ hle, fun hleft => by rw [heq hleft]⟩
  | case4 source headers line rest h hl colon hc hk =>
    rw [dropped_full h hl hc hk, dropped_full (readLine_longer_ok hstop more h) hl hc hk]
    exact ⟨le_refl _, fun _ => rfl⟩
  | case5 source headers line rest h hl colon hc hk ih =>
    rw [dropped_field h hl hc hk, dropped_field (readLine_longer_ok hstop more h) hl hc hk]
    exact ih ((readLine_used h).1.trans hstop)

end Headers

section Trailers

variable {source rest : Source} {line : Bytes}

theorem trailerLines_error {halt : Halt} (h : source.readLine = .error halt) : source.trailerLines = 0 := by
  rw [trailerLines]
  split
  · rfl
  · rename_i h'
    rw [h] at h'
    cases h'

theorem trailerLines_ok (h : source.readLine = .ok (line, rest)) :
    source.trailerLines = if line = [] then 0 else rest.trailerLines + 1 := by
  rw [trailerLines]
  split
  · rename_i h'
    rw [h] at h'
    cases h'
  · rename_i line' rest' h'
    rw [h] at h'
    cases h'
    rfl

theorem trailerLines_blank (h : source.readLine = .ok ([], rest)) : source.trailerLines = 0 := by
  rw [trailerLines_ok h, if_pos rfl]

theorem trailerLines_line (h : source.readLine = .ok (line, rest)) (hl : line ≠ []) :
    source.trailerLines = rest.trailerLines + 1 := by
  rw [trailerLines_ok h, if_neg hl]

theorem trailerLines_le : source.trailerLines ≤ source.data.length := by
  fun_induction trailers source with
  | case1 source h => rw [trailerLines_error h]; exact Nat.zero_le _
  | case2 source error message h => rw [trailerLines_error h]; exact Nat.zero_le _
  | case3 source rest h => rw [trailerLines_blank h]; exact Nat.zero_le _
  | case4 source line rest h hl ih =>
    rw [trailerLines_line h hl]
    exact (Nat.succ_le_succ ih).trans (readLine_length h)

theorem trailers_waiting (hstop : source.stop = .halted .waiting) (h : source.trailers = .error .waiting) :
    source.data.length < (source.trailerLines + 1) * (kMaxLineLength + 1) := by
  fun_induction trailers source with
  | case1 source hr =>
    have := readLine_waiting hstop hr
    nlinarith
  | case2 source error message hr => cases h
  | case3 source rest hr => cases h
  | case4 source line rest hr hl ih =>
    obtain ⟨hrest, hle⟩ := readLine_used hr
    have := ih (hrest.trans hstop) h
    rw [trailerLines_line hr hl]
    nlinarith

theorem trailerLines_longer (hstop : source.stop = .halted .waiting) (more : Bytes) :
    source.trailerLines ≤ (source.longer more).trailerLines ∧
      (source.trailers ≠ .error .waiting → (source.longer more).trailerLines = source.trailerLines) := by
  fun_induction trailers source with
  | case1 source h =>
    rw [trailerLines_error h]
    exact ⟨Nat.zero_le _, fun hleft => absurd rfl hleft⟩
  | case2 source error message h =>
    rw [trailerLines_error h, trailerLines_error (readLine_longer_error hstop more h (by simp))]
    exact ⟨le_refl _, fun _ => rfl⟩
  | case3 source rest h =>
    rw [trailerLines_blank h, trailerLines_blank (readLine_longer_ok hstop more h)]
    exact ⟨le_refl _, fun _ => rfl⟩
  | case4 source line rest h hl ih =>
    rw [trailerLines_line h hl, trailerLines_line (readLine_longer_ok hstop more h) hl]
    obtain ⟨hle, heq⟩ := ih ((readLine_used h).1.trans hstop)
    exact ⟨Nat.succ_le_succ hle, fun hleft => by rw [heq hleft]⟩

end Trailers

section Within

/-- What a count has to do to bound a loop that leaves on some data and waits for more on other. -/
structure Charges (left : Bytes → Prop) (count : Bytes → ℕ) (base rate : ℕ) : Prop where
  le : ∀ data, count data ≤ data.length
  waits : ∀ data, ¬left data → data.length < (count data + base) * rate
  longer : ∀ data more, count data ≤ count (data ++ more)
  stays : ∀ data more, left data → count (data ++ more) = count data

variable {left : Bytes → Prop} {count : Bytes → ℕ} {base rate : ℕ}

theorem Charges.count_le (h : Charges left count base rate) {N : ℕ} {data : Bytes}
    (hleft : N ≤ data.length → left (data.take N)) : count data ≤ N := by
  by_cases hlen : N ≤ data.length
  · have heq := h.stays (data.take N) (data.drop N) (hleft hlen)
    rw [List.take_append_drop] at heq
    rw [heq]
    exact (h.le _).trans (List.length_take_le N data)
  · exact (h.le data).trans (by omega)

theorem Charges.left_of_count (h : Charges left count base rate) {J N : ℕ} (hN : (J + base) * rate ≤ N)
    {data : Bytes} (hJ : count data ≤ J) (hlen : N ≤ data.length) : left (data.take N) := by
  by_contra hleft
  have hwaits := h.waits _ hleft
  rw [List.length_take, min_eq_left hlen] at hwaits
  have hcount := h.longer (data.take N) (data.drop N)
  rw [List.take_append_drop] at hcount
  have := Nat.mul_le_mul_right rate (Nat.add_le_add_right (hcount.trans hJ) base)
  omega

theorem headers_charges :
    Charges (fun data => (front data).readHeaders {} ≠ .error .waiting) (fun data => (front data).dropped {})
      (kMaxHeaderCount + 1) (kMaxLineLength + 1) where
  le _ := dropped_le
  waits _ hleft := readHeaders_waiting rfl (not_not.mp hleft)
  longer _ more := (dropped_longer rfl more).1
  stays _ more hleft := (dropped_longer rfl more).2 hleft

theorem trailers_charges :
    Charges (fun data => (front data).trailers ≠ .error .waiting) (fun data => (front data).trailerLines)
      1 (kMaxLineLength + 1) where
  le _ := trailerLines_le
  waits _ hleft := trailers_waiting rfl (not_not.mp hleft)
  longer _ more := (trailerLines_longer rfl more).1
  stays _ more hleft := (trailerLines_longer rfl more).2 hleft

end Within

end Source

def trickle (data : Bytes) : List Tick :=
  data.map (fun b => { recv := .data ⟨[b], by simp, by simp [kReadBufferSize]⟩ })

theorem trickle_source (data : Bytes) : (Reader.new (trickle data) false 0).source = Source.front data := by
  rw [Reader.new_source]
  induction data with
  | nil => rfl
  | cons b bs ih =>
    simp only [trickle, List.map_cons, Source.ofTicks, Bool.false_and, Bool.false_eq_true, if_false] at ih ⊢
    rw [ih]
    rfl

/-- Once `N` bytes of the section are in, and however they came, the header loop has left. -/
def HeadersWithin (N : ℕ) (data : Bytes) : Prop :=
  N ≤ data.length → ∀ r : Reader, r.source = .front (data.take N) → readHeaders r {} ≠ .error .waiting

def TrailersWithin (N : ℕ) (data : Bytes) : Prop :=
  N ≤ data.length → ∀ r : Reader, r.source = .front (data.take N) → trailers r ≠ .error .waiting

theorem headersWithin_iff (N : ℕ) (data : Bytes) :
    HeadersWithin N data ↔ (N ≤ data.length → (Source.front (data.take N)).readHeaders {} ≠ .error .waiting) := by
  constructor
  · intro h hlen hwait
    apply h hlen _ (trickle_source _)
    have hsource := readHeaders_source (Reader.new (trickle (data.take N)) false 0) {}
    rw [trickle_source, hwait] at hsource
    cases hread : readHeaders (Reader.new (trickle (data.take N)) false 0) {} with
    | error halt =>
      rw [hread] at hsource
      cases hsource
      rfl
    | ok p => rw [hread] at hsource; cases hsource
  · intro h hlen r hr hwait
    apply h hlen
    rw [← hr, ← readHeaders_source, hwait]
    rfl

theorem trailersWithin_iff (N : ℕ) (data : Bytes) :
    TrailersWithin N data ↔ (N ≤ data.length → (Source.front (data.take N)).trailers ≠ .error .waiting) := by
  constructor
  · intro h hlen
    rw [← trickle_source, ← trailers_source]
    exact h hlen _ (trickle_source _)
  · intro h hlen r hr
    rw [trailers_source, hr]
    exact h hlen

theorem sections_bounded (P Q : Set Bytes) :
    (∃ N, (∀ data ∈ P, HeadersWithin N data) ∧ ∀ data ∈ Q, TrailersWithin N data) ↔
      ∃ J, (∀ data ∈ P, (Source.front data).dropped {} ≤ J) ∧
        ∀ data ∈ Q, (Source.front data).trailerLines ≤ J := by
  simp only [headersWithin_iff, trailersWithin_iff]
  constructor
  · rintro ⟨N, hP, hQ⟩
    exact ⟨N, fun data hdata => Source.headers_charges.count_le (hP data hdata),
      fun data hdata => Source.trailers_charges.count_le (hQ data hdata)⟩
  · rintro ⟨J, hP, hQ⟩
    refine ⟨(J + (kMaxHeaderCount + 1)) * (kMaxLineLength + 1), fun data hdata => ?_, fun data hdata => ?_⟩
    · exact Source.headers_charges.left_of_count (le_refl _) (hP data hdata)
    · exact Source.trailers_charges.left_of_count (Nat.mul_le_mul_right _ (by omega)) (hQ data hdata)

def junk : ℕ → Bytes
  | 0 => []
  | 1 => [120]
  | n + 2 => 120 :: 10 :: junk n

theorem junk_length (n : ℕ) : (junk n).length = n := by
  fun_induction junk n with
  | case1 => rfl
  | case2 => rfl
  | case3 n ih => rw [List.length_cons, List.length_cons, ih]

theorem junk_line (n : ℕ) : (Source.front (junk (n + 2))).readLine = .ok ([120], .front (junk n)) := by
  simp [Source.readLine, Source.front, junk, Source.lineFrom, kMaxLineLength, Reader.chomp]

theorem junk_headers (n : ℕ) : (Source.front (junk n)).readHeaders {} = .error .waiting := by
  fun_induction junk n with
  | case1 => rw [Source.readHeaders]; rfl
  | case2 => rw [Source.readHeaders]; rfl
  | case3 n ih =>
    have hline := junk_line n
    rw [junk] at hline
    rw [Source.readHeaders]
    split
    · rename_i h'
      rw [hline] at h'
      cases h'
    · rename_i line rest h'
      rw [hline] at h'
      cases h'
      exact ih

theorem junk_trailers (n : ℕ) : (Source.front (junk n)).trailers = .error .waiting := by
  fun_induction junk n with
  | case1 => rw [Source.trailers]; rfl
  | case2 => rw [Source.trailers]; rfl
  | case3 n ih =>
    have hline := junk_line n
    rw [junk] at hline
    rw [Source.trailers]
    split
    · rfl
    · rename_i h'
      rw [hline] at h'
      cases h'
    · rename_i line rest h'
      rw [hline] at h'
      cases h'
      exact ih

theorem sections_unbounded :
    (¬∃ N, ∀ data, HeadersWithin N data) ∧ ¬∃ N, ∀ data, TrailersWithin N data := by
  have htake (N : ℕ) : (junk N).take N = junk N := List.take_of_length_le (junk_length N).le
  constructor
  · rintro ⟨N, hN⟩
    have hleft := (headersWithin_iff N (junk N)).mp (hN (junk N)) (junk_length N).ge
    rw [htake] at hleft
    exact hleft (junk_headers N)
  · rintro ⟨N, hN⟩
    have hleft := (trailersWithin_iff N (junk N)).mp (hN (junk N)) (junk_length N).ge
    rw [htake] at hleft
    exact hleft (junk_trailers N)

end BinderDownload.Http

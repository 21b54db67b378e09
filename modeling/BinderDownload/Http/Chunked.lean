import BinderDownload.Http.Pump

namespace BinderDownload.Http

open Text

variable {σ : Type}

theorem Source.lineFrom_length {line rest l : Bytes} {stop : Stop} {source : Source}
    (h : Source.lineFrom line rest stop = .ok (l, source)) : source.data.length < rest.length := by
  induction rest generalizing line with
  | nil => cases stop <;> simp [lineFrom] at h
  | cons c cs ih =>
    unfold lineFrom at h
    split_ifs at h
    · simp only [Except.ok.injEq, Prod.mk.injEq] at h
      rw [← h.2]
      simp
    · have := ih h
      simp only [List.length_cons]
      omega

theorem Source.readLine_length {source source' : Source} {l : Bytes} (h : source.readLine = .ok (l, source')) :
    source'.data.length < source.data.length := lineFrom_length h

theorem Source.plain_length (source source' : Source) (want : ℤ) (written : ℕ)
    (h : (source.plain want written).2 = .ok source') : source'.data.length ≤ source.data.length := by
  simp only [plain] at h
  split_ifs at h
  · cases hs : source.stop with
    | closed =>
      simp only [hs, Except.ok.injEq] at h
      simp [← h]
    | halted halt => simp [hs] at h
  · simp only [Except.ok.injEq] at h
    simp [← h]
  · cases hs : source.stop <;> simp [hs] at h

namespace Reader

theorem readLine_ok {r r' : Reader} {l : Bytes} (h : r.readLine = .ok (l, r')) :
    r.source.readLine = .ok (l, r'.source) := by
  rw [← readLine_source, h]
  rfl

theorem readLine_error {r : Reader} {halt : Halt} (h : r.readLine = .error halt) :
    r.source.readLine = .error halt := by
  rw [← readLine_source, h]
  rfl

theorem readLine_length {r r' : Reader} {l : Bytes} (h : r.readLine = .ok (l, r')) :
    r'.source.data.length < r.source.data.length := Source.readLine_length (readLine_ok h)

end Reader

theorem pumpPlain_source {r r' : Reader} {want : ℤ} {f : BodyFn σ} {s : σ} {written : ℕ}
    (h : (pumpPlain r want f s written).outcome = .ok r') : (r.source.plain want written).2 = .ok r'.source := by
  obtain ⟨pieces, outcome, -, -, ho, hp⟩ := pumpPlain_delivery r want written
  rw [hp f s, delivery] at h
  simp only at h
  split_ifs at h
  rw [← ho, h]
  rfl

theorem pumpPlain_length {r r' : Reader} {want : ℤ} {f : BodyFn σ} {s : σ} {written : ℕ}
    (h : (pumpPlain r want f s written).outcome = .ok r') : r'.source.data.length ≤ r.source.data.length :=
  Source.plain_length r.source r'.source want written (pumpPlain_source h)

def trailers (r : Reader) : Except Halt Unit :=
  match _h : r.readLine with
  | .error .waiting => .error .waiting
  | .error (.failed _ _) => .ok ()
  | .ok (line, r') => if line = [] then .ok () else trailers r'
termination_by r.source.data.length
decreasing_by exact Reader.readLine_length _h

def chunkHeader (line : Bytes) : Bytes :=
  trim (match find 59 line with
    | none => line
    | some semi => line.take semi)

def malformedChunk (header : Bytes) : Halt :=
  .failed .io (ascii "malformed chunk size \"" ++ header ++ ascii "\"")

def pumpChunked (r : Reader) (onBody : BodyFn σ) (s : σ) (written : ℕ) : Pumped σ Unit :=
  match _h1 : r.readLine with
  | .error halt => ⟨.error halt, written, s⟩
  | .ok (line, r1) =>
    let header := chunkHeader line
    let size := strtoll header 16
    if size.2 = 0 ∨ size.1 < 0 then ⟨.error (malformedChunk header), written, s⟩
    else if size.1 = 0 then ⟨trailers r1, written, s⟩
    else
      let pumped := pumpPlain r1 size.1 onBody s 0
      match _h2 : pumped.outcome with
      | .error halt => ⟨.error halt, written + pumped.written, pumped.sink⟩
      | .ok r2 =>
        match _h3 : r2.readLine with
        | .error halt => ⟨.error halt, written + pumped.written, pumped.sink⟩
        | .ok (_, r3) => pumpChunked r3 onBody pumped.sink (written + pumped.written)
termination_by r.source.data.length
decreasing_by
  have h1 := Reader.readLine_length _h1
  have h2 := pumpPlain_length _h2
  have h3 := Reader.readLine_length _h3
  omega

namespace Source

def trailers (source : Source) : Except Halt Unit :=
  match _h : source.readLine with
  | .error .waiting => .error .waiting
  | .error (.failed _ _) => .ok ()
  | .ok (line, rest) => if line = [] then .ok () else trailers rest
termination_by source.data.length
decreasing_by exact readLine_length _h

def chunked (source : Source) : Bytes × Except Halt Unit :=
  match _h1 : source.readLine with
  | .error halt => ([], .error halt)
  | .ok (line, rest1) =>
    let header := chunkHeader line
    let size := strtoll header 16
    if size.2 = 0 ∨ size.1 < 0 then ([], .error (malformedChunk header))
    else if size.1 = 0 then ([], trailers rest1)
    else
      let data := rest1.plain size.1 0
      match _h2 : data.2 with
      | .error halt => (data.1, .error halt)
      | .ok rest2 =>
        match _h3 : rest2.readLine with
        | .error halt => (data.1, .error halt)
        | .ok (_, rest3) => (data.1 ++ (chunked rest3).1, (chunked rest3).2)
termination_by source.data.length
decreasing_by
  all_goals
    have h1 := readLine_length _h1
    have h2 := plain_length _ _ _ _ _h2
    have h3 := readLine_length _h3
    omega

end Source

theorem trailers_source (r : Reader) : trailers r = r.source.trailers := by
  fun_induction trailers r with
  | case1 r h =>
    rw [Source.trailers]
    split <;> rename_i h' <;> rw [Reader.readLine_error h] at h' <;> cases h'
  | case2 r e m h =>
    rw [Source.trailers]
    split <;> rename_i h' <;> rw [Reader.readLine_error h] at h' <;> cases h'
  | case3 r r' h =>
    rw [Source.trailers]
    split <;> rename_i h' <;> rw [Reader.readLine_ok h] at h' <;> cases h'
    rfl
  | case4 r line r' h hl ih =>
    rw [Source.trailers]
    split <;> rename_i h' <;> rw [Reader.readLine_ok h] at h' <;> cases h'
    rw [if_neg hl, ih]

namespace Source

variable {source rest1 rest2 rest3 : Source} {line line' : Bytes} {halt : Halt}

theorem chunked_error (h : source.readLine = .error halt) : source.chunked = ([], .error halt) := by
  rw [chunked]
  split <;> rename_i h' <;> rw [h] at h' <;> cases h'
  rfl

theorem chunked_malformed (h : source.readLine = .ok (line, rest1))
    (hs : (strtoll (chunkHeader line) 16).2 = 0 ∨ (strtoll (chunkHeader line) 16).1 < 0) :
    source.chunked = ([], .error (malformedChunk (chunkHeader line))) := by
  rw [chunked]
  split <;> rename_i h' <;> rw [h] at h' <;> cases h'
  rw [if_pos hs]

theorem chunked_last (h : source.readLine = .ok (line, rest1))
    (hs : (strtoll (chunkHeader line) 16).2 ≠ 0) (hz : (strtoll (chunkHeader line) 16).1 = 0) :
    source.chunked = ([], rest1.trailers) := by
  rw [chunked]
  split <;> rename_i h' <;> rw [h] at h' <;> cases h'
  rw [if_neg (by omega), if_pos hz]

theorem chunked_cut (h : source.readLine = .ok (line, rest1))
    (hs : (strtoll (chunkHeader line) 16).2 ≠ 0) (hp : 0 < (strtoll (chunkHeader line) 16).1)
    (hd : (rest1.plain (strtoll (chunkHeader line) 16).1 0).2 = .error halt) :
    source.chunked = ((rest1.plain (strtoll (chunkHeader line) 16).1 0).1, .error halt) := by
  rw [chunked]
  split <;> rename_i h' <;> rw [h] at h' <;> cases h'
  rw [if_neg (by omega), if_neg (by omega)]
  dsimp only
  split <;> rename_i h' <;> rw [hd] at h' <;> cases h'
  rfl

theorem chunked_unended (h : source.readLine = .ok (line, rest1))
    (hs : (strtoll (chunkHeader line) 16).2 ≠ 0) (hp : 0 < (strtoll (chunkHeader line) 16).1)
    (hd : (rest1.plain (strtoll (chunkHeader line) 16).1 0).2 = .ok rest2) (he : rest2.readLine = .error halt) :
    source.chunked = ((rest1.plain (strtoll (chunkHeader line) 16).1 0).1, .error halt) := by
  rw [chunked]
  split <;> rename_i h' <;> rw [h] at h' <;> cases h'
  rw [if_neg (by omega), if_neg (by omega)]
  dsimp only
  split <;> rename_i h' <;> rw [hd] at h' <;> cases h'
  split <;> rename_i h' <;> rw [he] at h' <;> cases h'
  rfl

theorem chunked_chunk (h : source.readLine = .ok (line, rest1))
    (hs : (strtoll (chunkHeader line) 16).2 ≠ 0) (hp : 0 < (strtoll (chunkHeader line) 16).1)
    (hd : (rest1.plain (strtoll (chunkHeader line) 16).1 0).2 = .ok rest2)
    (he : rest2.readLine = .ok (line', rest3)) :
    source.chunked =
      ((rest1.plain (strtoll (chunkHeader line) 16).1 0).1 ++ rest3.chunked.1, rest3.chunked.2) := by
  rw [chunked]
  split <;> rename_i h' <;> rw [h] at h' <;> cases h'
  rw [if_neg (by omega), if_neg (by omega)]
  dsimp only
  split <;> rename_i h' <;> rw [hd] at h' <;> cases h'
  split <;> rename_i h' <;> rw [he] at h' <;> cases h'
  rfl

end Source

section Steps

variable {r r1 : Reader} {line : Bytes} (f : BodyFn σ) (s : σ) (written : ℕ)

theorem pumpChunked_error {halt : Halt} (h : r.readLine = .error halt) :
    pumpChunked r f s written = ⟨.error halt, written, s⟩ := by
  rw [pumpChunked]
  split <;> rename_i h' <;> rw [h] at h' <;> cases h'
  rfl

theorem pumpChunked_malformed (h : r.readLine = .ok (line, r1))
    (hs : (strtoll (chunkHeader line) 16).2 = 0 ∨ (strtoll (chunkHeader line) 16).1 < 0) :
    pumpChunked r f s written = ⟨.error (malformedChunk (chunkHeader line)), written, s⟩ := by
  rw [pumpChunked]
  split <;> rename_i h' <;> rw [h] at h' <;> cases h'
  rw [if_pos hs]

theorem pumpChunked_last (h : r.readLine = .ok (line, r1))
    (hs : (strtoll (chunkHeader line) 16).2 ≠ 0) (hz : (strtoll (chunkHeader line) 16).1 = 0) :
    pumpChunked r f s written = ⟨trailers r1, written, s⟩ := by
  rw [pumpChunked]
  split <;> rename_i h' <;> rw [h] at h' <;> cases h'
  rw [if_neg (by omega), if_pos hz]

theorem pumpChunked_chunk (h : r.readLine = .ok (line, r1))
    (hs : (strtoll (chunkHeader line) 16).2 ≠ 0) (hp : 0 < (strtoll (chunkHeader line) 16).1) :
    pumpChunked r f s written =
      match (pumpPlain r1 (strtoll (chunkHeader line) 16).1 f s 0).outcome with
      | .error halt => ⟨.error halt, written + (pumpPlain r1 (strtoll (chunkHeader line) 16).1 f s 0).written,
          (pumpPlain r1 (strtoll (chunkHeader line) 16).1 f s 0).sink⟩
      | .ok r2 =>
        match r2.readLine with
        | .error halt => ⟨.error halt, written + (pumpPlain r1 (strtoll (chunkHeader line) 16).1 f s 0).written,
            (pumpPlain r1 (strtoll (chunkHeader line) 16).1 f s 0).sink⟩
        | .ok (_, r3) => pumpChunked r3 f (pumpPlain r1 (strtoll (chunkHeader line) 16).1 f s 0).sink
            (written + (pumpPlain r1 (strtoll (chunkHeader line) 16).1 f s 0).written) := by
  rw [pumpChunked]
  split <;> rename_i h' <;> rw [h] at h' <;> cases h'
  rw [if_neg (by omega), if_neg (by omega)]
  dsimp only
  split <;> rename_i h2
  · simp only [h2]
  · simp only [h2]
    split <;> rename_i h3 <;> simp only [h3]

end Steps

theorem pumpChunked_delivery (r : Reader) :
    ∃ pieces, (∀ p ∈ pieces, Piece p) ∧ pieces.flatten = r.source.chunked.1 ∧
      ∀ {σ : Type} (f : BodyFn σ) (s : σ) (written : ℕ),
        pumpChunked r f s written = delivery pieces r.source.chunked.2 written f s := by
  induction hn : r.source.data.length using Nat.strong_induction_on generalizing r with
  | _ n ih =>
    cases hr : r.readLine with
    | error halt =>
      rw [Source.chunked_error (Reader.readLine_error hr)]
      exact ⟨[], by simp, rfl, fun f s written => pumpChunked_error f s written hr⟩
    | ok p =>
      obtain ⟨line, r1⟩ := p
      have hline := Reader.readLine_ok hr
      by_cases hbad : (strtoll (chunkHeader line) 16).2 = 0 ∨ (strtoll (chunkHeader line) 16).1 < 0
      · rw [Source.chunked_malformed hline hbad]
        exact ⟨[], by simp, rfl, fun f s written => pumpChunked_malformed f s written hr hbad⟩
      · obtain ⟨hs, hneg⟩ := not_or.mp hbad
        by_cases hz : (strtoll (chunkHeader line) 16).1 = 0
        · rw [Source.chunked_last hline hs hz, ← trailers_source r1]
          exact ⟨[], by simp, rfl, fun f s written => pumpChunked_last f s written hr hs hz⟩
        · have hp : 0 < (strtoll (chunkHeader line) 16).1 := by omega
          obtain ⟨ps, outcome, hne, hflat, hout, hplain⟩ :=
            pumpPlain_delivery r1 (strtoll (chunkHeader line) 16).1 0
          cases outcome with
          | error halt =>
            rw [Source.chunked_cut hline hs hp hout.symm]
            refine ⟨ps, hne, hflat, fun f s written => ?_⟩
            rw [pumpChunked_chunk f s written hr hs hp, hplain f s]
            unfold delivery
            by_cases hd : (feed f s ps).done <;> simp [hd]
          | ok r2 =>
            cases hr2 : r2.readLine with
            | error halt =>
              rw [Source.chunked_unended hline hs hp hout.symm (Reader.readLine_error hr2)]
              refine ⟨ps, hne, hflat, fun f s written => ?_⟩
              rw [pumpChunked_chunk f s written hr hs hp, hplain f s]
              unfold delivery
              by_cases hd : (feed f s ps).done <;> simp [hd, hr2]
            | ok q =>
              obtain ⟨line', r3⟩ := q
              have h1 := Reader.readLine_length hr
              have h2 := Source.plain_length r1.source r2.source _ 0 hout.symm
              have h3 := Reader.readLine_length hr2
              obtain ⟨qs, hne', hflat', hrest⟩ := ih _ (by omega) r3 rfl
              rw [Source.chunked_chunk hline hs hp hout.symm (Reader.readLine_ok hr2)]
              refine ⟨ps ++ qs, ?_, by rw [List.flatten_append, hflat, hflat'], fun f s written => ?_⟩
              · intro p hmem
                rcases List.mem_append.mp hmem with h | h
                · exact hne p h
                · exact hne' p h
              · rw [pumpChunked_chunk f s written hr hs hp, hplain f s, delivery_append]
                by_cases hd : (feed f s ps).done
                · simp [delivery, hd, hr2, hrest]
                · simp [delivery, hd]

end BinderDownload.Http
